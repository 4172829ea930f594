import DesignParams.Report.Basic
import DesignParams.Report.Style
import DesignParams.Text.Width

/-!
# Reports as text

Lists are set in columns, whose width is that of their widest cell in a terminal.
-/
set_option autoImplicit false

namespace DesignParams

def columnWidth (cells : List Text) : Nat :=
  (cells.map Text.columns).foldl max 0

def lines (texts : List Text) : Text :=
  Text.join ['\n'] texts

def row (cells : List Text) : Text :=
  Text.join [' ', ' '] cells

namespace Parameter

def valueText (p : Parameter) : Text :=
  p.default.render p.unit

def location (p : Parameter) : Text :=
  match p.source.selector, p.source.line with
  | some selector, some line =>
    selector ++ " (".toList ++ p.source.file.text ++ ':' :: Text.ofNat line ++ [')']
  | some selector, none => selector
  | none, _ => p.source.file.text

/-- The line of a parameter, whose first two columns have the given widths. -/
def line (styling : Styling) (labelWidth valueWidth : Nat) (p : Parameter) : Text :=
  ' ' :: ' ' :: row
    [styling.apply .name (Text.padRight labelWidth p.label),
      styling.apply .value (Text.padRight valueWidth p.valueText),
      p.customProperty,
      styling.apply .muted p.location]

def renderAll (styling : Styling) (params : List Parameter) : Text :=
  if params.isEmpty then styling.apply .muted "No parameters found".toList
  else
    let labelWidth := columnWidth (params.map (·.label))
    let valueWidth := columnWidth (params.map valueText)
    let part (group : Group) : Option Text :=
      match params.filter (·.group = group) with
      | [] => none
      | members =>
        some (lines (styling.apply .heading group.name ::
          members.map (line styling labelWidth valueWidth)))
    Text.join ['\n', '\n'] (Group.all.filterMap part)

end Parameter

def Candidate.renderAll (styling : Styling) (candidates : List Candidate) : Text :=
  if candidates.isEmpty then styling.apply .muted "No CSS files found".toList
  else
    let scoreWidth := columnWidth (candidates.map fun c => Text.ofNat c.score)
    lines <| candidates.map fun c =>
      row
        [styling.apply .value (Text.padLeft scoreWidth (Text.ofNat c.score)),
          styling.apply .name c.file.text,
          styling.apply .muted c.reason]

def ProjectScan.render (styling : Styling) (scan : ProjectScan) : Text :=
  let fact (name : String) (value : Text) : Text :=
    styling.apply .heading name.toList ++ ' ' :: value
  let diagnostics :=
    if scan.diagnostics.isEmpty then []
    else
      [] :: styling.apply .heading "Diagnostics".toList ::
        scan.diagnostics.map fun note => ' ' :: ' ' :: styling.apply .muted note
  lines <|
    [fact "Project:" scan.kind.name,
      fact "Stylesheet:" ((scan.stylesheet.map (·.text)).getD "none".toList),
      fact "Candidates:" (Text.ofNat scan.candidates.length),
      fact "Parameters:" (Text.ofNat scan.params.length),
      [],
      Parameter.renderAll styling scan.params] ++ diagnostics

def PlanReport.render (styling : Styling) (r : PlanReport) : Text :=
  if r.diff.isEmpty then r.file.text ++ " is up to date".toList
  else
    lines
      [styling.diff r.diff,
        styling.apply .muted (Text.ofNat r.params ++ " parameters, ".toList ++
          Text.ofNat r.inserted ++ " insertions(+), ".toList ++
          Text.ofNat r.deleted ++ " deletions(-)".toList)]

def WriteReport.render (styling : Styling) (r : WriteReport) : Text :=
  lines <|
    r.files.map (fun file => styling.apply .added "wrote".toList ++ ' ' :: file.text) ++
      [Text.ofNat r.params ++ " parameters".toList]

end DesignParams
