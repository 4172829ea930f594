import DesignParams.Project.Candidate
import DesignParams.Project.ThemeConfig
import DesignParams.Stylesheet.Scan

/-!
# The scan of a project

A scan finds the kind of a project, ranks the candidates for its main stylesheet, and collects the
parameters of the best one, or of one that was selected, and of the theme configuration. It always
succeeds; what it could not read is among the diagnostics.
-/
set_option autoImplicit false

namespace DesignParams

structure ScanOptions where
  themeLimit : Nat
  samples : Samples
deriving DecidableEq, Repr

def ScanOptions.default : ScanOptions :=
  ⟨Theme.defaultLimit, .default⟩

structure ProjectScan where
  kind : ProjectKind
  root : Path
  stylesheet : Option Path
  candidates : List Candidate
  /-- The parameters in display order. -/
  params : List Parameter
  /-- What was decided, in order. -/
  diagnostics : List Text
deriving DecidableEq, Repr

namespace ProjectScan

def param? (scan : ProjectScan) (id : Text) : Option Parameter :=
  scan.params.find? (·.id = id)

end ProjectScan

namespace Project

/-- The parameters of a stylesheet, and why it could not be read. -/
def stylesheetParams (project : Project) (file : Path) : List Parameter × List Text :=
  match project.read file with
  | .ok css => (Stylesheet.scan css file, [])
  | .error e => ([], ["Failed to read ".toList ++ file.text ++ ": ".toList ++ e])

def chosenNote : Option Path → Text
  | some file => "Using CSS file: ".toList ++ file.text
  | none => "No CSS files found".toList

def scan (project : Project) (options : ScanOptions) : ProjectScan :=
  let (kind, kindNotes) := project.kind
  let candidates := project.candidates kind options.samples
  let stylesheet := candidates.head?.map (·.file)
  let (params, readNotes) := (stylesheet.map project.stylesheetParams).getD ([], [])
  let (theme, themeNotes) := project.themeParams options.themeLimit
  { kind, root := project.root, stylesheet, candidates
    params := Parameter.sort (params ++ theme)
    diagnostics :=
      kindNotes ++ ["CSS candidates: ".toList ++ Text.ofNat candidates.length,
        chosenNote stylesheet] ++ readNotes ++ themeNotes }

/-- Scans a project with a selected stylesheet. A selection that is no file gives no stylesheet. -/
def scanSelected (project : Project) (selected : Path) (options : ScanOptions) : ProjectScan :=
  let (kind, kindNotes) := project.kind
  let (stylesheet, params, readNotes) :=
    if project.isFile selected then
      let (params, notes) := project.stylesheetParams selected
      (some selected, params, notes)
    else (none, [], ["Selected CSS file not found: ".toList ++ selected.text])
  let (theme, themeNotes) := project.themeParams options.themeLimit
  { kind, root := project.root, stylesheet
    candidates := project.candidates kind options.samples
    params := Parameter.sort (params ++ theme)
    diagnostics :=
      ["Using selected CSS file: ".toList ++ selected.text] ++ kindNotes ++ readNotes ++
        themeNotes }

def scanWith (project : Project) (selected : Option Path) (options : ScanOptions) : ProjectScan :=
  match selected with
  | some file => project.scanSelected file options
  | none => project.scan options

end Project

end DesignParams
