import DesignParams.CommandLine.Arguments
import DesignParams.CommandLine.Workspace
import DesignParams.Report.Render

/-!
# Running a command

A command gives a report or fails, and leaves the file tree changed by what it has written. A
command that fails may have written a file before.
-/
set_option autoImplicit false

namespace DesignParams

inductive Report where
  | scan (scan : ProjectScan)
  | candidates (candidates : List Candidate)
  | params (params : List Parameter)
  | plan (report : PlanReport)
  | written (report : WriteReport)
deriving DecidableEq, Repr

namespace Report

def toJson : Report → Json
  | .scan s => s.toJson
  | .candidates cs => .array (cs.map Candidate.toJson)
  | .params ps => .array (ps.map Parameter.toJson)
  | .plan r => r.toJson
  | .written r => r.toJson

def render (styling : Styling) : Report → Text
  | .scan s => s.render styling
  | .candidates cs => Candidate.renderAll styling cs
  | .params ps => Parameter.renderAll styling ps
  | .plan r => r.render styling
  | .written r => r.render styling

def emit (format : OutputFormat) (r : Report) : Text :=
  format.emit r.toJson (r.render ·)

end Report

def documentText (json : Json) : Text :=
  json.pretty ++ ['\n']

namespace Workspace

def stylesheetParams (w : Workspace) (file : Path) : Except CommandFault (List Parameter) :=
  let file := Path.within w.root file
  (w.read file).map (Stylesheet.scan · file)

def themeParams (w : Workspace) (file : Path) (limit : Option Nat) :
    Except CommandFault (List Parameter) :=
  let file := Path.within w.root file
  (w.read file).map (Theme.scan · file (limit.getD w.settings.themeLimit))

/-- Writes files one after the other, up to the first that cannot be written. -/
def writeAll (w : Workspace) : List (Path × Text) → Workspace × Option CommandFault
  | [] => (w, none)
  | (p, content) :: files =>
    match w.write p content with
    | (w, some e) => (w, some e)
    | (w, none) => w.writeAll files

def writeReported (w : Workspace) (files : List (Path × Text)) (params : Nat) :
    FileTree × Except CommandFault Report :=
  match w.writeAll files with
  | (w, some e) => (w.tree, .error e)
  | (w, none) => (w.tree, .ok (.written ⟨files.map fun file => w.root.append file.1, params⟩))

def reportPlan (w : Workspace) (css overrides : Option Path) (now : Instant) :
    Except CommandFault Report :=
  match w.loadOverrides overrides with
  | .error e => .error e
  | .ok overrides =>
    (w.plan css overrides now).map fun (plan, current) =>
      .plan (.ofTexts plan.file plan.config.params.length current plan.content)

/-- Writes the stylesheet and then the configuration. -/
def apply (w : Workspace) (css overrides : Option Path) (now : Instant) :
    FileTree × Except CommandFault Report :=
  match w.loadOverrides overrides with
  | .error e => (w.tree, .error e)
  | .ok overrides =>
    match w.plan css overrides now with
    | .error e => (w.tree, .error e)
    | .ok (plan, _) =>
      w.writeReported
        [(plan.file, plan.content), (w.settings.configFile, documentText plan.config.toJson)]
        plan.config.params.length

def writeSnapshot (w : Workspace) (css overrides : Option Path) (now : Instant) :
    FileTree × Except CommandFault Report :=
  match w.loadOverrides overrides with
  | .error e => (w.tree, .error e)
  | .ok overrides =>
    let snapshot := (w.scan css).snapshot overrides now
    w.writeReported [(w.settings.snapshotFile, documentText snapshot.toJson)]
      snapshot.params.length

end Workspace

namespace Command

def run (w : Workspace) (now : Instant) : Command → FileTree × Except CommandFault Report
  | .scan chosen => (w.tree, .ok (.scan (w.scan chosen)))
  | .candidates => (w.tree, .ok (.candidates w.candidates))
  | .css file => (w.tree, (w.stylesheetParams file).map .params)
  | .tokens file limit => (w.tree, (w.themeParams file limit).map .params)
  | .plan chosen overrides => (w.tree, w.reportPlan chosen overrides now)
  | .apply chosen overrides => w.apply chosen overrides now
  | .snapshot chosen overrides => w.writeSnapshot chosen overrides now

end Command

namespace Arguments

def run (args : Arguments) (tree : FileTree) (now : Instant) :
    FileTree × Except CommandFault Text :=
  match Workspace.load tree args.root with
  | .error e => (tree, .error e)
  | .ok w =>
    let (tree, report) := args.command.run w now
    (tree, report.map (·.emit args.format))

end Arguments

end DesignParams
