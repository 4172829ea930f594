import DesignParams.CommandLine.FileTree
import DesignParams.Document.Decode
import DesignParams.Plan
import DesignParams.Settings

/-!
# Workspaces

A workspace is a project in a file tree together with its settings.
-/
set_option autoImplicit false

namespace DesignParams

inductive CommandFault where
  | rootIsNoDirectory (root : Path)
  /-- The settings file is not a valid one. -/
  | settings (file : Path)
  | read (file : Path) (fault : FileFault)
  | write (file : Path) (fault : FileFault)
  | noStylesheet
  | overridesUnreadable (file : Path) (fault : FileFault)
  | overrides (file : Path) (error : OverridesError)
deriving DecidableEq, Repr

namespace CommandFault

def message : CommandFault → Text
  | .rootIsNoDirectory root => "project root ".toList ++ root.text ++ " is not a directory".toList
  | .settings file => "invalid configuration in ".toList ++ file.text
  | .read file e => "failed to read ".toList ++ file.text ++ ": ".toList ++ e.message
  | .write file e => "failed to write ".toList ++ file.text ++ ": ".toList ++ e.message
  | .noStylesheet =>
    "no stylesheet to rewrite; pass --css or set \x60stylesheet\x60 in rigger.yaml".toList
  | .overridesUnreadable file _ => "failed to read overrides from ".toList ++ file.text
  | .overrides file _ => "invalid overrides in ".toList ++ file.text

/-- What a fault comes from, the nearest cause first. -/
def causes : CommandFault → List Text
  | .rootIsNoDirectory _ | .settings _ | .noStylesheet => []
  | .read _ e | .write _ e | .overridesUnreadable _ e => [e.message]
  | .overrides _ (.json e) => [OverridesError.message (.json e), e.message]
  | .overrides _ e => [e.message]

end CommandFault

/-- The names of the settings file, of which the first that is there counts. -/
def Settings.files : List Path :=
  [.ofString "rigger.yaml", .ofString ".rigger.yaml"]

structure Workspace where
  tree : FileTree
  root : Path
  settings : Settings
deriving DecidableEq, Repr

namespace Workspace

def loadSettings (tree : FileTree) (root : Path) : Except CommandFault Settings :=
  match (Settings.files.map root.append).find? tree.isFile with
  | none => .ok .default
  | some file =>
    match tree.read file with
    | .error e => .error (.read file e)
    | .ok source =>
      match Settings.parse? source with
      | none => .error (.settings file)
      | some settings => .ok settings

def load (tree : FileTree) (root : Path) : Except CommandFault Workspace :=
  if tree.isDirectory root then (loadSettings tree root).map fun s => ⟨tree, root, s⟩
  else .error (.rootIsNoDirectory root)

def project (w : Workspace) : Project :=
  w.tree.project w.root w.settings.exclude

/-- The stylesheet that is asked for, or else the one that the settings name. -/
def selected (w : Workspace) (css : Option Path) : Option Path :=
  css.map (Path.within w.root) <|> w.settings.stylesheet

def scan (w : Workspace) (css : Option Path) : ProjectScan :=
  w.project.scanWith (w.selected css) w.settings.scanOptions

def candidates (w : Workspace) : List Candidate :=
  w.project.candidates w.project.kind.1 w.settings.samples

def read (w : Workspace) (p : Path) : Except CommandFault Text :=
  match w.tree.read (w.root.append p) with
  | .ok content => .ok content
  | .error e => .error (.read (w.root.append p) e)

def write (w : Workspace) (p : Path) (content : Text) : Workspace × Option CommandFault :=
  match w.tree.write (w.root.append p) content with
  | (tree, none) => ({ w with tree }, none)
  | (tree, some e) => ({ w with tree }, some (.write (w.root.append p) e))

def loadOverrides (w : Workspace) : Option Path → Except CommandFault Overrides
  | none => .ok []
  | some file =>
    match w.tree.read file with
    | .error e => .error (.overridesUnreadable file e)
    | .ok source =>
      match Overrides.parse source with
      | .error e => .error (.overrides file e)
      | .ok overrides => .ok overrides

def plan (w : Workspace) (css : Option Path) (overrides : Overrides) (now : Instant) :
    Except CommandFault (EditPlan × Text) :=
  let scan := w.scan css
  match scan.stylesheet with
  | none => .error .noStylesheet
  | some file =>
    match w.read file with
    | .error e => .error e
    | .ok current =>
      match scan.plan? current overrides now with
      | none => .error .noStylesheet
      | some plan => .ok (plan, current)

end Workspace

end DesignParams
