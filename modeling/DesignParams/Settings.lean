import DesignParams.Project.Scan
import DesignParams.Yaml.Node
import DesignParams.Yaml.Plain

/-!
# Settings

The settings of a project, as its settings file gives them. Every field may be left out; an
unknown or repeated one is refused. The fields may also stand in a list, in their order.
-/
set_option autoImplicit false

namespace DesignParams

structure Settings where
  /-- The main stylesheet, whatever the candidates are. -/
  stylesheet : Option Path
  exclude : List Text
  themeLimit : Nat
  scriptSample : Nat
  stylesheetSample : Nat
  configFile : Path
  snapshotFile : Path
deriving DecidableEq, Repr

namespace Settings

def default : Settings where
  stylesheet := none
  exclude :=
    ["node_modules".toList, "dist".toList, "build".toList, "coverage".toList, ".git".toList,
      ".next".toList, "out".toList]
  themeLimit := Theme.defaultLimit
  scriptSample := Samples.default.scripts
  stylesheetSample := Samples.default.stylesheets
  configFile := .ofString "rig.config.json"
  snapshotFile := .ofString "rig.snapshot.json"

def samples (s : Settings) : Samples :=
  ⟨s.scriptSample, s.stylesheetSample⟩

def scanOptions (s : Settings) : ScanOptions :=
  ⟨s.themeLimit, s.samples⟩

end Settings

/-! ## Reading nodes -/

namespace Yaml.Node

def asText? : Node → Option Text
  | .scalar _ _ text => some text
  | _ => none

def asPath? (node : Node) : Option Path :=
  node.asText?.map (⟨·⟩)

def coreTag (name : String) : Text :=
  "tag:yaml.org,2002:".toList ++ name.toList

/-- A natural number of 64 bits, plain or as a literal block that is tagged as an integer. -/
def asNat? : Node → Option Nat
  | .scalar tag style text =>
    if style = .plain ∨ (style = .literal ∧ tag = some (coreTag "int")) then
      natural? (Nat.pow 2 64 - 1) text
    else none
  | _ => none

/-- Is a node a plain null? One that is tagged as null has to be spelled out. -/
def isNull? : Node → Option Bool
  | .scalar tag style text =>
    if style ≠ .plain then some false
    else if tag = some (coreTag "null") then
      if Yaml.isNull text && !text.isEmpty then some true else none
    else some (Yaml.isNull text)
  | _ => some false

def asOptional? {α : Type} (read : Node → Option α) (node : Node) : Option (Option α) :=
  match node.isNull? with
  | none => none
  | some true => some none
  | some false => (read node).map some

def asTexts? : Node → Option (List Text)
  | .sequence items => items.mapM asText?
  | .scalar _ style text => if style = .plain && Yaml.isNull text then some [] else none
  | .mapping _ => none

end Yaml.Node

namespace Settings

structure Field where
  name : Text
  set? : Yaml.Node → Settings → Option Settings

def fields : List Field :=
  [⟨"stylesheet".toList, fun n s =>
      (n.asOptional? Yaml.Node.asPath?).map fun a => { s with stylesheet := a }⟩,
    ⟨"exclude".toList, fun n s => n.asTexts?.map fun a => { s with exclude := a }⟩,
    ⟨"token_limit".toList, fun n s => n.asNat?.map fun a => { s with themeLimit := a }⟩,
    ⟨"script_sample".toList, fun n s => n.asNat?.map fun a => { s with scriptSample := a }⟩,
    ⟨"stylesheet_sample".toList, fun n s => n.asNat?.map fun a => { s with stylesheetSample := a }⟩,
    ⟨"config_file".toList, fun n s => n.asPath?.map fun a => { s with configFile := a }⟩,
    ⟨"snapshot_file".toList, fun n s => n.asPath?.map fun a => { s with snapshotFile := a }⟩]

/-- Reads the entries of a mapping; `left` are the fields that have not been read yet. -/
def ofEntries? (left : List Field) (s : Settings) : List (Yaml.Node × Yaml.Node) → Option Settings
  | [] => some s
  | (key, value) :: entries =>
    match key.asText? with
    | none => none
    | some name =>
      match left.find? (·.name == name) with
      | none => none
      | some field =>
        match field.set? value s with
        | none => none
        | some s => ofEntries? (left.filter (·.name != name)) s entries

def ofItems? (s : Settings) : List Field → List Yaml.Node → Option Settings
  | _, [] => some s
  | [], _ :: _ => none
  | field :: fields, item :: items =>
    match field.set? item s with
    | none => none
    | some s => ofItems? s fields items

def ofNode? : Yaml.Node → Option Settings
  | .mapping entries => ofEntries? fields default entries
  | .sequence items => ofItems? default fields items
  | .scalar _ style text => if style = .plain && text.isEmpty then some default else none

def parse? (source : Text) : Option Settings :=
  if Text.isAllBlank source then some default
  else
    match Yaml.Node.parse? source with
    | none => none
    | some none => some default
    | some (some node) => ofNode? node

end Settings

end DesignParams
