import DesignParams.Document.Encode
import DesignParams.Json.Typed

/-!
# Reading documents

Documents are read field by field as their text gives them; the first fault wins. Overrides are
read from a bare object, or from the `overrides` of a snapshot.
-/
set_option autoImplicit false

namespace DesignParams

open JsonReader

/-! ## Values -/

def Value.ofJson? : Json → Option Value
  | .number n => some (.number n.toBinary64)
  | .string s => some (.text s)
  | _ => none

namespace JsonFault

def notAValue : JsonFault :=
  .noVariant "ParamValue".toList

end JsonFault

namespace Value

/-- Reads a value inside `depth` fewer brackets than may be open. -/
def reader (depth : Nat) (s : Text) : Except JsonFailure (Value × Text) :=
  match JsonReader.value depth s with
  | .error e => .error e
  | .ok (json, rest) =>
    match ofJson? json with
    | some v => .ok (v, rest)
    | none => .error ⟨.notAValue, rest, 0, false⟩

end Value

def Path.reader (s : Text) : Except JsonFailure (Path × Text) :=
  (JsonReader.text "path string".toList s).map fun (text, rest) => (⟨text⟩, rest)

def textReader : JsonReader Text :=
  JsonReader.text "a string".toList

def Group.reader : JsonReader Group :=
  choice (Group.all.map Group.name) Group.ofName?

def Kind.reader : JsonReader Kind :=
  choice (Kind.all.map Kind.name) Kind.ofName?

def Origin.reader : JsonReader Origin :=
  choice (Origin.all.map Origin.name) Origin.ofName?

def ProjectKind.reader : JsonReader ProjectKind :=
  choice (ProjectKind.all.map ProjectKind.name) ProjectKind.ofName?

/-! ## Parameters -/

structure SourceFields where
  file : Option Path := none
  property : Option Text := none
  selector : Option (Option Text) := none
  line : Option (Option Nat) := none
  column : Option (Option Nat) := none
  value : Option Text := none
  start : Option Int := none
  stop : Option Int := none

namespace SourceFields

def slots : List (Slot SourceFields) :=
  [slot "file" (·.file) (fun f a => { f with file := some a }) Path.reader,
    slot "property" (·.property) (fun f a => { f with property := some a }) textReader,
    optionalSlot "selector" (·.selector) (fun f a => { f with selector := some a }) textReader,
    optionalSlot "line" (·.line) (fun f a => { f with line := some a }) natural,
    optionalSlot "column" (·.column) (fun f a => { f with column := some a }) natural,
    slot "value" (·.value) (fun f a => { f with value := some a }) textReader,
    slot "start" (·.start) (fun f a => { f with start := some a }) integer,
    slot "end" (·.stop) (fun f a => { f with stop := some a }) integer]

def finish (f : SourceFields) : Except JsonFault Source := do
  let file ← need "file" f.file
  let property ← need "property" f.property
  let value ← need "value" f.value
  let start ← need "start" f.start
  let stop ← need "end" f.stop
  return {
    file, property, value, start, stop
    selector := f.selector.join
    line := f.line.join
    column := f.column.join }

end SourceFields

def Source.reader : JsonReader Source :=
  record "ParamSource" SourceFields.slots {} SourceFields.finish

structure ParameterFields where
  id : Option Text := none
  label : Option Text := none
  group : Option Group := none
  kind : Option Kind := none
  min : Option (Option Binary64) := none
  max : Option (Option Binary64) := none
  step : Option (Option Binary64) := none
  default : Option Value := none
  unit : Option (Option Text) := none
  customProperty : Option Text := none
  confidence : Option Binary64 := none
  origin : Option Origin := none
  source : Option Source := none

namespace ParameterFields

def slots (depth : Nat) : List (Slot ParameterFields) :=
  [slot "id" (·.id) (fun f a => { f with id := some a }) textReader,
    slot "label" (·.label) (fun f a => { f with label := some a }) textReader,
    slot "group" (·.group) (fun f a => { f with group := some a }) Group.reader,
    slot "type" (·.kind) (fun f a => { f with kind := some a }) Kind.reader,
    optionalSlot "min" (·.min) (fun f a => { f with min := some a }) decimal,
    optionalSlot "max" (·.max) (fun f a => { f with max := some a }) decimal,
    optionalSlot "step" (·.step) (fun f a => { f with step := some a }) decimal,
    slot "default" (·.default) (fun f a => { f with default := some a }) (Value.reader depth),
    optionalSlot "unit" (·.unit) (fun f a => { f with unit := some a }) textReader,
    slot "cssVar" (·.customProperty) (fun f a => { f with customProperty := some a }) textReader,
    slot "confidence" (·.confidence) (fun f a => { f with confidence := some a }) decimal,
    slot "origin" (·.origin) (fun f a => { f with origin := some a }) Origin.reader,
    slot "source" (·.source) (fun f a => { f with source := some a }) Source.reader]

def finish (f : ParameterFields) : Except JsonFault Parameter := do
  let id ← need "id" f.id
  let label ← need "label" f.label
  let group ← need "group" f.group
  let kind ← need "type" f.kind
  let default ← need "default" f.default
  let customProperty ← need "cssVar" f.customProperty
  let confidence ← need "confidence" f.confidence
  let origin ← need "origin" f.origin
  let source ← need "source" f.source
  return {
    id, label, group, kind, default, customProperty, confidence, origin, source
    min := f.min.join
    max := f.max.join
    step := f.step.join
    unit := f.unit.join }

end ParameterFields

def Parameter.reader (depth : Nat) : JsonReader Parameter :=
  record "Parameter" (ParameterFields.slots depth) {} ParameterFields.finish

/-! ## Configurations -/

structure StylesheetEntryFields where
  file : Option Path := none
  injected : Option Bool := none

namespace StylesheetEntryFields

def slots : List (Slot StylesheetEntryFields) :=
  [slot "file" (·.file) (fun f a => { f with file := some a }) Path.reader,
    slot "injected" (·.injected) (fun f a => { f with injected := some a }) boolean]

def finish (f : StylesheetEntryFields) : Except JsonFault StylesheetEntry := do
  let file ← need "file" f.file
  let injected ← need "injected" f.injected
  return { file, injected }

end StylesheetEntryFields

def StylesheetEntry.reader : JsonReader StylesheetEntry :=
  record "FileEntry" StylesheetEntryFields.slots {} StylesheetEntryFields.finish

structure ConfigFields where
  version : Option Text := none
  kind : Option ProjectKind := none
  generatedAt : Option Text := none
  params : Option (List Parameter) := none
  files : Option (List StylesheetEntry) := none

namespace ConfigFields

def slots : List (Slot ConfigFields) :=
  [slot "version" (·.version) (fun f a => { f with version := some a }) textReader,
    slot "projectType" (·.kind) (fun f a => { f with kind := some a }) ProjectKind.reader,
    slot "generatedAt" (·.generatedAt) (fun f a => { f with generatedAt := some a }) textReader,
    slot "params" (·.params) (fun f a => { f with params := some a })
      (sequence (Parameter.reader (depthLimit - 3))),
    slot "files" (·.files) (fun f a => { f with files := some a }) (sequence StylesheetEntry.reader)]

def finish (f : ConfigFields) : Except JsonFault Config := do
  let version ← need "version" f.version
  let kind ← need "projectType" f.kind
  let generatedAt ← need "generatedAt" f.generatedAt
  let params ← need "params" f.params
  let files ← need "files" f.files
  return { version, kind, generatedAt, params, files }

end ConfigFields

def Config.reader : JsonReader Config :=
  record "RigConfig" ConfigFields.slots {} ConfigFields.finish

/-! ## Snapshots -/

structure SnapshotEntryFields where
  id : Option Text := none
  label : Option Text := none
  group : Option Group := none
  customProperty : Option Text := none
  unit : Option (Option Text) := none
  value : Option Value := none

namespace SnapshotEntryFields

def slots : List (Slot SnapshotEntryFields) :=
  [slot "id" (·.id) (fun f a => { f with id := some a }) textReader,
    slot "label" (·.label) (fun f a => { f with label := some a }) textReader,
    slot "group" (·.group) (fun f a => { f with group := some a }) Group.reader,
    slot "cssVar" (·.customProperty) (fun f a => { f with customProperty := some a }) textReader,
    optionalSlot "unit" (·.unit) (fun f a => { f with unit := some a }) textReader,
    slot "value" (·.value) (fun f a => { f with value := some a })
      (Value.reader (depthLimit - 3))]

def finish (f : SnapshotEntryFields) : Except JsonFault SnapshotEntry := do
  let id ← need "id" f.id
  let label ← need "label" f.label
  let group ← need "group" f.group
  let customProperty ← need "cssVar" f.customProperty
  let value ← need "value" f.value
  return { id, label, group, customProperty, value, unit := f.unit.join }

end SnapshotEntryFields

def SnapshotEntry.reader : JsonReader SnapshotEntry :=
  record "SnapshotParam" SnapshotEntryFields.slots {} SnapshotEntryFields.finish

structure SnapshotFields where
  version : Option Text := none
  kind : Option ProjectKind := none
  generatedAt : Option Text := none
  params : Option (List SnapshotEntry) := none
  files : Option (List StylesheetEntry) := none
  overrides : Option Overrides := none

namespace SnapshotFields

def slots : List (Slot SnapshotFields) :=
  [slot "version" (·.version) (fun f a => { f with version := some a }) textReader,
    slot "projectType" (·.kind) (fun f a => { f with kind := some a }) ProjectKind.reader,
    slot "generatedAt" (·.generatedAt) (fun f a => { f with generatedAt := some a }) textReader,
    slot "params" (·.params) (fun f a => { f with params := some a })
      (sequence SnapshotEntry.reader),
    slot "files" (·.files) (fun f a => { f with files := some a }) (sequence StylesheetEntry.reader),
    slot "overrides" (·.overrides) (fun f a => { f with overrides := some a })
      (dictionary (Value.reader (depthLimit - 2)))]

def finish (f : SnapshotFields) : Except JsonFault Snapshot := do
  let version ← need "version" f.version
  let kind ← need "projectType" f.kind
  let generatedAt ← need "generatedAt" f.generatedAt
  let params ← need "params" f.params
  let files ← need "files" f.files
  let overrides ← need "overrides" f.overrides
  return { version, kind, generatedAt, params, files, overrides }

end SnapshotFields

def Snapshot.reader : JsonReader Snapshot :=
  record "RigSnapshot" SnapshotFields.slots {} SnapshotFields.finish

/-! ## Whole documents -/

def Parameter.parse (source : Text) : Except JsonError Parameter :=
  run (Parameter.reader (depthLimit - 1)) source

def Config.parse (source : Text) : Except JsonError Config :=
  run Config.reader source

def Snapshot.parse (source : Text) : Except JsonError Snapshot :=
  run Snapshot.reader source

/-! ## Overrides -/

inductive OverridesError where
  | json (error : JsonError)
  | notAnObject
deriving DecidableEq, Repr

def OverridesError.message : OverridesError → Text
  | .json e => "JSON error: ".toList ++ e.message
  | .notAnObject => "Invalid overrides: expected a JSON object".toList

namespace Overrides

/-- Overrides from the members of an object, the first of which that is no value is a fault. -/
def ofMembers : List (Text × Json) → Except OverridesError Overrides
  | [] => .ok []
  | (id, json) :: members =>
    match Value.ofJson? json with
    | none => .error (.json ⟨.notAValue, none⟩)
    | some value => (ofMembers members).map ((id, value) :: ·)

/-- The overrides that a value holds: those of its member `overrides` if that is an object, or
else its own members. -/
def ofJson (json : Json) : Except OverridesError Overrides :=
  match json, json.field? "overrides".toList with
  | .object _, some (.object inner) => ofMembers inner
  | .object members, _ => ofMembers members
  | _, _ => .error .notAnObject

def parse (source : Text) : Except OverridesError Overrides :=
  match Json.parse source with
  | .error e => .error (.json e)
  | .ok json => ofJson json

end Overrides

end DesignParams
