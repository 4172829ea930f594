import DesignParams.Document.Basic
import DesignParams.Json.Printer

/-!
# Documents as JSON

Parameters, scans, configurations and snapshots. The members of every object have a fixed order; a member without a value is left out.
-/
set_option autoImplicit false

namespace DesignParams

def Path.toJson (p : Path) : Json :=
  .string p.text

def Value.toJson : Value → Json
  | .number n => .number (.ofBinary64 n)
  | .text s => .string s

def Source.toJson (s : Source) : Json :=
  .object <|
    [("file".toList, s.file.toJson), ("property".toList, .string s.property)] ++
    Json.member? "selector" .string s.selector ++
    Json.member? "line" .ofNat s.line ++
    Json.member? "column" .ofNat s.column ++
    [("value".toList, .string s.value),
      ("start".toList, .number (.ofInt s.start)),
      ("end".toList, .number (.ofInt s.stop))]

def Parameter.toJson (p : Parameter) : Json :=
  .object <|
    [("id".toList, .string p.id),
      ("label".toList, .string p.label),
      ("group".toList, .string p.group.name),
      ("type".toList, .string p.kind.name)] ++
    Json.member? "min" .ofDecimal p.min ++
    Json.member? "max" .ofDecimal p.max ++
    Json.member? "step" .ofDecimal p.step ++
    [("default".toList, p.default.toJson)] ++
    Json.member? "unit" .string p.unit ++
    [("cssVar".toList, .string p.customProperty),
      ("confidence".toList, .ofDecimal p.confidence),
      ("origin".toList, .string p.origin.name),
      ("source".toList, p.source.toJson)]

def Overrides.toJson (overrides : Overrides) : Json :=
  .object (overrides.map fun (id, value) => (id, value.toJson))

def Candidate.toJson (c : Candidate) : Json :=
  .object
    [("file".toList, c.file.toJson),
      ("score".toList, .ofNat c.score),
      ("reason".toList, .string c.reason)]

def Json.ofOption {α : Type} (encode : α → Json) : Option α → Json
  | some a => encode a
  | none => .null

def ProjectScan.toJson (s : ProjectScan) : Json :=
  .object
    [("projectType".toList, .string s.kind.name),
      ("root".toList, s.root.toJson),
      ("cssFile".toList, .ofOption Path.toJson s.stylesheet),
      ("cssCandidates".toList, .array (s.candidates.map (·.toJson))),
      ("params".toList, .array (s.params.map (·.toJson))),
      ("diagnostics".toList, .array (s.diagnostics.map .string))]

def StylesheetEntry.toJson (e : StylesheetEntry) : Json :=
  .object [("file".toList, e.file.toJson), ("injected".toList, .bool e.injected)]

def Config.toJson (c : Config) : Json :=
  .object
    [("version".toList, .string c.version),
      ("projectType".toList, .string c.kind.name),
      ("generatedAt".toList, .string c.generatedAt),
      ("params".toList, .array (c.params.map (·.toJson))),
      ("files".toList, .array (c.files.map (·.toJson)))]

def SnapshotEntry.toJson (e : SnapshotEntry) : Json :=
  .object <|
    [("id".toList, .string e.id),
      ("label".toList, .string e.label),
      ("group".toList, .string e.group.name),
      ("cssVar".toList, .string e.customProperty)] ++
    Json.member? "unit" .string e.unit ++
    [("value".toList, e.value.toJson)]

def Snapshot.toJson (s : Snapshot) : Json :=
  .object
    [("version".toList, .string s.version),
      ("projectType".toList, .string s.kind.name),
      ("generatedAt".toList, .string s.generatedAt),
      ("params".toList, .array (s.params.map (·.toJson))),
      ("files".toList, .array (s.files.map (·.toJson))),
      ("overrides".toList, s.overrides.toJson)]

end DesignParams
