import DesignParams.Instant
import DesignParams.Project.Scan

/-!
# Documents

A configuration describes the parameters of a scanned project in full; a snapshot gives each of
them its present value and keeps the overrides.
-/
set_option autoImplicit false

namespace DesignParams

structure StylesheetEntry where
  file : Path
  injected : Bool
deriving DecidableEq, Repr

structure Config where
  version : Text
  kind : ProjectKind
  generatedAt : Text
  params : List Parameter
  files : List StylesheetEntry
deriving DecidableEq, Repr

structure SnapshotEntry where
  id : Text
  label : Text
  group : Group
  customProperty : Text
  unit : Option Text
  value : Value
deriving DecidableEq, Repr

structure Snapshot where
  version : Text
  kind : ProjectKind
  generatedAt : Text
  params : List SnapshotEntry
  files : List StylesheetEntry
  overrides : Overrides
deriving DecidableEq, Repr

def documentVersion : Text :=
  "0.1".toList

namespace ProjectScan

def stylesheetEntries (scan : ProjectScan) : List StylesheetEntry :=
  scan.stylesheet.toList.map (⟨·, true⟩)

def config (scan : ProjectScan) (generatedAt : Instant) : Config where
  version := documentVersion
  kind := scan.kind
  generatedAt := generatedAt.text
  params := scan.params
  files := scan.stylesheetEntries

end ProjectScan

def SnapshotEntry.ofParameter (overrides : Overrides) (p : Parameter) : SnapshotEntry where
  id := p.id
  label := p.label
  group := p.group
  customProperty := p.customProperty
  unit := p.unit
  value := p.effectiveValue overrides

def ProjectScan.snapshot (scan : ProjectScan) (overrides : Overrides) (generatedAt : Instant) :
    Snapshot where
  version := documentVersion
  kind := scan.kind
  generatedAt := generatedAt.text
  params := scan.params.map (.ofParameter overrides)
  files := scan.stylesheetEntries
  overrides

end DesignParams
