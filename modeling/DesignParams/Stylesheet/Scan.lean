import DesignParams.Identity
import DesignParams.Number.Literal
import DesignParams.Stylesheet.Pair
import DesignParams.Stylesheet.Property
import DesignParams.Text.Slug

/-!
# Stylesheet parameters

The parameters of a stylesheet are its declarations of the allowed properties that are no
references yet, each identity once and no more than a fixed count. A parameter is named for its
group, its property and the hash of its identity; equal names are told apart by a number.
-/
set_option autoImplicit false

namespace DesignParams

namespace Stylesheet

def maxParams : Nat := 120

/-- What makes two declarations the same parameter. -/
def identity (file : Path) (d : Declaration) : Text :=
  Text.join ['|'] [file.text, d.selector, d.property, d.value]

def isCandidate (d : Declaration) : Bool :=
  Property.isAllowed d.property && !Property.isReference d.value

def distinct (file : Path) : List Text → List Declaration → List Declaration
  | _, [] => []
  | seen, d :: rest =>
    if seen.contains (identity file d) then distinct file seen rest
    else d :: distinct file (identity file d :: seen) rest

def selected (css : Text) (file : Path) : List Declaration :=
  (distinct file [] ((Declaration.ofStylesheet css).filter isCandidate)).take maxParams

/-- The name of a parameter before equal names are told apart. -/
def stem (file : Path) (d : Declaration) : Text :=
  Text.slugify ((Property.group d.property).name ++ '-' :: d.property) ++
    '-' :: Identity.shortHash (identity file d)

/-- The stem followed by the least number from 2 on that makes it unused, or the bare stem. -/
def unusedStem (used : List Text) (stem : Text) : Text :=
  if used.contains stem then
    let numbered := (List.range (used.length + 1)).map fun n => stem ++ '-' :: Text.ofNat (n + 2)
    (numbered.find? (!used.contains ·)).getD stem
  else stem

def recognise (property value : Text) : Kind × Value × Option Text × Option Bounds :=
  match Quantity.parse? value with
  | some q =>
    (.number, .number q.number, if q.unit.isEmpty then none else some q.unit,
      some (Property.bounds property))
  | none => (if Property.isColor value then .color else .string, .text value, none, none)

def parameter (file : Path) (d : Declaration) (stem : Text) : Parameter :=
  let (kind, default, unit, bounds) := recognise d.property d.value
  let selector := if d.selector.isEmpty then none else some d.selector
  { id := "rig.".toList ++ stem
    label := d.property.map fun c => if c = '-' then ' ' else c
    group := Property.group d.property
    kind, default, unit
    min := bounds.map (·.min)
    max := bounds.map (·.max)
    step := bounds.map (·.step)
    customProperty := "--rig-".toList ++ stem
    confidence := Property.confidence d.property d.value selector kind
    origin := .stylesheet
    source :=
      { file, property := d.property, selector
        line := some d.position.line
        column := some d.position.column
        value := d.value
        start := d.start
        stop := d.stop } }

def named (file : Path) : List Text → List Declaration → List Parameter
  | _, [] => []
  | used, d :: rest =>
    let s := unusedStem used (stem file d)
    parameter file d s :: named file (s :: used) rest

def scan (css : Text) (file : Path) : List Parameter :=
  named file [] (selected css file)

end Stylesheet

end DesignParams
