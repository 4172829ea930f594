import DesignParams.Number.Literal
import DesignParams.Text.Slug
import DesignParams.Theme.Section

/-!
# Theme parameters

The entries of all sections are gathered in order, one level of nested groups flattened into its
entries. Of several entries with one key in a section the first counts. Nothing more is looked at
once as many parameters as the limit allows are found.
-/
set_option autoImplicit false

namespace DesignParams

namespace Theme

/-- An entry of a section, under its flattened key. -/
structure Entry where
  inSection : Section
  key : Text
  value : Text
deriving DecidableEq, Repr

def isGroup (raw : Text) : Bool :=
  raw.head? = some '\x7B'

def base (e : Entry) : Text :=
  Text.slugify (e.inSection.key ++ '-' :: e.key)

/-- The number that tells the entries of one slug apart, from the second on. -/
def suffix (earlier : Nat) : Text :=
  if earlier = 0 then [] else '-' :: Text.ofNat (earlier + 1)

def recognise (e : Entry) : Kind × Value × Option Text × Option Bounds :=
  if e.inSection = .colors ∧ Property.isColor e.value then (.color, .text e.value, none, none)
  else
    match Quantity.parse? e.value with
    | some q =>
      (.number, .number q.number, if q.unit.isEmpty then none else some q.unit,
        some e.inSection.bounds)
    | none => (.string, .text e.value, none, none)

/-- A label is the key with each run of dashes and underscores as one space. -/
def labelFrom : Bool → Text → Text
  | _, [] => []
  | inRun, c :: s =>
    if c = '-' ∨ c = '_' then if inRun then labelFrom true s else ' ' :: labelFrom true s
    else c :: labelFrom false s

/-- The confidence in a theme parameter: a sum of hundredths, between 0.2 and 0.6. -/
def confidence (s : Section) (kind : Kind) : Binary64 :=
  let ofKind : Int := if kind = .string then 0 else 10
  let ofSection : Int := if s = .spacing ∨ s = .fontSize then 5 else 0
  confidenceOf 20 60 (35 + ofKind + ofSection)

def parameter (file : Path) (e : Entry) (name : Text) : Parameter :=
  let (kind, default, unit, bounds) := recognise e
  { id := "rig.tw.".toList ++ name
    label := labelFrom false e.key
    group := e.inSection.group
    kind, default, unit
    min := bounds.map (·.min)
    max := bounds.map (·.max)
    step := bounds.map (·.step)
    customProperty := "--rig-tw-".toList ++ name
    confidence := confidence e.inSection kind
    origin := .theme
    source :=
      { file, property := "tailwind.".toList ++ e.inSection.key
        selector := some e.key
        line := none
        column := none
        value := e.value
        start := -1
        stop := -1 } }

structure Extraction where
  file : Path
  limit : Nat
  /-- The keys gathered, each with its section. -/
  seen : List (Section × Text)
  /-- The slugs given away, as often as they were. -/
  bases : List Text
  params : List Parameter

namespace Extraction

def isFull (x : Extraction) : Bool :=
  x.limit ≤ x.params.length

/-- Gathers an entry, unless there is one with its key in its section. -/
def push (x : Extraction) (e : Entry) : Extraction :=
  if x.seen.contains (e.inSection, e.key) then x
  else
    { x with
      seen := (e.inSection, e.key) :: x.seen
      bases := base e :: x.bases
      params := x.params ++ [parameter x.file e (base e ++ suffix (x.bases.count (base e)))] }

/-- Goes through a list until the extraction is full. -/
def each {α : Type} (step : Extraction → α → Extraction) : Extraction → List α → Extraction
  | x, [] => x
  | x, a :: rest => if x.isFull then x else each step (step x a) rest

def gatherLeaf (s : Section) (key raw : Text) (x : Extraction) : Extraction :=
  match representative? raw with
  | some value => x.push ⟨s, key, value⟩
  | none => x

/-- Gathers an entry of a group under the joined key; a group in it is passed over. -/
def gatherNested (s : Section) (parent : Text) (x : Extraction) (entry : Text) : Extraction :=
  match splitKeyValue? entry with
  | none => x
  | some (key, value) =>
    if isGroup value then x else x.gatherLeaf s (parent ++ '-' :: key) value

def gatherGroup (s : Section) (parent raw : Text) (x : Extraction) : Extraction :=
  match bracedBlock? raw with
  | none => x
  | some (body, _) => x.each (gatherNested s parent) (splitTopLevel body)

def gatherEntry (s : Section) (x : Extraction) (entry : Text) : Extraction :=
  match splitKeyValue? entry with
  | none => x
  | some (key, value) => if isGroup value then x.gatherGroup s key value else x.gatherLeaf s key value

def gatherBlock (s : Section) (x : Extraction) (block : Text) : Extraction :=
  x.each (gatherEntry s) (splitTopLevel block)

def gatherSection (source : Text) (x : Extraction) (s : Section) : Extraction :=
  x.each (gatherBlock s) (Section.blocks source s)

end Extraction

def scan (source : Text) (file : Path) (limit : Nat) : List Parameter :=
  (Extraction.each (Extraction.gatherSection source) ⟨file, limit, [], [], []⟩ Section.all).params

def defaultLimit : Nat := 60

end Theme

end DesignParams
