import DesignParams.Number.Decimal
import DesignParams.Path

/-!
# Parameters

A parameter is one tunable value of a project: a stylesheet literal with the byte span it stands
in, or an entry of a theme configuration, which has no span. Overrides give parameters new values
by id.
-/
set_option autoImplicit false

namespace DesignParams

inductive Group where
  | colour
  | typography
  | spacing
  | radius
  | shadow
  | motion
  | other
deriving DecidableEq, Repr

namespace Group

def all : List Group :=
  [.colour, .typography, .spacing, .radius, .shadow, .motion, .other]

def name : Group → Text
  | .colour => "Colour".toList
  | .typography => "Typography".toList
  | .spacing => "Spacing".toList
  | .radius => "Radius".toList
  | .shadow => "Shadow".toList
  | .motion => "Motion".toList
  | .other => "Other".toList

def rank : Group → Nat
  | .colour => 0
  | .typography => 1
  | .spacing => 2
  | .radius => 3
  | .shadow => 4
  | .motion => 5
  | .other => 6

def ofName? (s : Text) : Option Group :=
  all.find? (·.name == s)

end Group

inductive Kind where
  | number
  | color
  | string
deriving DecidableEq, Repr

namespace Kind

def all : List Kind :=
  [.number, .color, .string]

def name : Kind → Text
  | .number => "number".toList
  | .color => "color".toList
  | .string => "string".toList

def ofName? (s : Text) : Option Kind :=
  all.find? (·.name == s)

end Kind

inductive Origin where
  | stylesheet
  | theme
deriving DecidableEq, Repr

namespace Origin

def all : List Origin :=
  [.stylesheet, .theme]

def name : Origin → Text
  | .stylesheet => "css".toList
  | .theme => "tailwind".toList

def ofName? (s : Text) : Option Origin :=
  all.find? (·.name == s)

end Origin

inductive Value where
  | number (n : Binary64)
  | text (s : Text)
deriving DecidableEq, Repr

namespace Value

/-- The value as stylesheet text; a unit follows numbers only. -/
def render (unit : Option Text) : Value → Text
  | .number n => n.plain ++ unit.getD []
  | .text s => s

end Value

structure Bounds where
  min : Binary64
  max : Binary64
  step : Binary64
deriving DecidableEq, Repr

/-- Where a value stands. The byte span is `-1` to `-1` for a value that has none. -/
structure Source where
  file : Path
  property : Text
  selector : Option Text
  line : Option Nat
  column : Option Nat
  value : Text
  start : Int
  stop : Int
deriving DecidableEq, Repr

namespace Source

def span? (s : Source) : Option (Nat × Nat) :=
  if 0 ≤ s.start ∧ s.start < s.stop then some (s.start.toNat, s.stop.toNat) else none

end Source

structure Parameter where
  id : Text
  label : Text
  group : Group
  kind : Kind
  min : Option Binary64
  max : Option Binary64
  step : Option Binary64
  default : Value
  unit : Option Text
  customProperty : Text
  confidence : Binary64
  origin : Origin
  source : Source
deriving DecidableEq, Repr

/-- New values by parameter id. -/
abbrev Overrides := Entries Value

namespace Parameter

/-- The override of a parameter, or else its default. -/
def effectiveValue (p : Parameter) (overrides : Overrides) : Value :=
  (Entries.find? p.id overrides).getD p.default

def bounds? (p : Parameter) : Option Bounds :=
  match p.min, p.max, p.step with
  | some min, some max, some step => some ⟨min, max, step⟩
  | _, _, _ => none

def isSpliceable (p : Parameter) : Bool :=
  p.source.span?.isSome

/-- The order parameters are listed in: by group, label, selector and id. -/
def order (p q : Parameter) : Ordering :=
  (compare p.group.rank q.group.rank).then <|
    (Text.order p.label q.label).then <|
      (Text.order (p.source.selector.getD []) (q.source.selector.getD [])).then <|
        Text.order p.id q.id

def sort (params : List Parameter) : List Parameter :=
  params.mergeSort fun p q => order p q != .gt

end Parameter

/-- A confidence in hundredths, held between two bounds. -/
def confidenceOf (low high hundredths : Int) : Binary64 :=
  Binary64.ofRatio false (max low (min high hundredths)).toNat 100

end DesignParams
