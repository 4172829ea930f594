import DesignParams.Number.Decimal
import DesignParams.Text.Entries

/-!
# JSON values

Whole numbers of 64 bits stay whole; all others are binary64. The members of an object keep their
order.
-/
set_option autoImplicit false

namespace DesignParams

inductive JsonNumber where
  /-- A whole number below `2 ^ 64`. -/
  | natural (n : Nat)
  /-- A negative whole number, not below `-2 ^ 63`; `n` is its magnitude. -/
  | negative (n : Nat)
  | decimal (x : Binary64)
deriving DecidableEq, Repr

namespace JsonNumber

def toBinary64 : JsonNumber → Binary64
  | .natural n => Binary64.ofNat n
  | .negative n => Binary64.ofRatio true n 1
  | .decimal x => x

/-- Numbers in JSON: an exponent carries its sign, and infinity is null. -/
def layout : NumberLayout :=
  { plus := true, infinity := "null".toList, signedInfinity := false }

def text : JsonNumber → Text
  | .natural n => Text.ofNat n
  | .negative n => '-' :: Text.ofNat n
  | .decimal x => x.write layout

/-- A whole number of small magnitude is written whole, any other number with its point. -/
def ofBinary64 (x : Binary64) : JsonNumber :=
  match x.smallInt? with
  | some (.ofNat n) => .natural n
  | some (.negSucc n) => .negative (n + 1)
  | none => .decimal x

def ofInt : Int → JsonNumber
  | .ofNat n => .natural n
  | .negSucc n => .negative (n + 1)

end JsonNumber

inductive Json where
  | null
  | bool (b : Bool)
  | number (n : JsonNumber)
  | string (s : Text)
  | array (items : List Json)
  | object (members : List (Text × Json))
deriving Repr

namespace Json

def field? (key : Text) : Json → Option Json
  | .object members => Entries.find? key members
  | _ => none

def ofNat (n : Nat) : Json :=
  .number (.natural n)

def ofDecimal (x : Binary64) : Json :=
  .number (.decimal x)

def member? {α : Type} (key : String) (encode : α → Json) : Option α → List (Text × Json)
  | none => []
  | some a => [(key.toList, encode a)]

end Json

end DesignParams
