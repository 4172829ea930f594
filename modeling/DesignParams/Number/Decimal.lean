import DesignParams.Number.Binary64

/-!
# Decimal forms of binary64 numbers

The digits of a number are the fewest that read back as the number, and of several such the ones
nearest to it. Three layouts write them: a plain positional one, and the two that data documents
use, which differ in the sign of a positive exponent and in the spelling of infinity.
-/
set_option autoImplicit false

namespace DesignParams

/-- The number `digits * 10 ^ exponent`. -/
structure Decimal where
  digits : Nat
  exponent : Int
deriving DecidableEq, Repr

namespace Decimal

/-- The power of ten of the leading digit of a positive count of units. -/
def leading (units : Nat) : Int :=
  ((Text.ofNat (units * Nat.pow 10 340 / Binary64.one)).length : Int) - 341

/-- The two multiples of a power of ten around a count of units, the nearer first. -/
def neighbours (units : Nat) (exponent : Int) : List Nat :=
  let num := if exponent < 0 then units * Nat.pow 10 (-exponent).toNat else units
  let den := if exponent < 0 then Binary64.one else Binary64.one * Nat.pow 10 exponent.toNat
  let low := num / den
  if Binary64.roundDiv num den = low then [low, low + 1] else [low + 1, low]

/-- The nearest decimal with `count` digits that reads back as the number, if there is one. -/
def withDigits? (units count : Nat) : Option Decimal :=
  let exponent := leading units - count + 1
  let readsBack (digits : Nat) : Bool :=
    Binary64.ofDecimal false digits exponent == .finite false units
  ((neighbours units exponent).find? readsBack).map (⟨·, exponent⟩)

def normalized (d : Decimal) : Decimal :=
  if h : d.digits ≠ 0 ∧ d.digits % 10 = 0 then normalized ⟨d.digits / 10, d.exponent + 1⟩ else d
termination_by d.digits
decreasing_by omega

/-- The shortest decimal that reads back as a positive count of units. Seventeen digits always
suffice. -/
def shortest (units : Nat) : Decimal :=
  if units = 0 then ⟨0, 0⟩
  else
    match (List.range 17).findSome? fun i => withDigits? units (i + 1) with
    | some d => normalized d
    | none => ⟨0, 0⟩

def scale (d : Decimal) : Int :=
  (Text.ofNat d.digits).length + d.exponent - 1

def positional (d : Decimal) : Text × Text :=
  let digits := Text.ofNat d.digits
  if 0 ≤ d.exponent then (digits ++ Text.repeated '0' d.exponent.toNat, [])
  else
    let places := (-d.exponent).toNat
    if places < digits.length then digits.splitAt (digits.length - places)
    else (['0'], Text.repeated '0' (places - digits.length) ++ digits)

def scientific (plus : Bool) (d : Decimal) : Text :=
  let mantissa :=
    match Text.ofNat d.digits with
    | [] => []
    | [first] => [first]
    | first :: rest => first :: '.' :: rest
  let sign := if plus ∧ 0 < scale d then ['+'] else []
  mantissa ++ ['e'] ++ sign ++ Text.ofInt (scale d)

end Decimal

structure NumberLayout where
  /-- A positive exponent carries a sign. -/
  plus : Bool
  /-- The spelling of infinity, behind a possible minus sign. -/
  infinity : Text
  /-- The minus sign is kept before infinity. -/
  signedInfinity : Bool

namespace Binary64

def signed (negative : Bool) (s : Text) : Text :=
  if negative then '-' :: s else s

/-- The positional form, never with an exponent, and without a point for a whole number. -/
def plain : Binary64 → Text
  | .infinite negative => signed negative "inf".toList
  | .finite negative units =>
    let (whole, fraction) := (Decimal.shortest units).positional
    signed negative (if fraction.isEmpty then whole else whole ++ '.' :: fraction)

/-- The form with a point or an exponent: positional when the leading digit stands for a power of
ten from -5 to 15, scientific otherwise. -/
def write (layout : NumberLayout) : Binary64 → Text
  | .infinite negative => signed (negative && layout.signedInfinity) layout.infinity
  | .finite negative units =>
    let d := Decimal.shortest units
    if d.digits = 0 ∨ (-5 ≤ d.scale ∧ d.scale ≤ 15) then
      let (whole, fraction) := d.positional
      signed negative (whole ++ '.' :: (if fraction.isEmpty then ['0'] else fraction))
    else signed negative (Decimal.scientific layout.plus d)

end Binary64

end DesignParams
