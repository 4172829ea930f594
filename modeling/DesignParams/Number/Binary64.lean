import DesignParams.Text.Basic

/-!
# Binary64 numbers

A finite number is a sign and a whole count of units of `2 ^ -1074`, the least positive binary64
number, so every operation is exact arithmetic on naturals followed by one rounding. There is no
NaN: no operation here can produce one.
-/
set_option autoImplicit false

namespace DesignParams

inductive Binary64 where
  | finite (negative : Bool) (units : Nat)
  | infinite (negative : Bool)
deriving DecidableEq, Repr

namespace Binary64

def one : Nat :=
  Nat.pow 2 1074

/-- The least count of units that is out of range, `2 ^ 1024`. -/
def limit : Nat :=
  Nat.pow 2 2098

/-- The quotient rounded to the nearest whole number, a half going to the even neighbour. -/
def roundDiv (num den : Nat) : Nat :=
  let q := num / den
  let r := num % den
  if 2 * r < den then q
  else if den < 2 * r then q + 1
  else if q % 2 = 0 then q else q + 1

/-- The units nearest to a quotient of units, with at most 53 significant bits. -/
def roundUnits (num den : Nat) : Nat :=
  let excess := Nat.log2 (num / den) - 52
  roundDiv num (den * Nat.pow 2 excess) * Nat.pow 2 excess

def ofUnits (negative : Bool) (units : Nat) : Binary64 :=
  if units < limit then .finite negative units else .infinite negative

def ofRatio (negative : Bool) (num den : Nat) : Binary64 :=
  ofUnits negative (roundUnits (num * one) den)

/-- The number nearest to `digits * 10 ^ exponent`. Exponents far out of range are decided by
the count of digits alone, before any power of ten is formed. -/
def ofDecimal (negative : Bool) (digits : Nat) (exponent : Int) : Binary64 :=
  let magnitude := (Text.ofNat digits).length + exponent
  if digits = 0 ∨ magnitude < -330 then .finite negative 0
  else if 310 < magnitude then .infinite negative
  else if 0 ≤ exponent then ofRatio negative (digits * Nat.pow 10 exponent.toNat) 1
  else ofRatio negative digits (Nat.pow 10 (-exponent).toNat)

def ofNat (n : Nat) : Binary64 :=
  ofRatio false n 1

def ofInt : Int → Binary64
  | .ofNat n => ofRatio false n 1
  | .negSucc n => ofRatio true (n + 1) 1

/-- The whole number that a number is, if its magnitude is below `10 ^ 15`. -/
def smallInt? : Binary64 → Option Int
  | .finite negative units =>
    if units % one = 0 ∧ units / one < Nat.pow 10 15 then
      some (if negative then -(units / one : Nat) else (units / one : Nat))
    else none
  | .infinite _ => none

end Binary64

end DesignParams
