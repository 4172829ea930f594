import DesignParams.Number.Binary64
import DesignParams.Text.Blank
import DesignParams.Text.Case

/-!
# Numeric literals

A numeric literal is an optional minus sign, ASCII digits with at most one point that a digit
follows, and a possibly empty unit of ASCII letters and percent signs.
-/
set_option autoImplicit false

namespace DesignParams

structure Quantity where
  number : Binary64
  unit : Text
deriving DecidableEq, Repr

namespace Quantity

def isUnitChar (c : Char) : Bool :=
  isAsciiLetter c || c = '%'

def digitsValue (s : Text) : Nat :=
  s.foldl (fun n c => 10 * n + (c.toNat - 48)) 0

def unsigned? (s : Text) : Option (Text × Text × Text) :=
  let whole := s.takeWhile isAsciiDigit
  let rest := s.dropWhile isAsciiDigit
  match rest with
  | '.' :: tail =>
    let fraction := tail.takeWhile isAsciiDigit
    if fraction.isEmpty then none else some (whole, fraction, tail.dropWhile isAsciiDigit)
  | _ => if whole.isEmpty then none else some (whole, [], rest)

/-- Reads a whole text, white space around it apart, as a numeric literal. -/
def parse? (s : Text) : Option Quantity :=
  let trimmed := Text.trim s
  let negative := trimmed.head? = some '-'
  match unsigned? (if negative then trimmed.drop 1 else trimmed) with
  | none => none
  | some (whole, fraction, unit) =>
    if unit.all isUnitChar then
      some ⟨Binary64.ofDecimal negative (digitsValue (whole ++ fraction)) (-(fraction.length : Int)), unit⟩
    else none

end Quantity

end DesignParams
