import DesignParams.Number.Binary64
import DesignParams.Text.Case

/-!
# Plain YAML scalars

A scalar without quotes is null, a truth value, an integer, a number, or else a text. Integers are
decimal, without leading zeros, or have one of the marks `0x`, `0o` and `0b`.
-/
set_option autoImplicit false

namespace DesignParams

namespace Yaml

def isNull (s : Text) : Bool :=
  ["".toList, "null".toList, "Null".toList, "NULL".toList, "~".toList].contains s

def isTrue (s : Text) : Bool :=
  ["true".toList, "True".toList, "TRUE".toList].contains s

def isFalse (s : Text) : Bool :=
  ["false".toList, "False".toList, "FALSE".toList].contains s

def isSign (c : Char) : Bool :=
  c = '+' || c = '-'

def withoutPlus : Text → Text
  | '+' :: s => s
  | s => s

/-- Decimal digits that begin with a zero, behind a sign or none: they are no number. -/
def isZeroLed (s : Text) : Bool :=
  let digits := if s.head?.any isSign then s.drop 1 else s
  1 < digits.length && digits.head? = some '0' && digits.all isAsciiDigit

/-! ## Integers -/

def digits? (radix : Nat) (s : Text) : Option Nat :=
  if !s.isEmpty && s.all fun c => isHexDigit c && hexValue c < radix then
    some (s.foldl (fun n c => radix * n + hexValue c) 0)
  else none

def marked? (s : Text) : Option Nat :=
  [("0x".toList, 16), ("0o".toList, 8), ("0b".toList, 2)].findSome? fun (mark, radix) =>
    (Text.after? mark s).bind (digits? radix)

def natural? (limit : Nat) (s : Text) : Option Nat :=
  let inRange (n : Nat) : Option Nat := if n ≤ limit then some n else none
  let unsigned := withoutPlus s
  match (marked? unsigned).bind inRange with
  | some n => some n
  | none => if isZeroLed s then none else (digits? 10 unsigned).bind inRange

def negative? (limit : Nat) : Text → Option Nat
  | '-' :: s =>
    let inRange (n : Nat) : Option Nat := if n ≤ limit then some n else none
    match (marked? s).bind inRange with
    | some n => some n
    | none => if isZeroLed s then none else (digits? 10 s).bind inRange
  | _ => none

def isInteger (s : Text) : Bool :=
  (natural? (Nat.pow 2 128 - 1) s).isSome || (negative? (Nat.pow 2 127) s).isSome

/-! ## Numbers -/

def exponent? : Text → Option Int
  | [] => some 0
  | c :: s =>
    if c = 'e' ∨ c = 'E' then
      match s with
      | '-' :: t => (digits? 10 t).map fun n => -(n : Int)
      | t => (digits? 10 (withoutPlus t)).map fun n => (n : Int)
    else none

/-- A decimal number without a sign; there are digits before or behind its point. -/
def decimal? (s : Text) : Option Binary64 :=
  let whole := s.takeWhile isAsciiDigit
  let rest := s.dropWhile isAsciiDigit
  let (fraction, rest) :=
    match rest with
    | '.' :: t => (t.takeWhile isAsciiDigit, t.dropWhile isAsciiDigit)
    | t => ([], t)
  match digits? 10 (whole ++ fraction), exponent? rest with
  | some digits, some exponent => some (.ofDecimal false digits (exponent - fraction.length))
  | _, _ => none

def isFinite : Binary64 → Bool
  | .finite _ _ => true
  | .infinite _ => false

def isNumber (s : Text) : Bool :=
  let unsigned := withoutPlus s
  let signed := unsigned.length < s.length && unsigned.head?.any isSign
  let bare := if unsigned.head? = some '-' then unsigned.drop 1 else unsigned
  !signed &&
    ([".inf".toList, ".Inf".toList, ".INF".toList].contains unsigned ||
      ["-.inf".toList, "-.Inf".toList, "-.INF".toList].contains s ||
      [".nan".toList, ".NaN".toList, ".NAN".toList].contains s ||
      (decimal? bare).any isFinite)

/-- Would the text, without quotes, be read as something else than this text? -/
def isAmbiguous (s : Text) : Bool :=
  isNull s || isTrue s || isFalse s || isInteger s || isZeroLed s || isNumber s

end Yaml

end DesignParams
