import DesignParams.Text.Basic

/-!
# Letter case

Two ways of disregarding case: over ASCII alone, and by simple case folding, which differs from
the first for ASCII patterns only in that `K` (U+212A) folds to `k` and `ſ` (U+017F) to `s`.
-/
set_option autoImplicit false

namespace DesignParams

def asciiLower (c : Char) : Char :=
  if 'A' ≤ c ∧ c ≤ 'Z' then Char.ofNat (c.toNat + 32) else c

def isAsciiLetter (c : Char) : Bool :=
  ('a' ≤ c && c ≤ 'z') || ('A' ≤ c && c ≤ 'Z')

def isAsciiDigit (c : Char) : Bool :=
  '0' ≤ c && c ≤ '9'

def isHexDigit (c : Char) : Bool :=
  isAsciiDigit c || ('a' ≤ c && c ≤ 'f') || ('A' ≤ c && c ≤ 'F')

def hexValue (c : Char) : Nat :=
  if isAsciiDigit c then c.toNat - 48
  else if 'a' ≤ c ∧ c ≤ 'f' then c.toNat - 87
  else if 'A' ≤ c ∧ c ≤ 'F' then c.toNat - 55
  else 0

/-- The simple case folding of every character that folds to an ASCII one. -/
def foldCase (c : Char) : Char :=
  if c = '\u212A' then 'k' else if c = '\u017F' then 's' else asciiLower c

namespace Text

def asciiLowered (s : Text) : Text :=
  s.map asciiLower

def eqIgnoringCase (s t : Text) : Bool :=
  asciiLowered s == asciiLowered t

/-- What follows a lower-case ASCII `lead` in a text that begins with it up to case folding. -/
def afterFolded? : Text → Text → Option Text
  | [], s => some s
  | _ :: _, [] => none
  | a :: lead, b :: s => if a = foldCase b then afterFolded? lead s else none

def startsWithFolded (s lead : Text) : Bool :=
  (afterFolded? lead s).isSome

def containsFolded (needle : Text) : Text → Bool
  | [] => needle.isEmpty
  | c :: s => startsWithFolded (c :: s) needle || containsFolded needle s

end Text

end DesignParams
