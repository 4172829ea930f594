import DesignParams.Text.Case

/-!
# Characters in YAML
-/
set_option autoImplicit false

namespace DesignParams

namespace Yaml

def isBreak (c : Char) : Bool :=
  c = '\n' || c = '\r' || c = '\u0085' || c = '\u2028' || c = '\u2029'

def isSpaceOrTab (c : Char) : Bool :=
  c = ' ' || c = '\t'

def isGap (c : Char) : Bool :=
  isSpaceOrTab c || c = '\x00' || isBreak c

def atGap (s : Text) : Bool :=
  s.head?.all isGap

def isPrintable (c : Char) : Bool :=
  let n := c.toNat
  n = 10 || (32 ≤ n && n ≤ 126) || (0xA0 ≤ n && n ≤ 0xFFFD && n ≠ 0xFEFF) || 0x10000 ≤ n

def isReadable (c : Char) : Bool :=
  isPrintable c || c = '\t' || c = '\r' || c = '\u0085' || c = '\uFEFF'

def isNameChar (c : Char) : Bool :=
  isAsciiLetter c || isAsciiDigit c || c = '_' || c = '-'

def dropBreak : Text → Text
  | '\r' :: '\n' :: s => s
  | c :: s => if isBreak c then s else c :: s
  | [] => []

/-- The line breaks in a text, with one character for each: a line feed, or one of the two
separators that stand for themselves. -/
def breaksIn : Text → Text
  | [] => []
  | '\r' :: '\n' :: s => '\n' :: breaksIn s
  | c :: s =>
    if c = '\n' ∨ c = '\r' ∨ c = '\u0085' then '\n' :: breaksIn s
    else if isBreak c then c :: breaksIn s
    else breaksIn s

def columnAfter : Nat → Text → Nat
  | column, [] => column
  | column, c :: s => if isBreak c then columnAfter 0 s else columnAfter (column + 1) s

def startsLikeDocument (s : Text) : Bool :=
  ["---".toList, "...".toList].any fun mark =>
    match Text.after? mark s with
    | some rest => atGap rest
    | none => false

end Yaml

end DesignParams
