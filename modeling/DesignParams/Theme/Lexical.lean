import DesignParams.Text.Quoted

/-!
# Code, strings and comments

Every character of a script is code, part of a string or part of a comment. Strings stand between
equal quotes, a backslash in them escapes the next character; comments run from `//` through the
line feed or from `/*` through `*/`. Neither needs to be closed.
-/
set_option autoImplicit false

namespace DesignParams

inductive CharClass where
  | code
  | string
  | comment
deriving DecidableEq, Repr

structure Marked where
  char : Char
  cls : CharClass
deriving DecidableEq, Repr

namespace Marked

inductive State where
  | code
  | inString (quote : Char)
  | escaped (quote : Char)
  | inLine
  | inBlock
deriving DecidableEq, Repr

/-- Classifies the characters that follow in a state. The two characters of a comment marker are
read together, so the star of `/*` never closes the comment. -/
def scan : State → Text → List Marked
  | _, [] => []
  | .code, '/' :: '/' :: s => ⟨'/', .comment⟩ :: ⟨'/', .comment⟩ :: scan .inLine s
  | .code, '/' :: '*' :: s => ⟨'/', .comment⟩ :: ⟨'*', .comment⟩ :: scan .inBlock s
  | .code, c :: s =>
    if isQuote c then ⟨c, .string⟩ :: scan (.inString c) s else ⟨c, .code⟩ :: scan .code s
  | .inString quote, c :: s =>
    let next : State := if c = '\\' then .escaped quote else if c = quote then .code else .inString quote
    ⟨c, .string⟩ :: scan next s
  | .escaped quote, c :: s => ⟨c, .string⟩ :: scan (.inString quote) s
  | .inLine, c :: s => ⟨c, .comment⟩ :: scan (if c = '\n' then .code else .inLine) s
  | .inBlock, '*' :: '/' :: s => ⟨'*', .comment⟩ :: ⟨'/', .comment⟩ :: scan .code s
  | .inBlock, c :: s => ⟨c, .comment⟩ :: scan .inBlock s

def ofText (s : Text) : List Marked :=
  scan .code s

def toText (marked : List Marked) : Text :=
  marked.map (·.char)

structure Placed extends Marked where
  offset : Nat
deriving DecidableEq, Repr

def placeFrom : Nat → List Marked → List Placed
  | _, [] => []
  | offset, m :: marked => ⟨m, offset⟩ :: placeFrom (offset + m.char.utf8Size) marked

def placed (s : Text) : List Placed :=
  placeFrom 0 (ofText s)

def isCode (m : Marked) (c : Char) : Bool :=
  m.cls = .code && m.char = c

/-- Nothing is lost. -/
theorem toText_scan (state : State) (s : Text) : toText (scan state s) = s := by
  fun_induction scan state s <;> simp_all [toText]

end Marked

end DesignParams
