import DesignParams.Theme.Lexical

/-!
# Entries of an object literal

Object and array literals are sliced without being evaluated: brackets, commas and colons count
only where they are code.
-/
set_option autoImplicit false

namespace DesignParams

namespace Theme

/-- The characters up to the brace that closes the open ones, and how many there are. -/
def closingBrace? : Nat → List Marked → Option Nat
  | _, [] => none
  | depth, m :: rest =>
    if m.isCode '\x7D' ∧ depth ≤ 1 then some 0
    else
      let next :=
        if m.isCode '\x7B' then depth + 1 else if m.isCode '\x7D' then depth - 1 else depth
      (closingBrace? next rest).map (· + 1)

/-- The body of the block that a text begins with, and the rest behind its closing brace. -/
def bracedBlock? (s : Text) : Option (Text × Text) :=
  match s with
  | '\x7B' :: tail =>
    (closingBrace? 1 (Marked.ofText tail)).map fun n => (tail.take n, tail.drop (n + 1))
  | _ => none

def bracedBlockAt? (source : Text) (offset : Nat) : Option (Text × Nat) :=
  match Text.splitAt? offset source with
  | none => none
  | some (_, rest) =>
    (bracedBlock? rest).map fun (body, _) => (body, offset + 1 + Text.byteLength body)

/-- How deep a character of code leads. Unbalanced closers lead below the top. -/
def nest (depth : Int) (c : Char) : Int :=
  if c = '\x7B' ∨ c = '[' ∨ c = '(' then depth + 1
  else if c = '\x7D' ∨ c = ']' ∨ c = ')' then depth - 1
  else depth

/-- Replaces each run of comment characters by one space, which counts as code. -/
def blankComments : Bool → List Marked → List Marked
  | _, [] => []
  | inComment, m :: rest =>
    if m.cls = .comment then
      if inComment then blankComments true rest else ⟨' ', .code⟩ :: blankComments true rest
    else m :: blankComments false rest

/-- The parts between the commas outside all brackets; `part` is the current one in reverse. -/
def partsFrom : Int → Text → List Marked → List Text
  | _, part, [] => [part.reverse]
  | depth, part, m :: rest =>
    if m.cls = .code then
      if m.char = ',' ∧ depth = 0 then part.reverse :: partsFrom depth [] rest
      else partsFrom (nest depth m.char) (m.char :: part) rest
    else partsFrom depth (m.char :: part) rest

/-- The entries of a list: its parts without comments, trimmed, the empty ones left out. -/
def splitTopLevel (source : Text) : List Text :=
  ((partsFrom 0 [] (blankComments false (Marked.ofText source))).map Text.trim).filter (!·.isEmpty)

def topColon? : Int → List Marked → Option Nat
  | _, [] => none
  | depth, m :: rest =>
    if m.isCode ':' ∧ depth = 0 then some 0
    else (topColon? (if m.cls = .code then nest depth m.char else depth) rest).map (· + 1)

def splitKeyValue? (entry : Text) : Option (Text × Text) :=
  match topColon? 0 (Marked.ofText entry) with
  | none => none
  | some n =>
    let key := Text.trim (entry.take n)
    let value := Text.trim (entry.drop (n + 1))
    if key.isEmpty ∨ value.isEmpty then none else some (Text.unquoted key, value)

def arrayFirst? (value : Text) : Option Text :=
  match Text.trim value with
  | '[' :: tail =>
    match tail.reverse.dropWhile (· ≠ ']') with
    | [] => none
    | _ :: inner => (splitTopLevel inner.reverse).head?.map Text.unquoted
  | _ => none

/-- The literal that stands for an entry: the first element of an array, or the unquoted value. -/
def representative? (raw : Text) : Option Text :=
  let value := if raw.head? = some '[' then arrayFirst? raw else some (Text.unquoted raw)
  value.filter (!·.isEmpty)

end Theme

end DesignParams
