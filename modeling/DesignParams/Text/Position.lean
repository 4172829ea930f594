import DesignParams.Text.Basic

/-!
# Lines and columns

A line index holds the byte offset at which each line starts. A byte offset lies in the last line
that starts at or before it; lines and columns count from one, columns in bytes.
-/
set_option autoImplicit false

namespace DesignParams

structure Position where
  line : Nat
  column : Nat
deriving DecidableEq, Repr

/-- The offsets at which lines start, the first of them apart. -/
structure LineIndex where
  later : List Nat
deriving DecidableEq, Repr

namespace LineIndex

def startsFrom : Nat → Text → List Nat
  | _, [] => []
  | offset, c :: s =>
    let next := offset + c.utf8Size
    if c = '\n' then next :: startsFrom next s else startsFrom next s

def ofText (s : Text) : LineIndex :=
  ⟨startsFrom 0 s⟩

/-- Walks past the lines that start at or before the offset. -/
def locateFrom (offset line start : Nat) : List Nat → Position
  | [] => ⟨line, offset - start + 1⟩
  | next :: later =>
    if next ≤ offset then locateFrom offset (line + 1) next later else ⟨line, offset - start + 1⟩

def locate (index : LineIndex) (offset : Nat) : Position :=
  locateFrom offset 1 0 index.later

end LineIndex

end DesignParams
