import DesignParams.Text.Basic

/-!
# Lines

Two notions of a line: one that keeps its end, which is a line feed, a carriage return or both in
that order; and one that drops it, where only a line feed, or a carriage return and a line feed,
end a line.
-/
set_option autoImplicit false

namespace DesignParams

namespace Text

/-- The lines of a text with their ends. No line is empty. -/
def linesWithEnds : Text → List Text
  | [] => []
  | '\r' :: '\n' :: s => ['\r', '\n'] :: linesWithEnds s
  | c :: s =>
    if c = '\n' ∨ c = '\r' then [c] :: linesWithEnds s
    else
      match linesWithEnds s with
      | line :: lines => (c :: line) :: lines
      | [] => [[c]]

def isEnded (line : Text) : Bool :=
  line.getLast?.any fun c => c = '\n' || c = '\r'

def withoutReturn (line : Text) : Text :=
  if line.getLast? = some '\r' then line.dropLast else line

def lines (s : Text) : List Text :=
  let parts := splitOn '\n' s
  let ended := (parts.dropLast).map withoutReturn
  match parts.getLast? with
  | none | some [] => ended
  | some last => ended ++ [last]

end Text

end DesignParams
