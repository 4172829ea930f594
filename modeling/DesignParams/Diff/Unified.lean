import DesignParams.Diff.Compact
import DesignParams.Text.Lines

/-!
# Unified diffs

A diff shows each group of changes with three unchanged lines around it. Changes with no more than
six unchanged lines between them belong to one group.
-/
set_option autoImplicit false

namespace DesignParams

namespace Diff

def context : Nat := 3

def edits (old new : Text) : List Edit :=
  compactScript (Text.linesWithEnds old) (Text.linesWithEnds new)

def insertedLines (edits : List Edit) : Nat :=
  ((edits.filter (·.kind ≠ .equal)).map (·.newCount)).foldl Nat.add 0

def deletedLines (edits : List Edit) : Nat :=
  ((edits.filter (·.kind ≠ .equal)).map (·.oldCount)).foldl Nat.add 0

/-! ## Hunks -/

def Edit.lastLines (count : Nat) (e : Edit) : Edit :=
  let dropped := e.oldCount - count
  (e.shiftDown dropped).shorten dropped

def Edit.firstLines (count : Nat) (e : Edit) : Edit :=
  e.shorten (e.oldCount - count)

def shortenFirst : List Edit → List Edit
  | e :: rest => (if e.kind = .equal then e.lastLines context else e) :: rest
  | [] => []

def shortenLast : List Edit → List Edit
  | [] => []
  | [e] => [if e.kind = .equal then e.firstLines context else e]
  | e :: rest => e :: shortenLast rest

/-- Splits edits at long ranges of equal lines; `pending` holds the edits of the group so far. -/
def groupsFrom (pending : List Edit) : List Edit → List (List Edit)
  | [] => [pending]
  | e :: rest =>
    if e.kind = .equal ∧ 2 * context < e.oldCount then
      (pending ++ [e.firstLines context]) :: groupsFrom [e.lastLines context] rest
    else groupsFrom (pending ++ [e]) rest

/-- The groups of edits; equal lines alone at the end are no group. -/
def groups (edits : List Edit) : List (List Edit) :=
  let all := groupsFrom [] (shortenLast (shortenFirst edits))
  match all.getLast? with
  | some [] => all.dropLast
  | some [e] => if e.kind = .equal then all.dropLast else all
  | _ => all

/-! ## Text -/

/-- A range of lines: the number of the first, and their count unless it is one. An empty range
begins at the line before it. -/
def rangeText (start stop : Nat) : Text :=
  let count := stop - start
  if count = 1 then Text.ofNat (start + 1)
  else
    Text.ofNat (if count = 0 then start else start + 1) ++ ',' :: Text.ofNat count

def hunkHeader (group : List Edit) : Text :=
  match group.head?, group.getLast? with
  | some first, some last =>
    "@@ -".toList ++ rangeText first.oldStart last.oldStop ++ " +".toList ++
      rangeText first.newStart last.newStop ++ " @@\n".toList
  | _, _ => []

def lineText (mark : Char) (line : Text) : Text :=
  mark :: line ++ if Text.isEnded line then [] else "\n\\ No newline at end of file\n".toList

def editText (sides : Sides) (e : Edit) : Text :=
  match e.kind with
  | .equal => (sides.oldLines e).flatMap (lineText ' ')
  | _ => (sides.oldLines e).flatMap (lineText '-') ++ (sides.newLines e).flatMap (lineText '+')

def hunkText (sides : Sides) (group : List Edit) : Text :=
  hunkHeader group ++ group.flatMap (editText sides)

def unified (old new path : Text) : Text :=
  if old = new then []
  else
    let sides : Sides := ⟨Text.linesWithEnds old, Text.linesWithEnds new⟩
    "--- a/".toList ++ path ++ "\n+++ b/".toList ++ path ++ '\n' ::
      (groups (edits old new)).flatMap (hunkText sides)

end Diff

end DesignParams
