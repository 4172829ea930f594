import DesignParams.Diff.Edit

/-!
# Compacting edit scripts

Insertions are shifted up and then down past equal lines as far as they fit, and changes that come
to touch are merged. A deletion moves only past insertions that touch it. At last each deletion
joins the insertion behind it.
-/
set_option autoImplicit false

namespace DesignParams

namespace Diff

namespace Edit

def shiftUp (count : Nat) (e : Edit) : Edit :=
  { e with oldStart := e.oldStart - count, newStart := e.newStart - count }

def shiftDown (count : Nat) (e : Edit) : Edit :=
  { e with oldStart := e.oldStart + count, newStart := e.newStart + count }

def lengthen (count : Nat) (e : Edit) : Edit :=
  { e with oldCount := e.oldCount + count, newCount := e.newCount + count }

def shorten (count : Nat) (e : Edit) : Edit :=
  { e with oldCount := e.oldCount - count, newCount := e.newCount - count }

def absorb (e next : Edit) : Edit :=
  { e with oldCount := e.oldCount + next.oldCount, newCount := e.newCount + next.newCount }

end Edit

structure Sides where
  old : List Text
  new : List Text

namespace Sides

def oldLines (s : Sides) (e : Edit) : List Text :=
  (s.old.drop e.oldStart).take e.oldCount

def newLines (s : Sides) (e : Edit) : List Text :=
  (s.new.drop e.newStart).take e.newCount

end Sides

/-- A change in its place: the edits before it, the last one first, and the edits behind it. -/
structure Focus where
  before : List Edit
  edit : Edit
  behind : List Edit

def prependEqual (lines : Edit) : List Edit → List Edit
  | next :: rest =>
    if next.kind = .equal then (next.shiftUp lines.oldCount).lengthen lines.oldCount :: rest
    else lines :: next :: rest
  | [] => [lines]

/-- Adds equal lines behind edits, the last of which comes first. -/
def appendEqual (lines : Edit) : List Edit → List Edit
  | last :: rest =>
    if last.kind = .equal then last.lengthen lines.oldCount :: rest else lines :: last :: rest
  | [] => [lines]

def dropEmpty : List Edit → List Edit
  | e :: rest => if e.oldCount = 0 ∧ e.newCount = 0 then rest else e :: rest
  | [] => []

def weight : List Edit → Nat
  | [] => 0
  | e :: rest => e.oldCount + e.newCount + 1 + weight rest

theorem weight_dropEmpty (edits : List Edit) : weight (dropEmpty edits) ≤ weight edits := by
  match edits with
  | [] => exact Nat.le_refl _
  | e :: rest =>
    by_cases h : e.oldCount = 0 ∧ e.newCount = 0
    · simp only [dropEmpty, if_pos h, weight]
      omega
    · simp only [dropEmpty, if_neg h, Nat.le_refl]

theorem weight_shorten {count : Nat} {e : Edit} {rest : List Edit} (hPos : 0 < count)
    (hFits : count ≤ e.oldCount) :
    weight (dropEmpty (e.shorten count :: rest)) < weight (e :: rest) := by
  have h := weight_dropEmpty (e.shorten count :: rest)
  simp only [weight, Edit.shorten] at h ⊢
  omega

/-- How many lines the change can be shifted up past the equal lines before it. -/
def fitAbove (sides : Sides) (change lines : Edit) : Nat :=
  min lines.oldCount (commonEndLength (sides.oldLines lines) (sides.newLines change))

def fitBelow (sides : Sides) (change lines : Edit) : Nat :=
  min lines.oldCount (commonLength (sides.oldLines lines) (sides.newLines change))

def moveUp (sides : Sides) (before : List Edit) (edit : Edit) (behind : List Edit) : Focus :=
  match before with
  | [] => ⟨[], edit, behind⟩
  | previous :: rest =>
    if previous.kind = .equal then
      let count := fitAbove sides edit previous
      if 0 < count then
        let passed :=
          Edit.equal (previous.oldStop - count) (edit.newStop - count) count
        moveUp sides (dropEmpty (previous.shorten count :: rest)) (edit.shiftUp count)
          (prependEqual passed behind)
      else ⟨previous :: rest, edit, behind⟩
    else if previous.kind = edit.kind then moveUp sides rest (previous.absorb edit) behind
    else moveUp sides rest edit (previous :: behind)
termination_by weight before
decreasing_by
  · exact weight_shorten ‹_› (Nat.min_le_left _ _)
  · simp only [weight]
    omega
  · simp only [weight]
    omega

def moveDown (sides : Sides) (before : List Edit) (edit : Edit) (behind : List Edit) : Focus :=
  match behind with
  | [] => ⟨before, edit, []⟩
  | next :: rest =>
    if next.kind = .equal then
      let count := fitBelow sides edit next
      if 0 < count then
        let passed := Edit.equal next.oldStart edit.newStart count
        moveDown sides (appendEqual passed before) (edit.shiftDown count)
          (dropEmpty ((next.shiftDown count).shorten count :: rest))
      else ⟨before, edit, next :: rest⟩
    else if next.kind = edit.kind then moveDown sides before (edit.absorb next) rest
    else moveDown sides (next :: before) edit rest
termination_by weight behind
decreasing_by
  · exact weight_shorten (e := next.shiftDown count) ‹_› (Nat.min_le_left _ _)
  · simp only [weight]
    omega
  · simp only [weight]
    omega

/-- Moves every change of one kind, from the first to the last. Each round goes one edit further,
or has merged changes before; so there are no more rounds than the square of their number. -/
def moveAll (sides : Sides) (kind : EditKind) : Nat → List Edit → List Edit → List Edit
  | 0, before, behind => before.reverse ++ behind
  | _ + 1, before, [] => before.reverse
  | rounds + 1, before, edit :: behind =>
    if edit.kind = kind then
      let up := moveUp sides before edit behind
      let down := moveDown sides up.before up.edit up.behind
      moveAll sides kind rounds (down.edit :: down.before) down.behind
    else moveAll sides kind rounds (edit :: before) behind

def compactKind (sides : Sides) (kind : EditKind) (edits : List Edit) : List Edit :=
  moveAll sides kind (4 * (edits.length + 1) * (edits.length + 1)) [] edits

/-- Joins equal lines that touch, and the changes between equal lines. -/
def joined : List Edit → List Edit
  | [] => []
  | e :: rest =>
    match joined rest with
    | [] => [e]
    | next :: more =>
      if (e.kind = .equal) = (next.kind = .equal) then
        if e.kind = next.kind then e.absorb next :: more else join e next :: more
      else e :: next :: more
where
  /-- A deletion and an insertion, in either order, or one that is joined already. -/
  join (e next : Edit) : Edit :=
    let oldFirst := if e.kind = .insert then next else e
    let newFirst := if e.kind = .delete then next else e
    ⟨.replace, oldFirst.oldStart, e.oldCount + next.oldCount, newFirst.newStart,
      e.newCount + next.newCount⟩

def compactScript (old new : List Text) : List Edit :=
  let sides : Sides := ⟨old, new⟩
  joined (compactKind sides .insert (compactKind sides .delete (script old new)))

end Diff

end DesignParams
