import DesignParams.Text.Basic

/-!
# Edit scripts

A script turns the lines of an old text into those of a new one. A shortest one is found by a
search for the middle of a path from both ends; the search goes on in the halves before and behind
the middle. A point of a path counts the old and the new lines that are done.
-/
set_option autoImplicit false

namespace DesignParams

namespace Diff

inductive EditKind where
  | equal
  | delete
  | insert
  /-- A deletion and an insertion in the same place. -/
  | replace
deriving DecidableEq, Repr

/-- One edit: a range of old lines that gives way to a range of new ones. -/
structure Edit where
  kind : EditKind
  oldStart : Nat
  oldCount : Nat
  newStart : Nat
  newCount : Nat
deriving DecidableEq, Repr

namespace Edit

def oldStop (e : Edit) : Nat :=
  e.oldStart + e.oldCount

def newStop (e : Edit) : Nat :=
  e.newStart + e.newCount

def equal (oldStart newStart count : Nat) : Edit :=
  ⟨.equal, oldStart, count, newStart, count⟩

def delete (oldStart count newStart : Nat) : Edit :=
  ⟨.delete, oldStart, count, newStart, 0⟩

def insert (oldStart newStart count : Nat) : Edit :=
  ⟨.insert, oldStart, 0, newStart, count⟩

end Edit

def commonLength {α : Type} [DecidableEq α] : List α → List α → Nat
  | a :: as, b :: bs => if a = b then commonLength as bs + 1 else 0
  | _, _ => 0

def commonEndLength {α : Type} [DecidableEq α] (as bs : List α) : Nat :=
  commonLength as.reverse bs.reverse

/-! ## The middle of a path -/

structure Point where
  old : Nat
  new : Nat
deriving DecidableEq, Repr, Inhabited

/-- The diagonal of a point; equal lines lead along it. -/
def Point.diagonal (p : Point) : Int :=
  (p.old : Int) - p.new

structure Board where
  old : Array Text
  new : Array Text

namespace Board

def reversed (b : Board) : Board :=
  ⟨b.old.reverse, b.new.reverse⟩

def isEqualAt (b : Board) (p : Point) : Bool :=
  match b.old[p.old]?, b.new[p.new]? with
  | some s, some t => s == t
  | _, _ => false

/-- Follows equal lines, at most `limit` of them. -/
def slide (b : Board) : Nat → Point → Point
  | 0, p => p
  | limit + 1, p => if b.isEqualAt p then b.slide limit ⟨p.old + 1, p.new + 1⟩ else p

end Board

/-- The furthest points that some number of edits leads to: entry `i` is on the diagonal
`edits - 2 * i`. -/
structure Frontier where
  edits : Nat
  reach : Array Point

namespace Frontier

def at? (f : Frontier) (diagonal : Int) : Option Point :=
  if diagonal.natAbs ≤ f.edits ∧ (f.edits - diagonal) % 2 = 0 then
    f.reach[((f.edits - diagonal) / 2).toNat]?
  else none

/-- Where the next edit leads to on its diagonal: an insertion after the point above or a deletion
after the point below, whichever leaves fewer old lines. -/
def step : Option Point → Option Point → Point
  | none, none => ⟨0, 0⟩
  | some above, none => ⟨above.old, above.new + 1⟩
  | none, some below => ⟨below.old + 1, below.new⟩
  | some above, some below =>
    if below.old < above.old then ⟨above.old, above.new + 1⟩ else ⟨below.old + 1, below.new⟩

/-- The points that one more edit leads to, from the highest diagonal down, before equal lines are
followed. -/
def starts (f : Frontier) : List Point :=
  (List.range (f.edits + 2)).map fun i =>
    step (if i = 0 then none else f.reach[i - 1]?) f.reach[i]?

/-- Goes along the starts from the highest diagonal down. Ends at the first point, after its equal
lines, that `meets` the other frontier: gives the start and the end of these lines. -/
def extend (b : Board) (limit : Nat) (meets : Point → Bool) :
    List Point → Array Point → (Point × Point) ⊕ Array Point
  | [], reach => .inr reach
  | start :: rest, reach =>
    let p := b.slide limit start
    if meets p then .inl (start, p) else extend b limit meets rest (reach.push p)

end Frontier

/-- Searches from both ends, one edit more at a time, until the two frontiers meet. -/
def meeting? (b : Board) : Nat → List Point → List Point → Frontier → Nat → Option Point
  | 0, _, _, _, _ => none
  | rounds + 1, forwardStarts, backwardStarts, behind, edits =>
    let old := b.old.size
    let new := b.new.size
    let delta : Int := (old : Int) - new
    let limit := old + new
    let isOdd := delta % 2 ≠ 0
    -- The other frontier counts its lines from the ends of the texts.
    let reachesAcross (f : Frontier) (p : Point) : Bool :=
      match f.at? (delta - p.diagonal) with
      | some q => old ≤ p.old + q.old
      | none => false
    -- The parity of the difference tells which of the two frontiers can close the gap.
    match Frontier.extend b limit (fun p => isOdd && reachesAcross behind p) forwardStarts #[] with
    | .inl (start, _) => some start
    | .inr reach =>
      let ahead : Frontier := ⟨edits, reach⟩
      match Frontier.extend b.reversed limit (fun p => !isOdd && reachesAcross ahead p)
          backwardStarts #[] with
      | .inl (_, stop) => some ⟨old - stop.old, new - stop.new⟩
      | .inr reach =>
        let behind : Frontier := ⟨edits, reach⟩
        meeting? b rounds ahead.starts behind.starts behind (edits + 1)

def middle? (old new : List Text) : Option Point :=
  meeting? ⟨old.toArray, new.toArray⟩ ((old.length + new.length + 1) / 2 + 1) [⟨0, 0⟩] [⟨0, 0⟩]
    ⟨0, #[]⟩ 0

/-! ## Scripts -/

/-- Two lists of lines without those that they have in common at either end. -/
structure Core where
  /-- How many common lines were dropped at the start. -/
  lead : Nat
  old : List Text
  new : List Text
  /-- How many common lines were dropped at the end. -/
  tail : Nat

def Core.of (old new : List Text) : Core :=
  let lead := commonLength old new
  let oldRest := old.drop lead
  let newRest := new.drop lead
  let tail := commonEndLength oldRest newRest
  ⟨lead, oldRest.take (oldRest.length - tail), newRest.take (newRest.length - tail), tail⟩

theorem Core.length_old_of (old new : List Text) : (Core.of old new).old.length ≤ old.length := by
  simp only [Core.of, List.length_take, List.length_drop]
  omega

theorem Core.length_new_of (old new : List Text) : (Core.of old new).new.length ≤ new.length := by
  simp only [Core.of, List.length_take, List.length_drop]
  omega

def exchange (oldStart newStart : Nat) (old new : List Text) : List Edit :=
  (if old.isEmpty then [] else [.delete oldStart old.length newStart]) ++
    if new.isEmpty then [] else [.insert oldStart newStart new.length]

def equalLines (oldStart newStart count : Nat) : List Edit :=
  if count = 0 then [] else [.equal oldStart newStart count]

def Point.isInside (p : Point) (old new : List Text) : Bool :=
  p.old ≤ old.length && p.new ≤ new.length && 0 < p.old + p.new &&
    p.old + p.new < old.length + new.length

/-- Puts common lines at the ends aside, splits both texts at the middle of a path and goes on in
both halves; `old` and `new` begin at the given lines. -/
def scriptFrom (oldStart newStart : Nat) (old new : List Text) : List Edit :=
  let core := Core.of old new
  let oldCore := oldStart + core.lead
  let newCore := newStart + core.lead
  let inner :=
    if core.old.isEmpty ∨ core.new.isEmpty then exchange oldCore newCore core.old core.new
    else
      match middle? core.old core.new with
      | none => exchange oldCore newCore core.old core.new
      | some p =>
        if p.isInside core.old core.new then
          scriptFrom oldCore newCore (core.old.take p.old) (core.new.take p.new) ++
            scriptFrom (oldCore + p.old) (newCore + p.new) (core.old.drop p.old)
              (core.new.drop p.new)
        else exchange oldCore newCore core.old core.new
  equalLines oldStart newStart core.lead ++ inner ++
    equalLines (oldCore + core.old.length) (newCore + core.new.length) core.tail
termination_by old.length + new.length
decreasing_by
  all_goals
    have hOld := Core.length_old_of old new
    have hNew := Core.length_new_of old new
    rename_i hInside
    simp only [Point.isInside, Bool.and_eq_true, decide_eq_true_eq] at hInside
    simp only [core, List.length_take, List.length_drop] at hInside ⊢
    omega

def script (old new : List Text) : List Edit :=
  scriptFrom 0 0 old new

end Diff

end DesignParams
