import DesignParams.Text.Position
import DesignParams.Proofs.Text.Bytes
import Mathlib.Data.List.DropRight
import Mathlib.Data.Prod.Lex
import Mathlib.Order.Monotone.Basic

/-!
# Lines and columns of a text

The line of a byte offset counts the line feeds before it, and its column the bytes behind the last
of them. The table of line starts, in which the line is looked up, is split by every offset into the
starts at or before it and those behind it.
-/
set_option autoImplicit false

namespace DesignParams

namespace Text

theorem length_bytes (s : Text) : (bytes s).length = byteLength s := by
  induction s with
  | nil => rfl
  | cons c s ih =>
    rw [bytes_cons, List.length_append, List.length_map, String.length_utf8EncodeChar, ih]
    rfl

theorem feed_not_mem_utf8EncodeChar {c : Char} (h : c ≠ '\n') :
    10 ∉ (String.utf8EncodeChar c).map (·.toNat) := by
  have hVal : c.val.toNat ≠ 10 := fun hTen => h (Char.toNat_inj.mp hTen)
  rw [String.utf8EncodeChar]
  generalize c.val.toNat = n at hVal
  split_ifs <;>
    simp only [List.map_cons, List.map_nil, List.mem_cons, List.not_mem_nil, or_false, not_or,
      UInt8.toNat_ofNat'] <;>
    omega

end Text

/-- Positions are ordered by line, and in a line by column. -/
def Position.key (p : Position) : ℕ ×ₗ ℕ :=
  toLex (p.line, p.column)

def Position.behind (bytes : List Nat) : Position :=
  ⟨1 + bytes.count 10, 1 + (bytes.rtakeWhile (· ≠ 10)).length⟩

namespace Position

theorem behind_feed (bytes : List Nat) :
    behind (bytes ++ [10]) = ⟨(behind bytes).line + 1, 1⟩ := by
  rw [behind, List.count_append, List.rtakeWhile_concat_neg _ _ _ (by simp)]
  rfl

theorem behind_byte {b : Nat} (h : b ≠ 10) (bytes : List Nat) :
    behind (bytes ++ [b]) = ⟨(behind bytes).line, (behind bytes).column + 1⟩ := by
  rw [behind, List.count_append, List.rtakeWhile_concat_pos _ _ _ (by simpa using h),
    List.length_append, List.count_singleton, if_neg (by simpa using h)]
  rfl

theorem key_lt_iff {p q : Position} :
    p.key < q.key ↔ p.line < q.line ∨ p.line = q.line ∧ p.column < q.column :=
  Prod.Lex.toLex_lt_toLex

end Position

namespace LineIndex

open Text (bytes byteLength)

def starts (index : LineIndex) : List Nat :=
  0 :: index.later

/-! ## The table of line starts -/

/-- The offsets just past each line feed among the bytes from an offset on. -/
def startsIn : Nat → List Nat → List Nat
  | _, [] => []
  | offset, b :: bytes =>
    if b = 10 then (offset + 1) :: startsIn (offset + 1) bytes else startsIn (offset + 1) bytes

theorem startsIn_append {front : List Nat} (h : 10 ∉ front) (offset : Nat) (bytes : List Nat) :
    startsIn offset (front ++ bytes) = startsIn (offset + front.length) bytes := by
  induction front generalizing offset with
  | nil => rfl
  | cons b front ih =>
    rw [List.mem_cons, not_or] at h
    rw [List.cons_append, startsIn, if_neg (Ne.symm h.1), ih h.2, List.length_cons, Nat.add_assoc,
      Nat.add_comm 1]

theorem startsFrom_eq (offset : Nat) (s : Text) :
    startsFrom offset s = startsIn offset (bytes s) := by
  induction s generalizing offset with
  | nil => rfl
  | cons c s ih =>
    rw [startsFrom, Text.bytes_cons]
    split
    · rename_i hFeed
      rw [hFeed, ih]
      rfl
    · rename_i hFeed
      rw [startsIn_append (Text.feed_not_mem_utf8EncodeChar hFeed), List.length_map,
        String.length_utf8EncodeChar, ih]

theorem pairwise_startsIn (offset : Nat) (bytes : List Nat) :
    (offset :: startsIn offset bytes).Pairwise (· < ·) := by
  induction bytes generalizing offset with
  | nil => exact List.pairwise_singleton _ _
  | cons b bytes ih =>
    obtain ⟨hLater, hRest⟩ := List.pairwise_cons.mp (ih (offset + 1))
    have hBehind (next : Nat) (hNext : next ∈ startsIn (offset + 1) bytes) : offset < next :=
      Nat.lt_of_succ_lt (hLater next hNext)
    rw [startsIn]
    split
    · apply List.pairwise_cons.mpr
      exact ⟨List.forall_mem_cons.mpr ⟨Nat.lt_succ_self offset, hBehind⟩, ih (offset + 1)⟩
    · exact List.pairwise_cons.mpr ⟨hBehind, hRest⟩

theorem length_startsIn (offset : Nat) (bytes : List Nat) :
    (startsIn offset bytes).length = bytes.count 10 := by
  induction bytes generalizing offset with
  | nil => rfl
  | cons b bytes ih =>
    rw [startsIn, List.count_cons]
    split
    · rename_i hFeed
      rw [List.length_cons, ih, hFeed]
      rfl
    · rename_i hFeed
      rw [ih, if_neg (by simpa using hFeed), Nat.add_zero]

/-! ## Walking past line starts -/

section Walk

variable {offset offset' start : Nat}

theorem locateFrom_of_lt {later : List Nat} (h : ∀ next ∈ later, offset < next)
    (line start : Nat) : locateFrom offset line start later = ⟨line, offset - start + 1⟩ := by
  cases later with
  | nil => rfl
  | cons next later => rw [locateFrom, if_neg (Nat.not_le.mpr (h next List.mem_cons_self))]

theorem column_behind {front : List Nat}
    (hStart : start + (Position.behind front).column = front.length + 1)
    (hFront : front.length ≤ offset) :
    offset - start + 1 = (Position.behind front).column + (offset - front.length) := by
  have hColumn : 1 ≤ (Position.behind front).column := Nat.le_add_right 1 _
  omega

/-- After some bytes have been read, the walk stands at the line that the last line feed among them
began, and it ends where the bytes up to the offset do. -/
theorem locateFrom_startsIn (front bytes : List Nat) (n : Nat)
    (hStart : start + (Position.behind front).column = front.length + 1) :
    locateFrom (front.length + n) (Position.behind front).line start
        (startsIn front.length bytes) =
      ⟨(Position.behind (front ++ bytes.take n)).line,
        (Position.behind (front ++ bytes.take n)).column + (n - bytes.length)⟩ := by
  induction bytes generalizing front start n with
  | nil =>
    rw [List.take_nil, List.append_nil, startsIn, locateFrom, List.length_nil,
      column_behind hStart (Nat.le_add_right front.length n), Nat.add_sub_cancel_left]
    rfl
  | cons b bytes ih =>
    cases n with
    | zero =>
      have hLater := (List.pairwise_cons.mp (pairwise_startsIn front.length (b :: bytes))).1
      rw [Nat.add_zero, locateFrom_of_lt hLater, column_behind hStart le_rfl, Nat.sub_self,
        Nat.zero_sub, List.take_zero, List.append_nil]
    | succ n =>
      have hLength : (front ++ [b]).length = front.length + 1 := List.length_append
      have hOffset : front.length + (n + 1) = (front ++ [b]).length + n := by omega
      rw [startsIn, List.take_succ_cons, List.append_cons, ← hLength, hOffset, List.length_cons,
        Nat.add_sub_add_right]
      split
      · rename_i hFeed
        have hBehind : Position.behind (front ++ [b]) = ⟨(Position.behind front).line + 1, 1⟩ := by
          rw [hFeed, Position.behind_feed]
        rw [← ih (front ++ [b]) n (by rw [hBehind]), hBehind, locateFrom, if_pos (Nat.le_add_right _ n)]
      · rename_i hByte
        have hBehind := Position.behind_byte hByte front
        have hNext : start + (Position.behind (front ++ [b])).column = (front ++ [b]).length + 1 := by
          rw [hBehind, hLength, ← hStart]
          rfl
        rw [← ih (front ++ [b]) n hNext, hBehind]

theorem le_line_locateFrom (offset line start : Nat) (later : List Nat) :
    line ≤ (locateFrom offset line start later).line := by
  induction later generalizing line start with
  | nil => exact le_rfl
  | cons next later ih =>
    rw [locateFrom]
    split
    · exact (Nat.le_succ line).trans (ih (line + 1) next)
    · exact le_rfl

theorem le_offset_iff_of_lt (hStart : start ≤ offset) {later : List Nat}
    (h : ∀ next ∈ later, offset < next) {j x : Nat} (hx : (start :: later)[j]? = some x) :
    x ≤ offset ↔ j ≤ 0 := by
  cases j with
  | zero =>
    obtain rfl := Option.some.inj hx
    exact iff_of_true hStart le_rfl
  | succ j =>
    have hMem : x ∈ later := List.mem_of_getElem? (i := j) hx
    exact iff_of_false (Nat.not_le.mpr (h x hMem)) (Nat.not_succ_le_zero j)

/-- The walk ends at the last start that the offset does not lie before. -/
theorem exists_locateFrom (hStart : start ≤ offset) (line : Nat) {later : List Nat}
    (hSorted : (start :: later).Pairwise (· < ·)) :
    ∃ i found, (locateFrom offset line start later).line = line + i ∧
      (start :: later)[i]? = some found ∧
      (locateFrom offset line start later).column = offset - found + 1 ∧
      ∀ j x, (start :: later)[j]? = some x → (x ≤ offset ↔ j ≤ i) := by
  induction later generalizing line start with
  | nil =>
    exact ⟨0, start, rfl, rfl, rfl, fun j x => le_offset_iff_of_lt hStart (by simp)⟩
  | cons next later ih =>
    obtain ⟨-, hLater⟩ := List.pairwise_cons.mp hSorted
    rcases Nat.lt_or_ge offset next with hBefore | hBehind
    · have hAll : ∀ x ∈ next :: later, offset < x :=
        List.forall_mem_cons.mpr ⟨hBefore, fun x hx =>
          hBefore.trans ((List.pairwise_cons.mp hLater).1 x hx)⟩
      rw [locateFrom_of_lt hAll]
      exact ⟨0, start, rfl, rfl, rfl, fun j x => le_offset_iff_of_lt hStart hAll⟩
    · obtain ⟨i, found, hLine, hFound, hColumn, hSplit⟩ := ih hBehind (line + 1) hLater
      rw [locateFrom, if_pos hBehind]
      refine ⟨i + 1, found, by omega, hFound, hColumn, fun j x hx => ?_⟩
      cases j with
      | zero =>
        obtain rfl := Option.some.inj hx
        exact iff_of_true hStart (Nat.zero_le _)
      | succ j => rw [hSplit j x hx, Nat.add_le_add_iff_right]

/-- A later offset is walked to a later line, or to a later column of the same line. -/
theorem key_locateFrom_lt (hStart : start ≤ offset) (h : offset < offset') (line : Nat)
    (later : List Nat) :
    (locateFrom offset line start later).key < (locateFrom offset' line start later).key := by
  rw [Position.key_lt_iff]
  induction later generalizing line start with
  | nil => exact .inr ⟨rfl, show offset - start + 1 < offset' - start + 1 by omega⟩
  | cons next later ih =>
    rcases Nat.lt_or_ge offset next with hBefore | hBehind
    · rw [locateFrom, if_neg (Nat.not_le.mpr hBefore), locateFrom]
      split
      · exact .inl (le_line_locateFrom offset' (line + 1) next later)
      · exact .inr ⟨rfl, show offset - start + 1 < offset' - start + 1 by omega⟩
    · rw [locateFrom, locateFrom, if_pos hBehind, if_pos (by omega)]
      exact ih hBehind (line + 1)

end Walk

/-! ## Looking a line up -/

/-- Halves a part of the table as long as it is not empty: what stands before `low` lies at or before
the offset, and what stands from `high` on lies behind it. -/
def partitionPoint (table : List Nat) (offset low high : Nat) : Nat :=
  if low < high then
    let middle := (low + high) / 2
    if table[middle]?.any (· ≤ offset) then partitionPoint table offset (middle + 1) high
    else partitionPoint table offset low middle
  else low
termination_by high - low

theorem partitionPoint_eq {table : List Nat} {offset low high k : Nat}
    (hSplit : ∀ j x, table[j]? = some x → (x ≤ offset ↔ j < k)) (hLow : low ≤ k) (hHigh : k ≤ high)
    (hTable : high ≤ table.length) : partitionPoint table offset low high = k := by
  fun_induction partitionPoint table offset low high with
  | case1 low high hLess middle hBefore ih =>
    have hx := List.getElem?_eq_getElem (show middle < table.length by omega)
    rw [hx, Option.any_some, decide_eq_true_eq, hSplit middle _ hx] at hBefore
    exact ih hBefore hHigh hTable
  | case2 low high hLess middle hBehind ih =>
    have hx := List.getElem?_eq_getElem (show middle < table.length by omega)
    rw [hx, Option.any_some, decide_eq_true_eq, hSplit middle _ hx] at hBehind
    exact ih hLow (Nat.not_lt.mp hBehind) (by omega)
  | case3 low high hDone => omega

/-! ## Positions in a text -/

theorem pairwise_starts (s : Text) : (ofText s).starts.Pairwise (· < ·) := by
  rw [starts, ofText, startsFrom_eq]
  exact pairwise_startsIn 0 (bytes s)

theorem length_starts (s : Text) : (ofText s).starts.length = (Position.behind (bytes s)).line := by
  rw [starts, ofText, startsFrom_eq, List.length_cons, length_startsIn, Nat.add_comm]
  rfl

theorem locate_ofText (s : Text) (offset : Nat) :
    (ofText s).locate offset =
      ⟨(Position.behind ((bytes s).take offset)).line,
        (Position.behind ((bytes s).take offset)).column + (offset - byteLength s)⟩ := by
  have hStart : 0 + (Position.behind []).column = ([] : List Nat).length + 1 := rfl
  have h := locateFrom_startsIn [] (bytes s) offset hStart
  rw [List.length_nil, Nat.zero_add, List.nil_append, Text.length_bytes] at h
  rw [locate, ofText, startsFrom_eq]
  exact h

/-- Line and column count what stands before the offset, and they give it back: the line is found by
halving the table of line starts, and the column is counted from its start on. They grow with the
offset, and behind the end of the text they stay in its last line. -/
theorem locate_counts (s : Text) :
    (∀ offset ≤ byteLength s, (ofText s).locate offset = Position.behind ((bytes s).take offset)) ∧
    (∀ offset, ∃ start, (ofText s).starts[((ofText s).locate offset).line - 1]? = some start ∧
      start + (((ofText s).locate offset).column - 1) = offset ∧
      partitionPoint (ofText s).starts offset 0 (ofText s).starts.length =
        ((ofText s).locate offset).line) ∧
    StrictMono (fun offset => ((ofText s).locate offset).key) ∧
    ∀ excess, ((ofText s).locate (byteLength s + excess)).line = (ofText s).starts.length := by
  refine ⟨fun offset hOffset => ?_, fun offset => ?_, fun offset offset' h => ?_, fun excess => ?_⟩
  · rw [locate_ofText, Nat.sub_eq_zero_of_le hOffset, Nat.add_zero]
  · obtain ⟨i, start, hLine, hStart, hColumn, hSplit⟩ :=
      exists_locateFrom (Nat.zero_le offset) 1 (pairwise_starts s)
    have hLow : start ≤ offset := (hSplit i start hStart).mpr le_rfl
    have hTable : 1 + i ≤ (ofText s).starts.length := by
      rw [Nat.add_comm]
      exact Nat.succ_le_of_lt (List.getElem?_eq_some_iff.mp hStart).1
    rw [locate, hLine, hColumn, Nat.add_sub_cancel, Nat.add_sub_cancel_left]
    refine ⟨start, hStart, Nat.add_sub_cancel' hLow, partitionPoint_eq (fun j x hx => ?_)
      (Nat.zero_le _) hTable le_rfl⟩
    rw [hSplit j x hx, Nat.add_comm, Nat.lt_succ_iff]
  · exact key_locateFrom_lt (Nat.zero_le offset) h 1 _
  · rw [locate_ofText, length_starts, List.take_of_length_le]
    rw [Text.length_bytes]
    exact Nat.le_add_right _ _

/-- An offset within a character, in the last of four lines of which one is empty. -/
theorem locate_counts_within :
    let s := "a\n\né\nbé".toList
    5 ≤ byteLength s ∧ 8 ≤ byteLength s ∧ (ofText s).locate 8 = ⟨4, 3⟩ ∧
      ((ofText s).locate 5).key < ((ofText s).locate 8).key := by
  intro s
  have hEight : 8 ≤ byteLength s := by decide
  have hLocate : (ofText s).locate 8 = ⟨4, 3⟩ :=
    ((locate_counts s).1 8 hEight).trans (by decide)
  exact ⟨by decide, hEight, hLocate, (locate_counts s).2.2.1 (by decide)⟩

end LineIndex

end DesignParams
