import DesignParams.Text.Blank
import Mathlib.Data.List.Basic
import Mathlib.Data.List.Infix

/-!
# Cuts and occurrences

A cut at a byte offset undoes joining, and two ways of joining one text agree when their first
parts have one byte length. The search for a needle finds the first occurrence, and it fails
exactly when there is none.
-/
set_option autoImplicit false

namespace DesignParams

namespace Text

@[simp] theorem byteLength_nil : byteLength [] = 0 := rfl

@[simp] theorem byteLength_cons (c : Char) (s : Text) :
    byteLength (c :: s) = c.utf8Size + byteLength s := rfl

theorem byteLength_pos {s : Text} (h : s ≠ []) : 0 < byteLength s := by
  cases s with
  | nil => exact absurd rfl h
  | cons c s =>
    rw [byteLength_cons]
    exact Nat.add_pos_left c.utf8Size_pos _

theorem splitAt?_append (s t : Text) : splitAt? (byteLength s) (s ++ t) = some (s, t) := by
  induction s with
  | nil => simp [splitAt?]
  | cons c s ih =>
    obtain ⟨n, hn⟩ := Nat.exists_eq_add_of_lt (byteLength_pos (List.cons_ne_nil c s))
    rw [Nat.zero_add] at hn
    have hSize : c.utf8Size ≤ n + 1 := by
      rw [← hn, byteLength_cons]
      exact Nat.le_add_right _ _
    have hRest : n + 1 - c.utf8Size = byteLength s := by
      rw [← hn, byteLength_cons]
      omega
    rw [hn, List.cons_append, splitAt?, if_pos hSize, hRest, ih]
    rfl

theorem append_inj_of_byteLength {s s' t t' : Text} (h : s ++ t = s' ++ t')
    (hLength : byteLength s = byteLength s') : s = s' ∧ t = t' := by
  have hSplit := splitAt?_append s t
  rw [h, hLength, splitAt?_append] at hSplit
  simp only [Option.some.injEq, Prod.mk.injEq] at hSplit
  exact ⟨hSplit.1.symm, hSplit.2.symm⟩

/-- Of two ways of cutting a text, the later cut is behind the earlier one. -/
theorem exists_append_of_byteLength_le {s s' t t' : Text} (h : s ++ t = s' ++ t')
    (hLength : byteLength s ≤ byteLength s') : ∃ u, s' = s ++ u ∧ t = u ++ t' := by
  rcases List.append_eq_append_iff.mp h with ⟨u, hs, ht⟩ | ⟨u, hs, ht⟩
  · exact ⟨u, hs, ht⟩
  · have hNil : u = [] := by
      by_contra hNonempty
      have hPositive := byteLength_pos hNonempty
      rw [hs, byteLength_append] at hLength
      omega
    rw [hNil, List.append_nil] at hs
    rw [hNil, List.nil_append] at ht
    exact ⟨[], by rw [hs, List.append_nil], by rw [ht, List.nil_append]⟩

/-- What stands between two cuts of a part occurs in it. -/
theorem infix_of_between {before part after front value rest : Text}
    (h : before ++ (part ++ after) = front ++ (value ++ rest))
    (hStart : byteLength before ≤ byteLength front)
    (hStop : byteLength front + byteLength value ≤ byteLength before + byteLength part) :
    value <:+: part := by
  obtain ⟨u, rfl, hu⟩ := exists_append_of_byteLength_le h hStart
  rw [byteLength_append] at hStop
  have hPart : (u ++ value) ++ rest = part ++ after := by rw [hu, List.append_assoc]
  obtain ⟨v, rfl, -⟩ := exists_append_of_byteLength_le hPart (by rw [byteLength_append]; omega)
  exact ⟨u, v, rfl⟩

/-- Two cuts of a text at one character are the same, or each cut off part holds the other. -/
theorem append_cons_cases {c : Char} {s s' t t' : Text} (h : s ++ c :: t = s' ++ c :: t') :
    (s = s' ∧ t = t') ∨ (c ∈ s' ∧ c ∈ t) ∨ (c ∈ s ∧ c ∈ t') := by
  rcases List.append_eq_append_iff.mp h with ⟨u, rfl, hu⟩ | ⟨u, rfl, hu⟩
  · cases u with
    | nil => exact .inl ⟨(List.append_nil s).symm, (List.cons.inj hu).2⟩
    | cons d u =>
      obtain ⟨rfl, rfl⟩ := List.cons.inj hu
      exact .inr (.inl ⟨List.mem_append_right s List.mem_cons_self,
        List.mem_append_right u List.mem_cons_self⟩)
  · cases u with
    | nil => exact .inl ⟨List.append_nil s', (List.cons.inj hu).2.symm⟩
    | cons d u =>
      obtain ⟨rfl, rfl⟩ := List.cons.inj hu
      exact .inr (.inr ⟨List.mem_append_right s' List.mem_cons_self,
        List.mem_append_right u List.mem_cons_self⟩)

/-- The last occurrence of a character cuts a text in one way. -/
theorem append_cons_inj {c : Char} {s s' t t' : Text} (ht : c ∉ t) (ht' : c ∉ t')
    (h : s ++ c :: t = s' ++ c :: t') : s = s' ∧ t = t' := by
  rcases append_cons_cases h with hSame | ⟨-, hMem⟩ | ⟨-, hMem⟩
  · exact hSame
  · exact absurd hMem ht
  · exact absurd hMem ht'

theorem append_cons_inj_left {c : Char} {s s' t t' : Text} (hs : c ∉ s) (hs' : c ∉ s')
    (h : s ++ c :: t = s' ++ c :: t') : s = s' ∧ t = t' := by
  rcases append_cons_cases h with hSame | ⟨hMem, -⟩ | ⟨hMem, -⟩
  · exact hSame
  · exact absurd hMem hs'
  · exact absurd hMem hs

theorem append_cons_inj_once {c : Char} {s s' t t' : Text} (hs : c ∉ s) (ht : c ∉ t)
    (h : s ++ c :: t = s' ++ c :: t') : s = s' ∧ t = t' := by
  rcases append_cons_cases h with hSame | ⟨-, hMem⟩ | ⟨hMem, -⟩
  · exact hSame
  · exact absurd hMem ht
  · exact absurd hMem hs

theorem after?_eq_some_iff {lead s rest : Text} : after? lead s = some rest ↔ s = lead ++ rest := by
  constructor
  · exact append_of_after?
  · rintro rfl
    induction lead with
    | nil => rfl
    | cons c lead ih => rw [List.cons_append, after?, if_pos rfl, ih]

theorem after?_append (lead rest : Text) : after? lead (lead ++ rest) = some rest :=
  after?_eq_some_iff.mpr rfl

/-! ## The first occurrence of a needle -/

theorem splitOnce?_eq_none_iff {needle s : Text} : splitOnce? needle s = none ↔ ¬ needle <:+: s := by
  induction s with
  | nil => cases needle <;> simp [splitOnce?]
  | cons c s ih =>
    rw [splitOnce?, List.infix_cons_iff]
    cases h : after? needle (c :: s) with
    | some rest =>
      have hLead : needle <+: c :: s := ⟨rest, (after?_eq_some_iff.mp h).symm⟩
      simp [hLead]
    | none =>
      have hLead : ¬ needle <+: c :: s := by
        rintro ⟨rest, hRest⟩
        rw [← hRest, after?_append] at h
        cases h
      simp [hLead, ih]

theorem splitOnce?_append {needle s t : Text} (hNeedle : needle ≠ [])
    (h : ¬ needle <:+: s ++ needle.dropLast) :
    splitOnce? needle (s ++ needle ++ t) = some (s, t) := by
  induction s with
  | nil =>
    cases needle with
    | nil => exact absurd rfl hNeedle
    | cons c needle =>
      have hAfter := after?_append (c :: needle) t
      rw [List.cons_append] at hAfter
      rw [List.nil_append, List.cons_append, splitOnce?, hAfter]
  | cons c s ih =>
    rw [List.cons_append, List.infix_cons_iff, not_or] at h
    have hNone : after? needle (c :: (s ++ needle ++ t)) = none := by
      cases hAfter : after? needle (c :: (s ++ needle ++ t)) with
      | none => rfl
      | some rest =>
        -- An occurrence at the front would end before the last character of this one.
        have hLead : needle <+: c :: (s ++ needle ++ t) := ⟨rest, (after?_eq_some_iff.mp hAfter).symm⟩
        have hShort : c :: (s ++ needle.dropLast) <+: c :: (s ++ needle ++ t) := by
          rw [List.cons_prefix_cons, List.append_assoc]
          exact ⟨rfl, List.prefix_append_right_inj s |>.mpr
            ((List.dropLast_prefix needle).trans (List.prefix_append needle t))⟩
        have hLength : needle.length ≤ (c :: (s ++ needle.dropLast)).length := by
          simp only [List.length_cons, List.length_append, List.length_dropLast]
          omega
        exact absurd (List.prefix_of_prefix_length_le hLead hShort hLength) h.1
    rw [List.cons_append, List.cons_append, splitOnce?, hNone]
    simp only
    rw [ih h.2]
    rfl

/-- No occurrence begins before the one that is found. -/
theorem not_infix_of_splitOnce? {needle s before rest : Text} (hNeedle : needle ≠ [])
    (h : splitOnce? needle s = some (before, rest)) : ¬ needle <:+: before ++ needle.dropLast := by
  have hShort : ¬ needle <:+: needle.dropLast := by
    intro hInfix
    have hLength := hInfix.length_le
    have hPositive := List.length_pos_iff.mpr hNeedle
    rw [List.length_dropLast] at hLength
    omega
  induction s generalizing before with
  | nil =>
    have hEmpty : needle.isEmpty = false := by
      rwa [← Bool.not_eq_true, List.isEmpty_iff]
    rw [splitOnce?, hEmpty] at h
    cases h
  | cons c s ih =>
    rw [splitOnce?] at h
    cases hAfter : after? needle (c :: s) with
    | some found =>
      rw [hAfter] at h
      obtain ⟨rfl, -⟩ := Prod.mk.inj (Option.some.inj h)
      exact hShort
    | none =>
      rw [hAfter] at h
      obtain ⟨⟨front, behind⟩, hFront, hEq⟩ := Option.map_eq_some_iff.mp h
      obtain ⟨rfl, rfl⟩ := Prod.mk.inj hEq
      rw [List.cons_append, List.infix_cons_iff, not_or]
      refine ⟨fun hPrefix => ?_, ih hFront⟩
      obtain ⟨found, hFound⟩ : needle <+: c :: s := by
        refine hPrefix.trans (List.cons_prefix_cons.mpr ⟨rfl, ?_⟩)
        rw [append_of_splitOnce? hFront, List.append_assoc]
        exact (List.prefix_append_right_inj front).mpr
          ((List.dropLast_prefix needle).trans (List.prefix_append needle behind))
      rw [← hFound, after?_append] at hAfter
      cases hAfter

end Text

end DesignParams
