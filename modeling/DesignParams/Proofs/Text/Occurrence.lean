import DesignParams.Proofs.Text.Cut

/-!
# Occurrences in joined texts

Where a needle can occur in a text that is joined from parts. A character that is not in the needle
keeps its occurrences on one side, and so does a first or a last character that a part lacks.
Replacing the occurrences of a needle goes from one to the next.
-/
set_option autoImplicit false

namespace DesignParams

namespace Text

variable {needle s t : Text} {c : Char}

theorem infix_append_left (h : needle <:+: s) (t : Text) : needle <:+: s ++ t :=
  h.trans (List.prefix_append s t).isInfix

theorem infix_append_right (s : Text) (h : needle <:+: t) : needle <:+: s ++ t :=
  h.trans (List.suffix_append s t).isInfix

/-- An occurrence in a joined text lies in one of the two parts, or it is cut between them. -/
theorem infix_append_cases (h : needle <:+: s ++ t) :
    needle <:+: s ∨ needle <:+: t ∨
      ∃ front back, front ≠ [] ∧ back ≠ [] ∧ needle = front ++ back ∧ front <:+ s ∧ back <+: t := by
  obtain ⟨before, after, hSplit⟩ := h
  rw [List.append_assoc] at hSplit
  rcases List.append_eq_append_iff.mp hSplit with ⟨u, hs, hu⟩ | ⟨u, rfl, ht⟩
  · rcases List.append_eq_append_iff.mp hu with ⟨v, hv, -⟩ | ⟨v, hv, ht⟩
    · left
      exact ⟨before, v, by rw [List.append_assoc, ← hv, hs]⟩
    · by_cases hFront : u = []
      · right; left
        rw [hv, hFront, ht, List.nil_append]
        exact (List.prefix_append v after).isInfix
      · by_cases hBack : v = []
        · left
          rw [hv, hBack, List.append_nil, hs]
          exact (List.suffix_append before u).isInfix
        · right; right
          exact ⟨u, v, hFront, hBack, hv, ⟨before, hs.symm⟩, ⟨after, ht.symm⟩⟩
  · right; left
    exact ⟨u, after, by rw [List.append_assoc]; exact ht.symm⟩

/-- A character that the needle lacks keeps its occurrences on one side. -/
theorem infix_append_cons_iff (hNeedle : c ∉ needle) :
    needle <:+: s ++ c :: t ↔ needle <:+: s ∨ needle <:+: t := by
  constructor
  · intro h
    rcases infix_append_cases h with h | h | ⟨front, back, -, hBack, rfl, -, hPrefix⟩
    · exact .inl h
    · rcases List.infix_cons_iff.mp h with h | h
      · cases needle with
        | nil => exact .inr List.nil_infix
        | cons d needle =>
          rw [List.cons_prefix_cons] at h
          exact absurd (h.1 ▸ List.mem_cons_self) hNeedle
      · exact .inr h
    · cases back with
      | nil => exact absurd rfl hBack
      | cons d back =>
        rw [List.cons_prefix_cons] at hPrefix
        exact absurd (List.mem_append_right front (hPrefix.1 ▸ List.mem_cons_self)) hNeedle
  · rintro (h | h)
    · exact infix_append_left h _
    · exact infix_append_right s (h.trans (List.suffix_cons c t).isInfix)

/-- A needle does not reach into a part that lacks its last character. -/
theorem infix_of_infix_append_of_last {needle : Text} (h : needle ++ [c] <:+: s ++ t) (ht : c ∉ t) :
    needle ++ [c] <:+: s := by
  rcases infix_append_cases h with h | h | ⟨front, back, -, hBack, hSplit, -, hPrefix⟩
  · exact h
  · exact absurd (h.subset (List.mem_append_right needle List.mem_cons_self)) ht
  · have hLast : c ∈ back := by
      have hEnd := congrArg List.getLast? hSplit
      rw [List.getLast?_concat, List.getLast?_append_of_ne_nil front hBack] at hEnd
      exact List.mem_of_getLast? hEnd.symm
    exact absurd (hPrefix.subset hLast) ht

/-- A needle does not begin in a part that lacks its first character. -/
theorem infix_of_infix_append_of_head {needle : Text} (h : c :: needle <:+: s ++ t) (hs : c ∉ s) :
    c :: needle <:+: t := by
  rcases infix_append_cases h with h | h | ⟨front, back, hFront, -, hSplit, hSuffix, -⟩
  · exact absurd (h.subset List.mem_cons_self) hs
  · exact h
  · cases front with
    | nil => exact absurd rfl hFront
    | cons d front =>
      obtain ⟨rfl, -⟩ := List.cons.inj hSplit
      exact absurd (hSuffix.subset List.mem_cons_self) hs

theorem infix_of_infix_cons {needle : Text} {d : Char} (h : c :: needle <:+: d :: t) (hd : c ≠ d) :
    c :: needle <:+: t := by
  rcases List.infix_cons_iff.mp h with h | h
  · exact absurd (List.cons_prefix_cons.mp h).1 hd
  · exact h

/-- A needle that begins with a mark and has no other one cannot be cut by a mark. -/
theorem infix_append_mark {needle : Text} (hNeedle : c ∉ needle) (h : c :: needle <:+: s ++ c :: t) :
    c :: needle <:+: s ∨ needle <+: t ∨ c :: needle <:+: t := by
  rcases infix_append_cases h with h | h | ⟨front, back, hFront, hBack, hSplit, -, hPrefix⟩
  · exact .inl h
  · rcases List.infix_cons_iff.mp h with h | h
    · rw [List.cons_prefix_cons] at h
      exact .inr (.inl h.2)
    · exact .inr (.inr h)
  · cases front with
    | nil => exact absurd rfl hFront
    | cons d front =>
      obtain ⟨-, rfl⟩ := List.cons.inj hSplit
      cases back with
      | nil => exact absurd rfl hBack
      | cons e back =>
        rw [List.cons_prefix_cons] at hPrefix
        exact absurd (List.mem_append_right front (hPrefix.1 ▸ List.mem_cons_self)) hNeedle

/-- A needle at the start of a joined text does not reach into a part whose first character it
lacks. -/
theorem prefix_append_iff (h : ∀ d ∈ t.head?, d ∉ needle) : needle <+: s ++ t ↔ needle <+: s := by
  constructor
  · rintro ⟨behind, hSplit⟩
    rcases List.append_eq_append_iff.mp hSplit with ⟨back, hs, -⟩ | ⟨back, hNeedle, hBack⟩
    · exact ⟨back, hs.symm⟩
    · cases back with
      | nil => exact ⟨[], by rw [List.append_nil, hNeedle, List.append_nil]⟩
      | cons d back =>
        refine absurd ?_ (h d (by rw [hBack]; rfl))
        rw [hNeedle]
        exact List.mem_append_right s List.mem_cons_self
  · exact fun hPrefix => hPrefix.trans (List.prefix_append s t)

theorem after?_append_of_head (h : ∀ d ∈ t.head?, d ∉ needle) :
    after? needle (s ++ t) = (after? needle s).map (· ++ t) := by
  cases hAfter : after? needle s with
  | some rest =>
    rw [append_of_after? hAfter, List.append_assoc, after?_append]
    rfl
  | none =>
    cases hJoined : after? needle (s ++ t) with
    | none => rfl
    | some behind =>
      obtain ⟨rest, rfl⟩ := (prefix_append_iff h).mp ⟨behind, (append_of_after? hJoined).symm⟩
      rw [after?_append] at hAfter
      cases hAfter

/-- No occurrence begins in front of the first one. -/
theorem exists_append_of_first {before front rest back : Text}
    (hFirst : ¬ needle <:+: before ++ needle.dropLast)
    (h : before ++ (needle ++ rest) = front ++ (needle ++ back)) :
    ∃ u, front = before ++ u ∧ needle ++ rest = u ++ (needle ++ back) := by
  rcases List.append_eq_append_iff.mp h with hBehind | ⟨u, rfl, hu⟩
  · exact hBehind
  · cases u with
    | nil => exact ⟨[], by simp, hu.symm⟩
    | cons c u =>
      have hWhole : needle <+: c :: u ++ (needle ++ rest) := ⟨back, hu⟩
      have hShort : c :: u ++ needle.dropLast <+: c :: u ++ (needle ++ rest) :=
        (List.prefix_append_right_inj _).mpr
          ((List.dropLast_prefix needle).trans (List.prefix_append needle rest))
      have hLength : needle.length ≤ (c :: u ++ needle.dropLast).length := by
        simp only [List.cons_append, List.length_cons, List.length_append, List.length_dropLast]
        omega
      have hPrefix := List.prefix_of_prefix_length_le hWhole hShort hLength
      rw [List.append_assoc] at hFirst
      exact absurd (infix_append_right front hPrefix.isInfix) hFirst

theorem suffix_of_first {before front rest back : Text}
    (hFirst : ¬ needle <:+: before ++ needle.dropLast)
    (h : before ++ (needle ++ rest) = front ++ (needle ++ back)) : back <:+ rest := by
  obtain ⟨u, -, hu⟩ := exists_append_of_first hFirst h
  have hLength := congrArg List.length hu
  simp only [List.length_append] at hLength
  refine List.suffix_of_suffix_length_le (hu ▸ ?_) (List.suffix_append needle rest) (by omega)
  exact (List.suffix_append needle back).trans (List.suffix_append u _)

/-- A needle occurs once when no occurrence begins in front of one and none ends behind it. -/
theorem existsUnique_append {before after : Text} (hFirst : ¬ needle <:+: before ++ needle.dropLast)
    (hLast : ¬ needle <:+: needle.tail ++ after) :
    ∃! cut : Text × Text, before ++ (needle ++ after) = cut.1 ++ (needle ++ cut.2) := by
  refine ⟨(before, after), rfl, ?_⟩
  rintro ⟨front, back⟩ hCut
  obtain ⟨u, rfl, hu⟩ := exists_append_of_first hFirst hCut
  cases u with
  | nil => rw [List.append_nil, List.append_cancel_left hu]
  | cons c u =>
    cases needle with
    | nil => exact absurd List.nil_infix hLast
    | cons d needle =>
      obtain ⟨-, hBehind⟩ := List.cons.inj hu
      exact absurd ⟨u, back, by rw [List.append_assoc]; exact hBehind.symm⟩ hLast

/-! ## Replacing all occurrences -/

def replaceAll (old new s : Text) : Text :=
  if _hOld : old = [] then s
  else
    match _hSplit : splitOnce? old s with
    | none => s
    | some (before, rest) => before ++ (new ++ replaceAll old new rest)
termination_by s.length
decreasing_by
  have hLength := congrArg List.length (append_of_splitOnce? _hSplit)
  have hPositive := List.length_pos_iff.mpr _hOld
  simp only [List.length_append] at hLength
  omega

theorem replaceAll_eq_self {old : Text} (new : Text) (h : ¬ old <:+: s) : replaceAll old new s = s := by
  rw [replaceAll]
  split
  · rfl
  · split
    · rfl
    · rename_i hSplit
      rw [splitOnce?_eq_none_iff.mpr h] at hSplit
      cases hSplit

theorem replaceAll_append {old : Text} (new : Text) (hOld : old ≠ []) (h : ¬ old <:+: s ++ old.dropLast)
    (t : Text) : replaceAll old new (s ++ (old ++ t)) = s ++ (new ++ replaceAll old new t) := by
  have hFirst := splitOnce?_append (t := t) hOld h
  rw [List.append_assoc] at hFirst
  rw [replaceAll, dif_neg hOld]
  split
  · rename_i hSplit
    rw [hFirst] at hSplit
    cases hSplit
  · rename_i before rest hSplit
    rw [hFirst] at hSplit
    cases hSplit
    rfl

end Text

end DesignParams
