import DesignParams.Proofs.Stylesheet.Raw
import DesignParams.Proofs.Stylesheet.Reference

/-!
# Priority annotations

An annotation is an exclamation mark and a word, with white space and comments between the two and
behind them. What is dropped from the end of a value is one annotation, and only if it holds no
comment; every other annotation stays.
-/
set_option autoImplicit false

namespace DesignParams

namespace Declaration

inductive IsTrivia : Text → Prop
  | nil : IsTrivia []
  | blank {c : Char} {rest : Text} (blank : isBlank c = true) (more : IsTrivia rest) :
      IsTrivia (c :: rest)
  | comment {body rest : Text} (closed : ¬ ['*', '/'] <:+: body) (more : IsTrivia rest) :
      IsTrivia ('/' :: '*' :: (body ++ '*' :: '/' :: rest))

/-- Does the text end with an annotation, white space and comments apart? -/
def IsMarked (s : Text) : Prop :=
  ∃ front gap word behind, s = front ++ '!' :: (gap ++ (word ++ behind)) ∧ IsTrivia gap ∧
    Text.asciiLowered word = "important".toList ∧ IsTrivia behind

def IsMark (mark : Text) : Prop :=
  ∃ gap word behind : Text, mark = '!' :: (gap ++ (word ++ behind)) ∧ gap.all isBlank = true ∧
    Text.asciiLowered word = "important".toList ∧ behind.all isBlank = true

/-- Does the text end with an annotation without comments, and with no other one before it? -/
def IsMarkedOnce (s : Text) : Prop :=
  ∃ value mark, s = value ++ mark ∧ IsMark mark ∧ ¬ IsMarked value

theorem isTrivia_of_isBlank {s : Text} (h : s.all isBlank = true) : IsTrivia s := by
  induction s with
  | nil => exact .nil
  | cons c s ih =>
    rw [List.all_cons, Bool.and_eq_true] at h
    exact .blank h.1 (ih h.2)

theorem IsTrivia.append {s t : Text} (hs : IsTrivia s) (ht : IsTrivia t) : IsTrivia (s ++ t) := by
  induction hs with
  | nil => exact ht
  | blank hc _ ih => exact .blank hc ih
  | comment hClosed _ ih =>
    rw [List.cons_append, List.cons_append, List.append_assoc]
    exact .comment hClosed ih

theorem IsTrivia.of_append_blank {s : Text} {c : Char} (h : IsTrivia (s ++ [c]))
    (hc : isBlank c = true) : IsTrivia s := by
  generalize hAll : s ++ [c] = t at h
  induction h generalizing s with
  | nil => simp at hAll
  | @blank d rest hd _ ih =>
    cases s with
    | nil => exact .nil
    | cons e s =>
      obtain ⟨rfl, hRest⟩ := List.cons.inj hAll
      exact .blank hd (ih hRest)
  | @comment body rest hClosed hRest ih =>
    rcases List.eq_nil_or_concat rest with rfl | ⟨rest, d, rfl⟩
    · have hSplit : s ++ [c] = ('/' :: '*' :: (body ++ ['*'])) ++ ['/'] := by simpa using hAll
      obtain ⟨-, hLast⟩ := List.append_inj' hSplit rfl
      rw [(List.cons.inj hLast).1] at hc
      cases hc
    · have hSplit : s ++ [c] = ('/' :: '*' :: (body ++ '*' :: '/' :: rest)) ++ [d] := by
        simpa using hAll
      obtain ⟨rfl, hLast⟩ := List.append_inj' hSplit rfl
      rw [(List.cons.inj hLast).1] at ih
      exact .comment hClosed (ih List.concat_eq_append.symm)

/-! ## The word of an annotation -/

theorem foldCase_eq_asciiLower {c : Char}
    (h : foldCase c ∈ "important".toList ∨ asciiLower c ∈ "important".toList) :
    foldCase c = asciiLower c := by
  rw [foldCase] at h ⊢
  split
  · rename_i hKelvin
    rw [if_pos hKelvin, hKelvin] at h
    exact absurd h (by decide)
  · rename_i hKelvin
    rw [if_neg hKelvin] at h
    split
    · rename_i hLong
      rw [if_pos hLong, hLong] at h
      exact absurd h (by decide)
    · rfl

theorem folded_iff {word : Text} :
    word.map foldCase = "important".toList ↔ Text.asciiLowered word = "important".toList := by
  rw [Text.asciiLowered]
  constructor
  · intro h
    rw [← h]
    exact List.map_congr_left fun c hc =>
      (foldCase_eq_asciiLower (.inl (h ▸ List.mem_map_of_mem hc))).symm
  · intro h
    rw [← h]
    exact List.map_congr_left fun c hc => foldCase_eq_asciiLower (.inr (h ▸ List.mem_map_of_mem hc))

theorem getLast?_word {word : Text} (h : Text.asciiLowered word = "important".toList)
    (front : Text) : (front ++ word).getLast?.any isBlank = false := by
  obtain ⟨c, hc, hFold⟩ := exists_getLast?_of_folded (folded_iff.mpr h)
  rw [List.getLast?_append, hc]
  simpa using not_isBlank_of_foldCase hFold

/-! ## Annotated texts -/

theorem IsMark.isMarked {mark : Text} (h : IsMark mark) (value : Text) :
    IsMarked (value ++ mark) := by
  obtain ⟨gap, word, behind, rfl, hGap, hWord, hBehind⟩ := h
  exact ⟨value, gap, word, behind, rfl, isTrivia_of_isBlank hGap, hWord,
    isTrivia_of_isBlank hBehind⟩

theorem IsMarked.mem {s : Text} (h : IsMarked s) : '!' ∈ s := by
  obtain ⟨front, gap, word, behind, rfl, -⟩ := h
  exact List.mem_append_right front List.mem_cons_self

theorem isMarked_append_blank_iff {s tail : Text} (hTail : tail.all isBlank = true) :
    IsMarked (s ++ tail) ↔ IsMarked s := by
  constructor
  · intro h
    induction tail using List.reverseRecOn with
    | nil => rwa [List.append_nil] at h
    | append_singleton tail c ih =>
      rw [List.all_append, Bool.and_eq_true] at hTail
      have hc : isBlank c = true := by simpa using hTail.2
      refine ih hTail.1 ?_
      obtain ⟨front, gap, word, behind, hSplit, hGap, hWord, hBehind⟩ := h
      rw [← List.append_assoc] at hSplit
      -- The character behind an annotation belongs to what stands behind its word.
      rcases List.eq_nil_or_concat behind with rfl | ⟨behind, d, rfl⟩
      · have hLast := getLast?_word hWord (front ++ '!' :: gap)
        have hSame : (front ++ '!' :: gap) ++ word = (s ++ tail) ++ [c] := by simp [hSplit]
        rw [hSame, List.getLast?_concat, Option.any_some, hc] at hLast
        cases hLast
      · have hSame : (s ++ tail) ++ [c] = (front ++ '!' :: (gap ++ (word ++ behind))) ++ [d] := by
          simp [hSplit]
        obtain ⟨hFront, hLast⟩ := List.append_inj' hSame rfl
        rw [List.concat_eq_append, ← (List.cons.inj hLast).1] at hBehind
        exact ⟨front, gap, word, behind, hFront, hGap, hWord, hBehind.of_append_blank hc⟩
  · rintro ⟨front, gap, word, behind, rfl, hGap, hWord, hBehind⟩
    refine ⟨front, gap, word, behind ++ tail, by simp, hGap, hWord, ?_⟩
    exact hBehind.append (isTrivia_of_isBlank hTail)

theorem isMarked_trimEnd_iff {s : Text} : IsMarked (Text.trimEnd s) ↔ IsMarked s := by
  obtain ⟨tail, hTail, hSplit⟩ := Text.exists_trimEnd_append s
  have h := @isMarked_append_blank_iff (Text.trimEnd s) tail hTail
  rw [← hSplit] at h
  exact h.symm

theorem dropPriority_trimEnd {value mark : Text} (h : IsMark mark) :
    dropPriority (Text.trimEnd (value ++ mark)) = Text.trimEnd value := by
  obtain ⟨gap, word, behind, rfl, hGap, hWord, hBehind⟩ := h
  obtain ⟨before, hBefore, hValue⟩ := Text.exists_trimEnd_append value
  have hEnd : Text.trimEnd (value ++ '!' :: (gap ++ (word ++ behind))) =
      Text.trimEnd value ++ (before ++ '!' :: (gap ++ word)) := by
    have hSplit : value ++ '!' :: (gap ++ (word ++ behind)) =
        (value ++ '!' :: (gap ++ word)) ++ behind := by simp
    have hLast := getLast?_word hWord (value ++ '!' :: gap)
    rw [hSplit, Text.trimEnd_append hBehind (by simpa using hLast)]
    conv => lhs; rw [hValue]
    rw [List.append_assoc]
  rw [hEnd, dropPriority_append (Text.getLast?_trimEnd value) hBefore hGap (folded_iff.mpr hWord)]

/-- An annotation stays in the value exactly when it is not the only one or holds a comment. -/
theorem isMarked_dropPriority_iff (s : Text) :
    IsMarked (dropPriority (Text.trimEnd s)) ↔ IsMarked s ∧ ¬ IsMarkedOnce s := by
  by_cases h : ∃ value mark, s = value ++ mark ∧ IsMark mark
  · obtain ⟨value, mark, rfl, hMark⟩ := h
    rw [dropPriority_trimEnd hMark, isMarked_trimEnd_iff]
    constructor
    · intro hValue
      refine ⟨hMark.isMarked value, ?_⟩
      rintro ⟨value', mark', hSplit, hMark', hNot⟩
      have hSame : Text.trimEnd value = Text.trimEnd value' := by
        rw [← dropPriority_trimEnd hMark, hSplit, dropPriority_trimEnd hMark']
      apply hNot
      rw [← isMarked_trimEnd_iff, ← hSame, isMarked_trimEnd_iff]
      exact hValue
    · rintro ⟨-, hNot⟩
      by_contra hValue
      exact hNot ⟨value, mark, rfl, hMark, hValue⟩
  · have hDrop : dropPriority (Text.trimEnd s) = Text.trimEnd s := by
      obtain ⟨tail, hTail, hSplit⟩ := Text.exists_trimEnd_append s
      rcases exists_dropPriority_append (Text.trimEnd s) with hSame |
        ⟨before, inner, word, -, hInner, hWord, hMarked⟩
      · exact hSame.symm
      · refine absurd ⟨dropPriority (Text.trimEnd s) ++ before, '!' :: (inner ++ (word ++ tail)),
          ?_, inner, word, tail, rfl, hInner, folded_iff.mp hWord, hTail⟩ h
        calc s = Text.trimEnd s ++ tail := hSplit
          _ = (dropPriority (Text.trimEnd s) ++ (before ++ '!' :: (inner ++ word))) ++ tail := by
            rw [← hMarked]
          _ = _ := by simp
    rw [hDrop, isMarked_trimEnd_iff]
    refine ⟨fun hMarked => ⟨hMarked, ?_⟩, fun hMarked => hMarked.1⟩
    rintro ⟨value, mark, hSplit, hMark, -⟩
    exact h ⟨value, mark, hSplit, hMark⟩

end Declaration

end DesignParams
