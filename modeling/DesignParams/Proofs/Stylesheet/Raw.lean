import DesignParams.Stylesheet.Declaration
import DesignParams.Proofs.Text.Blank
import DesignParams.Proofs.Text.Cut

/-!
# Raw values

Between a colon and a semicolon a value stands behind white space and in front of a trailer: white
space, or a priority annotation between white space. A value can be exchanged for another one, and
what stands around it stays.
-/
set_option autoImplicit false

namespace DesignParams

namespace Text

theorem afterFolded?_eq_some_iff {lead s rest : Text} :
    afterFolded? lead s = some rest ↔ ∃ front, front.map foldCase = lead ∧ s = front ++ rest := by
  induction lead generalizing s with
  | nil =>
    simp only [afterFolded?, Option.some.injEq, List.map_eq_nil_iff]
    constructor
    · rintro rfl
      exact ⟨[], rfl, rfl⟩
    · rintro ⟨front, rfl, h⟩
      exact h
  | cons a lead ih =>
    cases s with
    | nil =>
      simp only [afterFolded?, reduceCtorEq, false_iff]
      rintro ⟨front, hFront, hNil⟩
      rw [(List.append_eq_nil_iff.mp hNil.symm).1] at hFront
      cases hFront
    | cons c s =>
      simp only [afterFolded?]
      constructor
      · intro h
        split at h
        · rename_i hc
          obtain ⟨front, hFront, rfl⟩ := ih.mp h
          exact ⟨c :: front, by rw [List.map_cons, hFront, hc], rfl⟩
        · cases h
      · rintro ⟨front, hFront, hSplit⟩
        cases front with
        | nil => cases hFront
        | cons d front =>
          rw [List.map_cons, List.cons.injEq] at hFront
          rw [List.cons_append, List.cons.injEq] at hSplit
          obtain ⟨rfl, rfl⟩ := hSplit
          rw [if_pos hFront.1.symm]
          exact ih.mpr ⟨front, hFront.2, rfl⟩

end Text

namespace Declaration

/-- What may stand behind a value: white space, or an annotation between white space. -/
inductive IsTrailer : Text → Prop
  | blank {tail : Text} : tail.all isBlank = true → IsTrailer tail
  | priority {before inner word after : Text} : before.all isBlank = true →
      inner.all isBlank = true → word.map foldCase = "important".toList → after.all isBlank = true →
      IsTrailer (before ++ '!' :: (inner ++ (word ++ after)))

theorem dropPriority_eq_self {s : Text} (hLast : ∀ c ∈ s.getLast?, foldCase c ≠ 't') :
    dropPriority s = s := by
  have hNone : Text.afterFolded? "important".toList.reverse s.reverse = none := by
    cases hAfter : Text.afterFolded? "important".toList.reverse s.reverse with
    | none => rfl
    | some rest =>
      obtain ⟨front, hFront, hSplit⟩ := Text.afterFolded?_eq_some_iff.mp hAfter
      cases front with
      | nil => cases hFront
      | cons c front =>
        have hLastChar : s.getLast? = some c := by
          rw [← List.head?_reverse, hSplit]
          rfl
        exact absurd (List.cons.inj hFront).1 (hLast c hLastChar)
  rw [dropPriority, hNone]

theorem dropPriority_append {s before inner word : Text} (hLast : s.getLast?.any isBlank = false)
    (hBefore : before.all isBlank = true) (hInner : inner.all isBlank = true)
    (hWord : word.map foldCase = "important".toList) :
    dropPriority (s ++ (before ++ '!' :: (inner ++ word))) = s := by
  have hReverse : (s ++ (before ++ '!' :: (inner ++ word))).reverse =
      word.reverse ++ (inner.reverse ++ '!' :: (before.reverse ++ s.reverse)) := by
    simp
  have hAfter : Text.afterFolded? "important".toList.reverse
      (word.reverse ++ (inner.reverse ++ '!' :: (before.reverse ++ s.reverse))) =
        some (inner.reverse ++ '!' :: (before.reverse ++ s.reverse)) :=
    Text.afterFolded?_eq_some_iff.mpr ⟨word.reverse, by rw [List.map_reverse, hWord], rfl⟩
  have hMark : (inner.reverse ++ '!' :: (before.reverse ++ s.reverse)).dropWhile isBlank =
      '!' :: (before.reverse ++ s.reverse) :=
    Text.trimStart_append (by rw [List.all_reverse, hInner]) rfl
  have hRest : (before.reverse ++ s.reverse).dropWhile isBlank = s.reverse :=
    Text.trimStart_append (by rw [List.all_reverse, hBefore]) (by rw [List.head?_reverse, hLast])
  rw [dropPriority, hReverse, hAfter]
  simp only [hMark, hRest, List.reverse_reverse]

theorem exists_dropPriority_append (s : Text) :
    s = dropPriority s ∨
      ∃ before inner word : Text, before.all isBlank = true ∧ inner.all isBlank = true ∧
        word.map foldCase = "important".toList ∧
        s = dropPriority s ++ (before ++ '!' :: (inner ++ word)) := by
  rw [dropPriority]
  split
  · exact .inl rfl
  · rename_i rest hAfter
    obtain ⟨front, hFront, hSplit⟩ := Text.afterFolded?_eq_some_iff.mp hAfter
    split
    · rename_i before hMark
      right
      refine ⟨(Text.leadingBlank before).reverse, (Text.leadingBlank rest).reverse, front.reverse,
        ?_, ?_, ?_, ?_⟩
      · rw [List.all_reverse, Text.all_leadingBlank]
      · rw [List.all_reverse, Text.all_leadingBlank]
      · rw [List.map_reverse, hFront, List.reverse_reverse]
      · have hInner := Text.leadingBlank_append_trimStart rest
        have hBefore := Text.leadingBlank_append_trimStart before
        rw [Text.trimStart] at hInner hBefore
        rw [hMark] at hInner
        have h : s.reverse = front ++ (Text.leadingBlank rest ++ '!' ::
            (Text.leadingBlank before ++ before.dropWhile isBlank)) := by
          rw [hBefore, hInner, hSplit]
        simpa using congrArg List.reverse h
    · exact .inl rfl

theorem prefix_dropPriority (s : Text) : dropPriority s <+: s := by
  rcases exists_dropPriority_append s with h | ⟨before, inner, word, -, -, -, h⟩
  · exact ⟨[], by rw [List.append_nil, ← h]⟩
  · exact ⟨_, h.symm⟩

theorem getLast?_dropPriority {s : Text} (h : s.getLast?.any isBlank = false) :
    (dropPriority s).getLast?.any isBlank = false := by
  rw [dropPriority]
  split
  · exact h
  · split
    · rename_i before _
      rw [List.getLast?_reverse]
      exact Text.head?_trimStart before
    · exact h

theorem trim_dropPriority {s : Text} (h : Text.trim s = s) :
    Text.trim (dropPriority s) = dropPriority s := by
  obtain ⟨hHead, hLast⟩ := Text.trim_eq_self_iff.mp h
  rw [Text.trim_eq_self_iff]
  exact ⟨Text.head?_of_prefix (prefix_dropPriority s) hHead, getLast?_dropPriority hLast⟩

/-- A raw value is the value between its leading white space and a trailer. -/
theorem exists_trailer (raw : Text) :
    ∃ tail, IsTrailer tail ∧
      raw = Text.leadingBlank raw ++ (dropPriority (Text.trim raw) ++ tail) := by
  obtain ⟨after, hAfter, hTrim⟩ := Text.exists_trimEnd_append (Text.trimStart raw)
  have hRaw := Text.leadingBlank_append_trimStart raw
  rcases exists_dropPriority_append (Text.trim raw) with h |
    ⟨before, inner, word, hBefore, hInner, hWord, h⟩
  · refine ⟨after, .blank hAfter, ?_⟩
    rw [← h, Text.trim, ← hTrim, hRaw]
  · refine ⟨before ++ '!' :: (inner ++ (word ++ after)), .priority hBefore hInner hWord hAfter, ?_⟩
    calc raw = Text.leadingBlank raw ++ (Text.trim raw ++ after) := by rw [Text.trim, ← hTrim, hRaw]
      _ = Text.leadingBlank raw ++ ((dropPriority (Text.trim raw) ++
            (before ++ '!' :: (inner ++ word))) ++ after) := by rw [← h]
      _ = _ := by simp

theorem not_isBlank_of_foldCase {c : Char} (h : foldCase c = 't') : isBlank c = false := by
  cases hBlank : isBlank c with
  | false => rfl
  | true =>
    have hSame : foldCase c = c := by
      simp only [isBlank, Bool.or_eq_true, Bool.and_eq_true, decide_eq_true_eq] at hBlank
      have hLetter : ¬ ('A' ≤ c ∧ c ≤ 'Z') := by
        rintro ⟨hLow, hHigh⟩
        have h1 : 65 ≤ c.toNat := hLow
        have h2 : c.toNat ≤ 90 := hHigh
        omega
      rw [foldCase, asciiLower, if_neg hLetter, if_neg, if_neg]
      all_goals
        rintro rfl
        revert hBlank
        decide
    rw [← hSame, h] at hBlank
    exact absurd hBlank (by decide)

theorem exists_getLast?_of_folded {word : Text} (h : word.map foldCase = "important".toList) :
    ∃ c, word.getLast? = some c ∧ foldCase c = 't' := by
  have hLast := congrArg List.getLast? h
  rw [List.getLast?_map] at hLast
  exact Option.map_eq_some_iff.mp hLast

/-- Another value can stand in the place of a value, if it is one by itself. -/
theorem value_append {lead s tail : Text} (hLead : lead.all isBlank = true) (hNonempty : s ≠ [])
    (hHead : s.head?.any isBlank = false) (hLast : s.getLast?.any isBlank = false)
    (hEnd : ∀ c ∈ s.getLast?, foldCase c ≠ 't') (hTail : IsTrailer tail) :
    Text.leadingBlank (lead ++ (s ++ tail)) = lead ∧
      dropPriority (Text.trim (lead ++ (s ++ tail))) = s := by
  have hHead' : (s ++ tail).head?.any isBlank = false := by
    cases s with
    | nil => exact absurd rfl hNonempty
    | cons c s => exact hHead
  refine ⟨Text.leadingBlank_append hLead hHead', ?_⟩
  rw [Text.trim, Text.trimStart_append hLead hHead']
  cases hTail with
  | blank hBlank => rw [Text.trimEnd_append hBlank hLast, dropPriority_eq_self hEnd]
  | @priority before inner word after hBefore hInner hWord hAfter =>
    have hWordLast : (s ++ (before ++ '!' :: (inner ++ word))).getLast?.any isBlank = false := by
      obtain ⟨c, hc, hFold⟩ := exists_getLast?_of_folded hWord
      have hLastChar : (s ++ (before ++ '!' :: (inner ++ word))).getLast? = some c := by
        have hSplit : s ++ (before ++ '!' :: (inner ++ word)) =
            (s ++ (before ++ '!' :: inner)) ++ word := by simp
        rw [hSplit, List.getLast?_append, hc]
        rfl
      rw [hLastChar]
      simpa using not_isBlank_of_foldCase hFold
    have hSplit : s ++ (before ++ '!' :: (inner ++ (word ++ after))) =
        (s ++ (before ++ '!' :: (inner ++ word))) ++ after := by
      simp
    rw [hSplit, Text.trimEnd_append hAfter hWordLast, dropPriority_append hLast hBefore hInner hWord]

end Declaration

end DesignParams
