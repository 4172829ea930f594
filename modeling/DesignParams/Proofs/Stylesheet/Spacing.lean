import DesignParams.Proofs.Stylesheet.Span
import DesignParams.Proofs.Stylesheet.Sheet
import DesignParams.Proofs.Text.Join
import DesignParams.Proofs.Text.Slug

/-!
# Selectors in their context

The reader keeps an entry for each at-rule that it is in, and joins the entries in front of a
selector. For a sheet these are its headers and its selectors, with one space between their words.
-/
set_option autoImplicit false

namespace DesignParams

namespace Text

theorem words_append {word s : Text} (hNonempty : word ≠ [])
    (hWord : word.all (fun c => !isBlank c) = true) (hGap : s.head?.all isBlank = true) :
    words (word ++ s) = word :: words s := by
  rw [words, runs_append hWord hNonempty, words]
  cases s with
  | nil => simp
  | cons c s =>
    have hBlank : isBlank c = true := hGap
    rw [List.takeWhile_cons_of_neg (by simp [hBlank]), List.dropWhile_cons_of_neg (by simp [hBlank]),
      List.append_nil]

end Text

namespace Sheet

open Declaration (normalizePrelude contextEntry inContext isSkippedAtRule)

theorem IsBalanced.of_mem {allowed : Char → Bool} {s : Text} (h : IsBalanced allowed s) {c : Char}
    (hc : c ∈ s) : allowed c = true ∨ c = '(' ∨ c = ')' := by
  induction h with
  | plain hAll => exact .inl (List.all_eq_true.mp hAll c hc)
  | parens hBefore _ _ ihInside ihAfter =>
    rcases List.mem_append.mp hc with hc | hc
    · exact .inl (List.all_eq_true.mp hBefore c hc)
    rcases List.mem_cons.mp hc with rfl | hc
    · exact .inr (.inl rfl)
    rcases List.mem_append.mp hc with hc | hc
    · exact ihInside hc
    rcases List.mem_cons.mp hc with rfl | hc
    · exact .inr (.inr rfl)
    · exact ihAfter hc

theorem IsBalanced.not_mem {allowed : Char → Bool} {s : Text} (h : IsBalanced allowed s) {c : Char}
    (hc : allowed c = false) (hOpen : c ≠ '(') (hClose : c ≠ ')') : c ∉ s := by
  intro hMem
  rcases h.of_mem hMem with hAllowed | rfl | rfl
  · rw [hc] at hAllowed
    cases hAllowed
  · exact hOpen rfl
  · exact hClose rfl

theorem blankComments_of_not_mem {s : Text} (h : '/' ∉ s) : Declaration.blankComments s = s := by
  induction s with
  | nil => rw [Declaration.blankComments]
  | cons c s ih =>
    have hNone : Text.after? ['/', '*'] (c :: s) = none := by
      have hSlash : '/' ≠ c := fun hc => h (hc ▸ List.mem_cons_self)
      simp [Text.after?, hSlash]
    rw [Declaration.blankComments]
    split
    · rw [ih fun hMem => h (List.mem_cons_of_mem c hMem)]
    · rename_i rest hSome
      rw [hNone] at hSome
      cases hSome

theorem normalizePrelude_of_not_mem {s : Text} (h : '/' ∉ s) : normalizePrelude s = oneSpaced s := by
  rw [normalizePrelude, blankComments_of_not_mem h, oneSpaced]

theorem not_isBlank_of_isAsciiLetter {c : Char} (h : isAsciiLetter c = true) :
    isBlank c = false := by
  cases hBlank : isBlank c with
  | false => rfl
  | true =>
    simp only [isBlank, Bool.or_eq_true, Bool.and_eq_true, decide_eq_true_eq] at hBlank
    simp only [isAsciiLetter, Bool.or_eq_true, Bool.and_eq_true, decide_eq_true_eq] at h
    have hRange : 65 ≤ c.toNat ∧ c.toNat ≤ 122 := by
      rcases h with ⟨hLow, hHigh⟩ | ⟨hLow, hHigh⟩
      · exact ⟨Nat.le_trans (by decide) (show 97 ≤ c.toNat from hLow), hHigh⟩
      · exact ⟨hLow, Nat.le_trans (show c.toNat ≤ 90 from hHigh) (by decide)⟩
    omega

theorem AtName.not_blank (name : AtName) :
    ('@' :: name.text).all (fun c => !isBlank c) = true := by
  refine List.all_eq_true.mpr fun c hc => ?_
  rcases List.mem_cons.mp hc with rfl | hc
  · decide
  · have h := List.all_eq_true.mp name.all c hc
    simp only [Bool.or_eq_true, decide_eq_true_eq] at h
    rcases h with h | rfl
    · rw [not_isBlank_of_isAsciiLetter h]
      rfl
    · decide

/-- A context entry has the words of its at-rule: the name, and those of the prelude. -/
theorem contextEntry_of_words (name : AtName) {prelude entry : Text} (hSlash : '/' ∉ prelude)
    (hWords : Text.words entry = ('@' :: name.text) :: Text.words prelude) :
    contextEntry name.text prelude = oneSpaced entry := by
  rw [contextEntry, normalizePrelude_of_not_mem hSlash, oneSpaced, oneSpaced, hWords]
  cases hRest : Text.words prelude with
  | nil => simp [Text.join]
  | cons word words =>
    have hWord : word ≠ [] := Text.ne_nil_of_mem_runs (hRest ▸ List.mem_cons_self)
    have hFirst : Text.join [' '] (word :: words) ≠ [] := by
      intro hNil
      have hPrefix := Text.prefix_join [' '] word words
      rw [hNil, List.prefix_nil] at hPrefix
      exact hWord hPrefix
    rw [Text.join_cons_cons]
    simp [hFirst]

theorem contextEntry_header (name : AtName) (prelude : Prelude) :
    contextEntry name.text prelude.text = oneSpaced (header name prelude) := by
  have hGap : prelude.text.head?.all isBlank = true := by
    have h := prelude.gap
    cases hText : prelude.text with
    | nil => rfl
    | cons c s =>
      rw [hText] at h
      exact isBlank_of_isSpace h
  have hSlash : '/' ∉ prelude.text := prelude.balanced.not_mem (by decide) (by decide) (by decide)
  exact contextEntry_of_words name hSlash
    (Text.words_append (List.cons_ne_nil _ _) name.not_blank hGap)

theorem inContext_selector (headers : List Text) (selector : Selector) :
    inContext (headers.map oneSpaced) (normalizePrelude selector.text) =
      selectorIn headers selector.text := by
  have hSlash : '/' ∉ selector.text := fun hMem =>
    absurd (List.all_eq_true.mp selector.all _ hMem) (by decide)
  rw [inContext, normalizePrelude_of_not_mem hSlash, selectorIn, List.map_append]
  cases headers with
  | nil => simp [Text.join]
  | cons first headers => rfl

theorem isSkippedAtRule_iff {name : Text} :
    isSkippedAtRule name = true ↔ Text.asciiLowered name ∈ skippedNames := by
  have hLowered : ∀ skipped ∈ skippedNames, Text.asciiLowered skipped = skipped := by decide
  rw [isSkippedAtRule, List.any_eq_true]
  constructor
  · rintro ⟨skipped, hMem, hEq⟩
    have hSame : Text.asciiLowered name = Text.asciiLowered skipped := eq_of_beq hEq
    rw [hSame, hLowered skipped hMem]
    exact hMem
  · intro hMem
    exact ⟨_, hMem, beq_iff_eq.mpr (hLowered _ hMem).symm⟩

end Sheet

end DesignParams
