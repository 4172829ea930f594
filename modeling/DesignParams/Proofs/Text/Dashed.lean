import DesignParams.Proofs.Text.Blank
import DesignParams.Proofs.Text.Join
import DesignParams.Proofs.Text.Slug

/-!
# Slugs of joined texts

A character that no slug keeps only divides words, so the words of two texts with a dash between
them are those of the one and then those of the other. A slug is its own slug, since its words are
lower-cased to themselves.
-/
set_option autoImplicit false

namespace DesignParams

namespace Text

/-! ## Runs around a character that is in none -/

theorem runs_of_all {keep : Char → Bool} {word : Text} (hNonempty : word ≠ [])
    (h : word.all keep = true) : runs keep word = [word] := by
  have hRuns := runs_append h hNonempty []
  rwa [List.append_nil, List.takeWhile_nil, List.append_nil, List.dropWhile_nil, runs] at hRuns

theorem runs_append_cons {keep : Char → Bool} {c : Char} (hc : keep c = false) (s t : Text) :
    runs keep (s ++ c :: t) = runs keep s ++ runs keep t := by
  fun_induction runs keep s with
  | case1 => rw [List.nil_append, List.nil_append, runs, if_neg (by simp [hc])]
  | case2 d s hd ih =>
    rw [List.cons_append, runs, if_pos hd, takeWhile_append_mark hc, dropWhile_append_mark hc, ih,
      List.cons_append]
  | case3 d s hd ih => rw [List.cons_append, runs, if_neg hd, ih]

/-! ## Slugs -/

def IsSlugWord (word : Text) : Prop :=
  word ≠ [] ∧ word.all isSlugChar = true

/-- Is the text empty, or words with single dashes between them? -/
def IsSlug (s : Text) : Prop :=
  ∃ words : List Text, (∀ word ∈ words, IsSlugWord word) ∧ s = join ['-'] words

/-- Two slugs with a dash between them, or the one that is not empty. -/
def dashed (a b : Text) : Text :=
  if a = [] then b else if b = [] then a else a ++ '-' :: b

theorem isSlugWord_of_mem_slugWords {s word : Text} (h : word ∈ slugWords s) : IsSlugWord word :=
  ⟨ne_nil_of_mem_runs h, of_mem_runs h⟩

theorem isSlug_slugify (s : Text) : IsSlug (slugify s) :=
  ⟨slugWords s, fun _ => isSlugWord_of_mem_slugWords, rfl⟩

theorem lowered_of_isSlugChar {c : Char} (h : isSlugChar c = true) : lowered c = [c] := by
  have hNot : c ≠ '\u0130' ∧ c ≠ '\u212A' := by
    constructor <;> rintro rfl <;> exact absurd h (by decide)
  have hUpper : ¬('A' ≤ c ∧ c ≤ 'Z') := by
    rintro ⟨hLow, hHigh⟩
    simp only [isSlugChar, isAsciiDigit, Bool.or_eq_true, Bool.and_eq_true, decide_eq_true_eq] at h
    rcases h with ⟨hLetter, -⟩ | ⟨-, hDigit⟩
    · exact absurd (Std.le_trans hLetter hHigh) (by decide)
    · exact absurd (Std.le_trans hLow hDigit) (by decide)
  rw [lowered, if_neg hNot.1, if_neg hNot.2, asciiLower, if_neg hUpper]

theorem flatMap_lowered_of_all {word : Text} (h : word.all isSlugChar = true) :
    word.flatMap lowered = word := by
  induction word with
  | nil => rfl
  | cons c word ih =>
    rw [List.all_cons, Bool.and_eq_true] at h
    rw [List.flatMap_cons, lowered_of_isSlugChar h.1, ih h.2, List.singleton_append]

theorem slugWords_of_isSlugWord {word : Text} (h : IsSlugWord word) : slugWords word = [word] := by
  rw [slugWords, flatMap_lowered_of_all h.2, runs_of_all h.1 h.2]

theorem slugWords_append_dash (a b : Text) :
    slugWords (a ++ '-' :: b) = slugWords a ++ slugWords b := by
  rw [slugWords, List.flatMap_append, List.flatMap_cons]
  exact runs_append_cons (by decide) _ _

theorem slugWords_join {words : List Text} (h : ∀ word ∈ words, IsSlugWord word) :
    slugWords (join ['-'] words) = words := by
  induction words with
  | nil => rw [join, List.intercalate_nil, slugWords, List.flatMap_nil, runs]
  | cons first words ih =>
    have hFirst := slugWords_of_isSlugWord (h first List.mem_cons_self)
    cases words with
    | nil => rw [join_singleton, hFirst]
    | cons second words =>
      rw [join_cons_cons, List.append_assoc, List.singleton_append, slugWords_append_dash, hFirst,
        ih fun word hWord => h word (List.mem_cons_of_mem first hWord), List.singleton_append]

theorem slugify_eq_self_iff {s : Text} : slugify s = s ↔ IsSlug s := by
  constructor
  · intro h
    rw [← h]
    exact isSlug_slugify s
  · rintro ⟨words, hWords, rfl⟩
    rw [slugify, slugWords_join hWords]

theorem slugify_eq_nil_iff {s : Text} : slugify s = [] ↔ slugWords s = [] :=
  join_eq_nil_iff fun _ hWord => (isSlugWord_of_mem_slugWords hWord).1

theorem slugify_append_dash (a b : Text) :
    slugify (a ++ '-' :: b) = dashed (slugify a) (slugify b) := by
  rw [dashed]
  split
  · rename_i ha
    rw [slugify, slugWords_append_dash, slugify_eq_nil_iff.mp ha, List.nil_append, slugify]
  · rename_i ha
    split
    · rename_i hb
      rw [slugify, slugWords_append_dash, slugify_eq_nil_iff.mp hb, List.append_nil, slugify]
    · rename_i hb
      rw [slugify_eq_nil_iff] at ha hb
      rw [slugify, slugWords_append_dash, join_append ha hb, List.append_assoc,
        List.singleton_append, slugify, slugify]

/-- A slug is in normal form, the texts in normal form are those that are their own slug, and the
slug of two texts with a dash between them is made of their slugs. -/
theorem slugify_isNormal (s a b : Text) :
    IsSlug (slugify s) ∧ slugify (slugify s) = slugify s ∧ (slugify s = s ↔ IsSlug s) ∧
      slugify (a ++ '-' :: b) = dashed (slugify a) (slugify b) := by
  refine ⟨isSlug_slugify s, ?_, slugify_eq_self_iff, slugify_append_dash a b⟩
  rw [slugify_eq_self_iff]
  exact isSlug_slugify s

-- The dashes of either side fall together, and a side that has no word leaves none.
example : slugify "__İ/2XL--".toList = "i-2xl".toList ∧
    slugify ("__İ/2XL--".toList ++ '-' :: "-900".toList) = "i-2xl-900".toList ∧
    slugify ("***".toList ++ '-' :: "-900".toList) = "900".toList := by
  decide +kernel

end Text

/-! ## Slugs in one pass -/

structure SlugPass where
  slug : Text
  /-- Has a character been passed over since the last one that was kept? -/
  pending : Bool

namespace SlugPass

open Text (runs join join_cons_cons join_singleton join_append_left)

def step (pass : SlugPass) (c : Char) : SlugPass :=
  if isSlugChar c then
    ⟨pass.slug ++ (if pass.pending && !pass.slug.isEmpty then ['-', c] else [c]), false⟩
  else ⟨pass.slug, true⟩

def read (lower : Char → Text) (s : Text) : SlugPass :=
  (s.flatMap lower).foldl step ⟨[], false⟩

theorem step_passed {c : Char} (hc : ¬ isSlugChar c = true) (pass : SlugPass) :
    pass.step c = ⟨pass.slug, true⟩ :=
  if_neg hc

theorem step_first {c : Char} (hc : isSlugChar c = true) (pending : Bool) :
    step ⟨[], pending⟩ c = ⟨[c], false⟩ := by
  simp [step, hc]

theorem step_kept {c : Char} (hc : isSlugChar c = true) (slug : Text) :
    step ⟨slug, false⟩ c = ⟨slug ++ [c], false⟩ := by
  simp [step, hc]

theorem step_pending {c : Char} (hc : isSlugChar c = true) {slug : Text} (h : slug ≠ []) :
    step ⟨slug, true⟩ c = ⟨slug ++ ['-', c], false⟩ := by
  simp [step, hc, h]

/-- The pass goes on with the word that the slug ends in, or begins the next one behind a dash. -/
theorem slug_foldl {slug : Text} (h : slug ≠ []) (s : Text) :
    (s.foldl step ⟨slug, false⟩).slug =
        join ['-'] ((slug ++ s.takeWhile isSlugChar) :: runs isSlugChar (s.dropWhile isSlugChar)) ∧
      (s.foldl step ⟨slug, true⟩).slug = join ['-'] (slug :: runs isSlugChar s) := by
  induction s generalizing slug with
  | nil =>
    rw [List.takeWhile_nil, List.dropWhile_nil, List.append_nil, runs, join_singleton]
    exact ⟨rfl, rfl⟩
  | cons c s ih =>
    rw [List.foldl_cons, List.foldl_cons]
    by_cases hc : isSlugChar c = true
    · constructor
      · rw [step_kept hc, (ih (by simp)).1, List.takeWhile_cons_of_pos hc,
          List.dropWhile_cons_of_pos hc, List.append_assoc, List.singleton_append]
      · rw [step_pending hc h, (ih (by simp)).1, runs, if_pos hc, join_cons_cons, List.append_assoc,
          List.append_assoc, ← join_append_left ['-'] ['-'], ← join_append_left ['-'] slug]
        rfl
    · rw [step_passed hc, step_passed hc, (ih h).2, List.takeWhile_cons_of_neg hc,
        List.dropWhile_cons_of_neg hc, List.append_nil, runs, if_neg hc]
      exact ⟨rfl, rfl⟩

theorem slug_foldl_nil (pending : Bool) (s : Text) :
    (s.foldl step ⟨[], pending⟩).slug = join ['-'] (runs isSlugChar s) := by
  induction s generalizing pending with
  | nil => rw [runs, join, List.intercalate_nil, List.foldl_nil]
  | cons c s ih =>
    rw [List.foldl_cons, runs]
    by_cases hc : isSlugChar c = true
    · rw [step_first hc, (slug_foldl (List.cons_ne_nil c []) s).1, if_pos hc, List.singleton_append]
    · rw [step_passed hc, ih, if_neg hc]

/-- What a slug can tell of a character. -/
def blurred (c : Char) : Char :=
  if isSlugChar c then c else '-'

theorem step_blurred (pass : SlugPass) (c : Char) : pass.step (blurred c) = pass.step c := by
  rw [blurred]
  split
  · rfl
  · rename_i hc
    rw [step_passed hc, step_passed (by decide)]

theorem foldl_step_map_blurred (pass : SlugPass) (s : Text) :
    (s.map blurred).foldl step pass = s.foldl step pass := by
  rw [List.foldl_map]
  simp only [step_blurred]

/-- One pass finds the slug, under any lower-casing that has the same slug characters. -/
theorem slug_read {lower : Char → Text} (h : ∀ c, (lower c).map blurred = (lowered c).map blurred)
    (s : Text) : (read lower s).slug = Text.slugify s := by
  have hBlurred : (s.flatMap lower).map blurred = (s.flatMap lowered).map blurred := by
    simp only [List.map_flatMap, h]
  rw [read, ← foldl_step_map_blurred, hBlurred, foldl_step_map_blurred, slug_foldl_nil]
  rfl

end SlugPass

end DesignParams
