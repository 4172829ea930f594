import DesignParams.Identity
import DesignParams.Text.Slug
import DesignParams.Text.Entries
import Mathlib.Data.List.TakeWhile

/-!
# Names that can be generated

The characters of slugs, of hashes and of numbers, of which names of parameters are made. A slug
begins with the slug characters that its text begins with, and different numbers are written
differently.
-/
set_option autoImplicit false

namespace DesignParams

def isStemChar (c : Char) : Bool :=
  isSlugChar c || c = '-'

theorem isStemChar_of_isSlugChar {c : Char} (h : isSlugChar c = true) : isStemChar c = true := by
  rw [isStemChar, h, Bool.true_or]

theorem isSlugChar_of_isAsciiDigit {c : Char} (h : isAsciiDigit c = true) : isSlugChar c = true := by
  rw [isSlugChar, h, Bool.or_true]

/-- A name of a custom property that a scan can give to a parameter. -/
def IsGenerated (name : Text) : Prop :=
  ∃ stem : Text, stem ≠ [] ∧ stem.all isStemChar = true ∧ name = "--rig-".toList ++ stem

theorem IsGenerated.isStemChar {name : Text} (h : IsGenerated name) {c : Char} (hc : c ∈ name) :
    isStemChar c = true := by
  obtain ⟨stem, -, hStem, rfl⟩ := h
  rcases List.mem_append.mp hc with hc | hc
  · have hLead : "--rig-".toList.all DesignParams.isStemChar = true := by decide
    exact List.all_eq_true.mp hLead c hc
  · exact List.all_eq_true.mp hStem c hc

theorem IsGenerated.not_mem {name : Text} (h : IsGenerated name) {c : Char}
    (hc : DesignParams.isStemChar c = false) : c ∉ name := by
  intro hMem
  rw [h.isStemChar hMem] at hc
  cases hc

namespace Text

theorem all_ofNat (n : Nat) : (ofNat n).all isAsciiDigit = true := by
  refine List.all_eq_true.mpr fun c hc => ?_
  have hDigit := Nat.isDigit_of_mem_toDigits (by decide) (by decide) hc
  simpa [Char.isDigit, isAsciiDigit, Char.le_def] using hDigit

theorem ofNat_injective {m n : Nat} (h : ofNat m = ofNat n) : m = n := by
  have hm := Nat.ofDigitChars_ten_toDigits (n := m)
  rw [show Nat.toDigits 10 m = Nat.toDigits 10 n from h, Nat.ofDigitChars_ten_toDigits] at hm
  exact hm.symm

/-! ## Slugs -/

theorem of_mem_runs {keep : Char → Bool} {s word : Text} (h : word ∈ runs keep s) :
    word.all keep = true := by
  fun_induction runs keep s with
  | case1 => cases h
  | case2 c s hc ih =>
    rcases List.mem_cons.mp h with rfl | h
    · rw [List.all_cons, hc, List.all_takeWhile, Bool.and_self]
    · exact ih h
  | case3 c s _ ih => exact ih h

theorem ne_nil_of_mem_runs {keep : Char → Bool} {s word : Text} (h : word ∈ runs keep s) :
    word ≠ [] := by
  fun_induction runs keep s with
  | case1 => cases h
  | case2 c s _ ih =>
    rcases List.mem_cons.mp h with rfl | h
    · exact List.cons_ne_nil _ _
    · exact ih h
  | case3 c s _ ih => exact ih h

theorem runs_append {keep : Char → Bool} {lead : Text} (hLead : lead.all keep = true)
    (hNonempty : lead ≠ []) (s : Text) :
    runs keep (lead ++ s) = (lead ++ s.takeWhile keep) :: runs keep (s.dropWhile keep) := by
  cases lead with
  | nil => exact absurd rfl hNonempty
  | cons c lead =>
    rw [List.all_cons, Bool.and_eq_true] at hLead
    have hRest := List.all_eq_true.mp hLead.2
    rw [List.cons_append, runs, if_pos hLead.1, List.takeWhile_append_of_pos hRest,
      List.dropWhile_append_of_pos hRest, List.cons_append]

theorem all_join {keep : Char → Bool} {separator : Text} {parts : List Text}
    (hSeparator : separator.all keep = true) (hParts : ∀ part ∈ parts, part.all keep = true) :
    (join separator parts).all keep = true := by
  rw [join]
  induction parts with
  | nil => rfl
  | cons first parts ih =>
    have hFirst := hParts first List.mem_cons_self
    cases parts with
    | nil =>
      rw [List.intercalate_singleton]
      exact hFirst
    | cons second parts =>
      rw [List.intercalate_cons_cons, List.all_append, List.all_append, hFirst, hSeparator,
        ih fun part hPart => hParts part (List.mem_cons_of_mem first hPart)]
      rfl

theorem prefix_join (separator first : Text) (parts : List Text) :
    first <+: join separator (first :: parts) := by
  cases parts with
  | nil =>
    have hOne : join separator [first] = first := List.intercalate_singleton
    exact ⟨[], by rw [hOne, List.append_nil]⟩
  | cons second parts =>
    rw [join, List.intercalate_cons_cons, List.append_assoc]
    exact List.prefix_append _ _

theorem all_slugify (s : Text) : (slugify s).all isStemChar = true := by
  refine all_join rfl fun word hWord => ?_
  refine List.all_eq_true.mpr fun c hc => isStemChar_of_isSlugChar ?_
  exact List.all_eq_true.mp (of_mem_runs hWord) c hc

/-- A slug begins as its text does, as long as the text begins with slug characters. -/
theorem prefix_slugify {lead low : Text} (hLow : lead.flatMap lowered = low)
    (hSlug : low.all isSlugChar = true) (s : Text) : low <+: slugify (lead ++ s) := by
  cases low with
  | nil => exact List.nil_prefix
  | cons c low =>
    rw [slugify, slugWords, List.flatMap_append, hLow, runs_append hSlug (List.cons_ne_nil c low)]
    exact (List.prefix_append _ _).trans (prefix_join _ _ _)

end Text

namespace Identity

theorem isSlugChar_digit {d : Nat} (h : d < 36) : isSlugChar (base36.digit d) = true := by
  have hAll : ∀ d : Fin 36, isSlugChar (base36.digit d) = true := by decide
  exact hAll ⟨d, h⟩

theorem all_base36 (n : Nat) : (base36 n).all isSlugChar = true := by
  induction n using Nat.strongRecOn with
  | ind n ih =>
    rw [base36]
    split
    · rename_i hSmall
      simpa using isSlugChar_digit hSmall
    · rw [List.all_append, ih (n / 36) (by omega), List.all_cons,
        isSlugChar_digit (Nat.mod_lt n (by decide))]
      rfl

theorem all_shortHash (s : Text) : (shortHash s).all isStemChar = true := by
  refine List.all_eq_true.mpr fun c hc => isStemChar_of_isSlugChar ?_
  exact List.all_eq_true.mp (all_base36 _) c (List.mem_of_mem_take hc)

end Identity

end DesignParams
