import DesignParams.Proofs.Theme.Listing
import DesignParams.Proofs.Text.Cut
import DesignParams.Proofs.Text.Slug
import Mathlib.Data.List.Nodup

/-!
# Names of theme parameters

An entry is named by the slug of its section and key, and from the second entry of a slug on also
by the number of the entry among those of the slug. Such a numbered name can be the slug of another
entry. When it is not, all names are distinct.
-/
set_option autoImplicit false

namespace DesignParams

namespace Theme

/-! ## Slugs and numbers -/

/-- The slugs in order, each with the count of equal ones before it. -/
def occurrences : List Text → List Text → List (Text × Nat)
  | _, [] => []
  | earlier, b :: rest => (b, earlier.count b) :: occurrences (b :: earlier) rest

def nameOf (occurrence : Text × Nat) : Text :=
  occurrence.1 ++ suffix occurrence.2

theorem mem_occurrences_iff {earlier bases : List Text} {b : Text} {k : Nat} :
    (b, k) ∈ occurrences earlier bases ↔
      earlier.count b ≤ k ∧ k < earlier.count b + bases.count b := by
  induction bases generalizing earlier with
  | nil =>
    rw [occurrences, List.count_nil]
    simp only [List.not_mem_nil, false_iff]
    omega
  | cons first rest ih =>
    rw [occurrences, List.mem_cons, ih, Prod.mk.injEq]
    by_cases hFirst : b = first
    · subst hFirst
      simp only [List.count_cons_self, true_and]
      omega
    · have hOther : ¬ first = b := fun h => hFirst h.symm
      simp only [List.count_cons_of_ne hOther, hFirst, false_and, false_or]

theorem nodup_occurrences (earlier bases : List Text) : (occurrences earlier bases).Nodup := by
  induction bases generalizing earlier with
  | nil => exact List.nodup_nil
  | cons first rest ih =>
    rw [occurrences, List.nodup_cons]
    refine ⟨fun hMem => ?_, ih (first :: earlier)⟩
    have hLow := (mem_occurrences_iff.mp hMem).1
    rw [List.count_cons_self] at hLow
    omega

theorem dash_not_mem_ofNat (n : Nat) : '-' ∉ Text.ofNat n := by
  intro hMem
  exact absurd (List.all_eq_true.mp (Text.all_ofNat n) '-' hMem) (by decide)

/-- A number at the end of a name can be told from the slug in front of it. -/
theorem append_number_inj {b b' : Text} {m n : Nat}
    (h : b ++ '-' :: Text.ofNat m = b' ++ '-' :: Text.ofNat n) : b = b' ∧ m = n := by
  obtain ⟨hBase, hDigits⟩ :=
    Text.append_cons_inj (dash_not_mem_ofNat m) (dash_not_mem_ofNat n) h
  exact ⟨hBase, Text.ofNat_injective hDigits⟩

/-- Is no slug the numbered name of another one? -/
def SeparateBases (bases : List Text) : Prop :=
  ∀ b n, 2 ≤ n → n ≤ bases.count b → b ++ '-' :: Text.ofNat n ∉ bases

theorem nameOf_injOn_iff {bases : List Text} :
    (∀ x ∈ occurrences [] bases, ∀ y ∈ occurrences [] bases, nameOf x = nameOf y → x = y) ↔
      SeparateBases bases := by
  have hMem {b : Text} {k : Nat} : (b, k) ∈ occurrences [] bases ↔ k < bases.count b := by
    rw [mem_occurrences_iff, List.count_nil]
    omega
  constructor
  · intro hInj b n hLow hHigh hBase
    have hFirst : (b ++ '-' :: Text.ofNat n, 0) ∈ occurrences [] bases :=
      hMem.mpr (List.count_pos_iff.mpr hBase)
    have hNumbered : (b, n - 1) ∈ occurrences [] bases := hMem.mpr (by omega)
    have hSame : nameOf (b ++ '-' :: Text.ofNat n, 0) = nameOf (b, n - 1) := by
      have hPositive : ¬ n - 1 = 0 := by omega
      have hNumber : n - 1 + 1 = n := by omega
      simp only [nameOf, suffix, ↓reduceIte, hPositive, hNumber, List.append_nil]
    have hEq := congrArg Prod.snd (hInj _ hFirst _ hNumbered hSame)
    simp only at hEq
    omega
  · rintro hSeparate ⟨b, k⟩ hx ⟨b', k'⟩ hy hName
    rw [hMem] at hx hy
    simp only [nameOf, suffix] at hName
    by_cases hk : k = 0
    · by_cases hk' : k' = 0
      · rw [if_pos hk, if_pos hk', List.append_nil, List.append_nil] at hName
        rw [hName, hk, hk']
      · rw [if_pos hk, if_neg hk', List.append_nil] at hName
        refine absurd ?_ (hSeparate b' (k' + 1) (by omega) (by omega))
        rw [← hName]
        exact List.count_pos_iff.mp (by omega)
    · by_cases hk' : k' = 0
      · rw [if_neg hk, if_pos hk', List.append_nil] at hName
        refine absurd ?_ (hSeparate b (k + 1) (by omega) (by omega))
        rw [hName]
        exact List.count_pos_iff.mp (by omega)
      · rw [if_neg hk, if_neg hk'] at hName
        obtain ⟨hBase, hNumber⟩ := append_number_inj hName
        rw [hBase, Nat.add_right_cancel hNumber]

/-- The names are distinct exactly when no slug is the numbered name of another one. -/
theorem nodup_names_iff (bases : List Text) :
    ((occurrences [] bases).map nameOf).Nodup ↔ SeparateBases bases := by
  rw [List.nodup_map_iff_inj_on (nodup_occurrences [] bases), nameOf_injOn_iff]

/-! ## Parameters under their names -/

def Separate (entries : List Entry) : Prop :=
  SeparateBases (entries.map base)

theorem map_named (file : Path) (earlier : List Text) (entries : List Entry) :
    (named file earlier entries).map (·.id) =
        ((occurrences earlier (entries.map base)).map nameOf).map ("rig.tw.".toList ++ ·) ∧
      (named file earlier entries).map (·.customProperty) =
        ((occurrences earlier (entries.map base)).map nameOf).map ("--rig-tw-".toList ++ ·) := by
  induction entries generalizing earlier with
  | nil => exact ⟨rfl, rfl⟩
  | cons e rest ih =>
    obtain ⟨hId, hName⟩ := ih (base e :: earlier)
    simp only [named, List.map_cons, occurrences]
    rw [hId, hName]
    exact ⟨rfl, rfl⟩

theorem take_named (file : Path) (earlier : List Text) (entries : List Entry) (limit : Nat) :
    (named file earlier entries).take limit = named file earlier (entries.take limit) := by
  induction entries generalizing earlier limit with
  | nil => simp [named]
  | cons e rest ih =>
    cases limit with
    | zero => rfl
    | succ limit =>
      rw [named, List.take_succ_cons, List.take_succ_cons, named, ih]

def selected (source : Text) (limit : Nat) : List Entry :=
  (distinct [] (allEntries source)).take limit

theorem scan_eq_named (source : Text) (file : Path) (limit : Nat) :
    scan source file limit = named file [] (selected source limit) := by
  rw [scan_eq_take, take_named, selected]

theorem exists_of_mem_named {file : Path} {earlier : List Text} {entries : List Entry}
    {p : Parameter} (h : p ∈ named file earlier entries) :
    ∃ e ∈ entries, ∃ count, p = parameter file e (base e ++ suffix count) := by
  induction entries generalizing earlier with
  | nil => cases h
  | cons e rest ih =>
    rcases List.mem_cons.mp h with rfl | h
    · exact ⟨e, List.mem_cons_self, _, rfl⟩
    · obtain ⟨f, hf, hCount⟩ := ih h
      exact ⟨f, List.mem_cons_of_mem e hf, hCount⟩

theorem isGenerated_of_mem_named {file : Path} {earlier : List Text} {entries : List Entry}
    {p : Parameter} (h : p ∈ named file earlier entries) : IsGenerated p.customProperty := by
  obtain ⟨e, -, count, rfl⟩ := exists_of_mem_named h
  refine ⟨"tw-".toList ++ (base e ++ suffix count), by simp, ?_, rfl⟩
  have hSuffix : (suffix count).all isStemChar = true := by
    rw [suffix]
    split
    · rfl
    · rw [List.all_cons, Bool.and_eq_true]
      refine ⟨rfl, List.all_eq_true.mpr fun c hc => ?_⟩
      exact isStemChar_of_isSlugChar
        (isSlugChar_of_isAsciiDigit (List.all_eq_true.mp (Text.all_ofNat _) c hc))
  have hBase : (base e).all isStemChar = true := Text.all_slugify _
  rw [List.all_append, List.all_append, hBase, hSuffix]
  rfl

end Theme

end DesignParams
