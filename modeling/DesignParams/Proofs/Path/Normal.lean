import DesignParams.Path
import DesignParams.Proofs.Text.Join
import Mathlib.Data.List.TakeWhile

/-!
# Normal paths

A path in normal form is a list of names with a slash between each two, so two such paths are the
same file only if they are the same text. Every path that has a normal form has one that is normal.
-/
set_option autoImplicit false

namespace DesignParams

namespace Path

structure IsName (s : Text) : Prop where
  counted : isCounted s = true
  ne_parent : s ≠ ['.', '.']
  slash_not_mem : '/' ∉ s

theorem IsName.ofSegment_eq {s : Text} (h : IsName s) : Component.ofSegment s = .name s := by
  rw [Component.ofSegment.eq_def]
  split
  · exact absurd rfl h.ne_parent
  · rfl

def IsNormal (p : Path) : Prop :=
  p.normalize? = some p

instance : DecidablePred IsNormal := fun p =>
  inferInstanceAs (Decidable (p.normalize? = some p))

section Names

variable {names : List Text}

theorem isAbsolute_ofNames (hNonempty : names ≠ []) (hNames : ∀ s ∈ names, IsName s) :
    (ofNames names).isAbsolute = false := by
  cases names with
  | nil => exact absurd rfl hNonempty
  | cons first names =>
    have hFirst := hNames first List.mem_cons_self
    obtain ⟨c, first, rfl⟩ := List.exists_cons_of_ne_nil (show first ≠ [] from fun h => by
      have := hFirst.counted
      simp [h, isCounted] at this)
    have hSlash : c ≠ '/' := fun h => hFirst.slash_not_mem (h ▸ List.mem_cons_self)
    obtain ⟨rest, hRest⟩ : ∃ rest, Text.join ['/'] ((c :: first) :: names) = c :: rest := by
      cases names with
      | nil => exact ⟨first, Text.join_singleton _ _⟩
      | cons second names => exact ⟨_, Text.join_cons_cons _ _ _ _⟩
    simp [isAbsolute, ofNames, hRest, hSlash]

theorem components_ofNames (hNonempty : names ≠ []) (hNames : ∀ s ∈ names, IsName s) :
    (ofNames names).components = names.map .name := by
  have hSplit : Text.splitOn '/' (ofNames names).text = names :=
    Text.splitOn_join hNonempty fun s hs => (hNames s hs).slash_not_mem
  have hSegments : (ofNames names).segments = names := by
    rw [segments, hSplit]
    exact List.filter_eq_self.mpr fun s hs => (hNames s hs).counted
  have hRelative := isAbsolute_ofNames hNonempty hNames
  have hCurrent : names.head? ≠ some ['.'] := by
    intro h
    have hFirst := hNames _ (List.mem_of_head? h)
    exact absurd hFirst.counted (by decide)
  have hSegment : ∀ s ∈ names, Component.ofSegment s = .name s :=
    fun s hs => (hNames s hs).ofSegment_eq
  rw [components, hRelative, hSplit, if_neg (by decide), if_neg hCurrent, hSegments,
    List.nil_append, List.map_congr_left hSegment]

theorem cancel_names (names before : List Text) :
    cancel (names.map .name) before = some (names.reverse ++ before) := by
  induction names generalizing before with
  | nil => rfl
  | cons s names ih => rw [List.map_cons, cancel, ih, List.reverse_cons, List.append_assoc]; rfl

theorem isNormal_ofNames (hNonempty : names ≠ []) (hNames : ∀ s ∈ names, IsName s) :
    IsNormal (ofNames names) := by
  rw [IsNormal, normalize?, components_ofNames hNonempty hNames, cancel_names, List.append_nil]
  split
  · rename_i h
    cases h
  · rename_i h
    exact absurd (List.reverse_eq_nil_iff.mp (Option.some.inj h)) hNonempty
  · rename_i h
    obtain rfl := Option.some.inj h
    rw [List.reverse_reverse]

end Names

theorem isName_of_mem_components {p : Path} {s : Text} (h : .name s ∈ p.components) : IsName s := by
  have hSegment : .name s ∈ p.segments.map Component.ofSegment := by
    rw [components] at h
    split at h
    · simpa using h
    · split at h
      · simpa using h
      · simpa using h
  obtain ⟨t, ht, hName⟩ := List.mem_map.mp hSegment
  obtain ⟨hPart, hCounted⟩ := List.mem_filter.mp ht
  rw [Component.ofSegment.eq_def] at hName
  split at hName
  · cases hName
  · rename_i hParent
    obtain rfl := Component.name.inj hName
    exact ⟨hCounted, hParent, Text.mark_not_mem_of_mem_splitOn hPart⟩

theorem isName_of_cancel {components : List Component} {before names : List Text}
    (h : cancel components before = some names)
    (hComponents : ∀ s, .name s ∈ components → IsName s) (hBefore : ∀ s ∈ before, IsName s) :
    ∀ s ∈ names, IsName s := by
  fun_induction cancel components before with
  | case1 before =>
    obtain rfl := Option.some.inj h
    exact hBefore
  | case2 before rest ih =>
    exact ih h (fun s hs => hComponents s (List.mem_cons_of_mem _ hs)) hBefore
  | case3 before rest ih =>
    exact ih h (fun s hs => hComponents s (List.mem_cons_of_mem _ hs)) hBefore
  | case4 => cases h
  | case5 rest last before ih =>
    exact ih h (fun s hs => hComponents s (List.mem_cons_of_mem _ hs))
      fun s hs => hBefore s (List.mem_cons_of_mem _ hs)
  | case6 before name rest ih =>
    refine ih h (fun s hs => hComponents s (List.mem_cons_of_mem _ hs)) fun s hs => ?_
    rcases List.mem_cons.mp hs with rfl | hs
    · exact hComponents _ List.mem_cons_self
    · exact hBefore s hs

theorem exists_names_of_normalize? {p q : Path} (h : p.normalize? = some q) :
    ∃ names, names ≠ [] ∧ (∀ s ∈ names, IsName s) ∧ q = ofNames names := by
  rw [normalize?] at h
  split at h
  · cases h
  · cases h
  · rename_i names hNonempty hCancel
    refine ⟨names.reverse, ?_, ?_, (Option.some.inj h).symm⟩
    · intro hNil
      exact hNonempty (List.reverse_eq_nil_iff.mp hNil)
    · intro s hs
      exact isName_of_cancel hCancel (fun s => isName_of_mem_components) (fun s hs => by cases hs) s
        (List.mem_reverse.mp hs)

theorem isNormal_of_normalize? {p q : Path} (h : p.normalize? = some q) : IsNormal q := by
  obtain ⟨names, hNonempty, hNames, rfl⟩ := exists_names_of_normalize? h
  exact isNormal_ofNames hNonempty hNames

theorem IsNormal.exists_names {p : Path} (h : IsNormal p) :
    ∃ names, names ≠ [] ∧ (∀ s ∈ names, IsName s) ∧ p = ofNames names :=
  exists_names_of_normalize? h

/-- Normal paths name the same file only if they are the same text. -/
theorem IsNormal.same_iff {p q : Path} (hp : IsNormal p) (hq : IsNormal q) :
    same p q = true ↔ p = q := by
  constructor
  · intro h
    obtain ⟨names, hNonempty, hNames, rfl⟩ := hp.exists_names
    obtain ⟨names', hNonempty', hNames', rfl⟩ := hq.exists_names
    rw [same, beq_iff_eq, components_ofNames hNonempty hNames,
      components_ofNames hNonempty' hNames'] at h
    rw [List.map_injective_iff.mpr (fun _ _ => Component.name.inj) h]
  · rintro rfl
    rw [same, beq_iff_eq]

theorem IsNormal.extension_suffix {p : Path} (h : IsNormal p) {e : Text}
    (hExtension : p.extension? = some e) : '.' :: e <:+ p.text := by
  obtain ⟨names, hNonempty, hNames, rfl⟩ := h.exists_names
  obtain ⟨last, hLast⟩ : ∃ last, names.getLast? = some last :=
    ⟨_, List.getLast?_eq_some_getLast hNonempty⟩
  have hName : (ofNames names).fileName? = some last := by
    rw [fileName?, components_ofNames hNonempty hNames, List.getLast?_map, hLast]
    rfl
  rw [extension?, hName] at hExtension
  simp only [Option.ite_none_right_eq_some, Option.some.injEq] at hExtension
  obtain ⟨hLength, rfl⟩ := hExtension
  refine List.IsSuffix.trans ?_ (Text.suffix_join hLast)
  rw [← List.reverse_prefix, List.reverse_cons, List.reverse_reverse]
  -- The extension is what stands behind the last dot, so it is read from the end.
  have hSplit := List.takeWhile_append_dropWhile (p := (· ≠ '.')) (l := last.reverse)
  cases hRest : last.reverse.dropWhile (· ≠ '.') with
  | nil =>
    have := congrArg List.length hSplit
    rw [hRest, List.append_nil, List.length_reverse] at this
    omega
  | cons c rest =>
    obtain rfl : c = '.' := by
      have hDot := List.head?_dropWhile_not (· ≠ '.') last.reverse
      rw [hRest] at hDot
      simpa using hDot
    rw [hRest] at hSplit
    exact ⟨rest, by simpa using hSplit⟩

end Path

end DesignParams
