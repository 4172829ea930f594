import DesignParams.Stylesheet.Scan
import DesignParams.Proofs.Text.Slug
import Mathlib.Data.List.Forall2
import Mathlib.Data.List.Nodup
import Mathlib.Data.List.Perm.Subperm

/-!
# Names of stylesheet parameters

A stem begins with the name of a group, and a stem that is taken is followed by a number. Some
number is always free, since more of them are tried than there are stems, so no two parameters of
a stylesheet share a name.
-/
set_option autoImplicit false

namespace DesignParams

namespace Stylesheet

theorem flatMap_lowered_groupName (g : Group) :
    g.name.flatMap lowered = Text.asciiLowered g.name ∧
      (Text.asciiLowered g.name).all isSlugChar = true := by
  cases g <;> decide

theorem prefix_stem (file : Path) (d : Declaration) :
    Text.asciiLowered (Property.group d.property).name <+: stem file d := by
  obtain ⟨hLow, hSlug⟩ := flatMap_lowered_groupName (Property.group d.property)
  exact (Text.prefix_slugify hLow hSlug _).trans (List.prefix_append _ _)

theorem all_stem (file : Path) (d : Declaration) : (stem file d).all isStemChar = true := by
  rw [stem, List.all_append, Text.all_slugify, List.all_cons, Identity.all_shortHash]
  rfl

/-! ## Stems that are not used yet -/

theorem nodup_numbered (s : Text) (count : Nat) :
    ((List.range count).map fun n => s ++ '-' :: Text.ofNat (n + 2)).Nodup := by
  refine List.Nodup.map (fun m n h => ?_) List.nodup_range
  have hDigits := (List.cons.inj (List.append_cancel_left h)).2
  have hSame := Text.ofNat_injective hDigits
  omega

theorem unusedStem_eq (used : List Text) (s : Text) :
    unusedStem used s = s ∨ ∃ n, unusedStem used s = s ++ '-' :: Text.ofNat n := by
  rw [unusedStem]
  split
  · simp only
    cases hFind : ((List.range (used.length + 1)).map fun n => s ++ '-' :: Text.ofNat (n + 2)).find?
        (!used.contains ·) with
    | none => exact .inl rfl
    | some name =>
      obtain ⟨n, -, rfl⟩ := List.mem_map.mp (List.mem_of_find?_eq_some hFind)
      exact .inr ⟨n + 2, rfl⟩
  · exact .inl rfl

theorem unusedStem_not_mem (used : List Text) (s : Text) : unusedStem used s ∉ used := by
  rw [unusedStem]
  split
  · simp only
    cases hFind : ((List.range (used.length + 1)).map fun n => s ++ '-' :: Text.ofNat (n + 2)).find?
        (!used.contains ·) with
    | none =>
      -- There are more numbered stems than used ones.
      have hAll := List.find?_eq_none.mp hFind
      have hSubset : ((List.range (used.length + 1)).map fun n => s ++ '-' :: Text.ofNat (n + 2)) ⊆
          used := by
        intro name hName
        simpa using hAll name hName
      have hLength := (List.Nodup.subperm (nodup_numbered s (used.length + 1)) hSubset).length_le
      rw [List.length_map, List.length_range] at hLength
      omega
    | some name => simpa using List.find?_some hFind
  · rename_i hUnused
    simpa using hUnused

/-- The stems under which declarations are named in order, past the stems already used. -/
def stems (file : Path) : List Text → List Declaration → List Text
  | _, [] => []
  | used, d :: rest =>
    unusedStem used (stem file d) :: stems file (unusedStem used (stem file d) :: used) rest

theorem nodup_stems (file : Path) (used : List Text) (declarations : List Declaration) :
    (stems file used declarations).Nodup ∧ ∀ s ∈ stems file used declarations, s ∉ used := by
  induction declarations generalizing used with
  | nil => exact ⟨List.nodup_nil, fun s hs => by cases hs⟩
  | cons d rest ih =>
    obtain ⟨hRest, hFresh⟩ := ih (unusedStem used (stem file d) :: used)
    rw [stems, List.nodup_cons]
    refine ⟨⟨fun hMem => hFresh _ hMem List.mem_cons_self, hRest⟩, ?_⟩
    intro s hs
    rcases List.mem_cons.mp hs with rfl | hs
    · exact unusedStem_not_mem used _
    · exact fun hUsed => hFresh s hs (List.mem_cons_of_mem _ hUsed)

/-- Is the text a stem that a declaration can be named by? -/
structure IsStem (s : Text) : Prop where
  group : ∃ g : Group, Text.asciiLowered g.name <+: s
  chars : s.all isStemChar = true

theorem isStem_unusedStem (used : List Text) (file : Path) (d : Declaration) :
    IsStem (unusedStem used (stem file d)) := by
  have hPrefix := prefix_stem file d
  have hAll := all_stem file d
  rcases unusedStem_eq used (stem file d) with h | ⟨n, h⟩
  · rw [h]
    exact ⟨⟨_, hPrefix⟩, hAll⟩
  · have hDigits : (Text.ofNat n).all isStemChar = true := by
      refine List.all_eq_true.mpr fun c hc => isStemChar_of_isSlugChar (isSlugChar_of_isAsciiDigit ?_)
      exact List.all_eq_true.mp (Text.all_ofNat n) c hc
    rw [h]
    refine ⟨⟨_, hPrefix.trans (List.prefix_append _ _)⟩, ?_⟩
    rw [List.all_append, hAll, List.all_cons, hDigits]
    rfl

theorem isStem_of_mem {file : Path} {used : List Text} {declarations : List Declaration} {s : Text}
    (h : s ∈ stems file used declarations) : IsStem s := by
  induction declarations generalizing used with
  | nil => cases h
  | cons d rest ih =>
    rcases List.mem_cons.mp h with rfl | h
    · exact isStem_unusedStem used file d
    · exact ih h

theorem IsStem.isGenerated {s : Text} (h : IsStem s) : IsGenerated ("--rig-".toList ++ s) := by
  refine ⟨s, ?_, h.chars, rfl⟩
  rintro rfl
  obtain ⟨g, hPrefix⟩ := h.group
  have hEmpty := List.prefix_nil.mp hPrefix
  cases g <;> exact absurd hEmpty (by decide)

theorem stem_ne_theme {s : Text} (h : IsStem s) (c : Char) (name : Text) :
    s ≠ 't' :: 'w' :: c :: name := by
  rintro rfl
  obtain ⟨g, rest, hRest⟩ := h.group
  cases g <;> cases hRest

/-! ## The parameters under their names -/

/-- Is the parameter the one of a declaration, under some stem? -/
structure Describes (d : Declaration) (p : Parameter) : Prop where
  value : p.source.value = d.value
  start : p.source.start = d.start
  stop : p.source.stop = d.stop
  name : IsGenerated p.customProperty

theorem map_named (file : Path) (used : List Text) (declarations : List Declaration) :
    (named file used declarations).map (·.id) =
        (stems file used declarations).map ("rig.".toList ++ ·) ∧
      (named file used declarations).map (·.customProperty) =
        (stems file used declarations).map ("--rig-".toList ++ ·) := by
  induction declarations generalizing used with
  | nil => exact ⟨rfl, rfl⟩
  | cons d rest ih =>
    obtain ⟨hId, hName⟩ := ih (unusedStem used (stem file d) :: used)
    rw [named, stems]
    simp only [List.map_cons]
    rw [hId, hName]
    exact ⟨rfl, rfl⟩

theorem describes_named (file : Path) (used : List Text) (declarations : List Declaration) :
    List.Forall₂ Describes declarations (named file used declarations) := by
  induction declarations generalizing used with
  | nil => exact .nil
  | cons d rest ih =>
    exact .cons ⟨rfl, rfl, rfl, (isStem_unusedStem used file d).isGenerated⟩ (ih _)

theorem nodup_id_scan (css : Text) (file : Path) : ((scan css file).map (·.id)).Nodup := by
  rw [scan, (map_named _ _ _).1]
  exact List.Nodup.map (fun _ _ h => List.append_cancel_left h) (nodup_stems _ _ _).1

theorem nodup_customProperty_scan (css : Text) (file : Path) :
    ((scan css file).map (·.customProperty)).Nodup := by
  rw [scan, (map_named _ _ _).2]
  exact List.Nodup.map (fun _ _ h => List.append_cancel_left h) (nodup_stems _ _ _).1

theorem exists_stem_of_mem_named {file : Path} {used : List Text} {declarations : List Declaration}
    {p : Parameter} (h : p ∈ named file used declarations) :
    ∃ s, IsStem s ∧ p.id = "rig.".toList ++ s ∧ p.customProperty = "--rig-".toList ++ s := by
  induction declarations generalizing used with
  | nil => cases h
  | cons d rest ih =>
    rcases List.mem_cons.mp h with rfl | h
    · exact ⟨_, isStem_unusedStem used file d, rfl, rfl⟩
    · exact ih h

theorem isGenerated_of_mem_scan {css : Text} {file : Path} {p : Parameter} (h : p ∈ scan css file) :
    IsGenerated p.customProperty := by
  obtain ⟨s, hStem, -, hName⟩ := exists_stem_of_mem_named h
  rw [hName]
  exact hStem.isGenerated

theorem scan_nil (file : Path) : scan [] file = [] := by
  have hNone : Declaration.ofStylesheet [] = [] := by decide +kernel
  rw [scan, selected, hNone]
  rfl

end Stylesheet

end DesignParams
