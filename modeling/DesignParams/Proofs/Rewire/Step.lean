import DesignParams.Proofs.Rewire.Rigged

/-!
# Steps of a run

A step scans a stylesheet and rewires it. What it writes behind its block is what stood there, with
references to the parameters it found; a name that is referred to is declared by the new block when
the step found it, or when the line of the old block that declared it is read back.
-/
set_option autoImplicit false

namespace DesignParams

namespace Rewire

structure Step where
  theme : Text
  themeFile : Path
  limit : Nat
  overrides : Overrides

namespace Step

def params (step : Step) (file : Path) (css : Text) : List Parameter :=
  Parameter.sort (Stylesheet.scan css file ++ Theme.scan step.theme step.themeFile step.limit)

def apply (step : Step) (file : Path) (css : Text) : Text :=
  rewire css (step.params file css) step.overrides

def written (step : Step) (file : Path) (css : Text) : List RootBlock.Item :=
  Rewire.written css (step.params file css) step.overrides

end Step

/-- Are the overrides of a step single lines, and the values of its theme enclosed? -/
structure Step.IsSound (step : Step) : Prop where
  overrides : ∀ id text, (id, Value.text text) ∈ step.overrides →
    RootBlock.Unmarked text ∧ '\n' ∉ text
  theme : ∀ p ∈ Theme.scan step.theme step.themeFile step.limit, RootBlock.Enclosed p.source.value

/-! ## One step -/

namespace Step

variable {step : Step} {file : Path} {css : Text} {p : Parameter}

theorem mem_params_iff :
    p ∈ step.params file css ↔
      p ∈ Stylesheet.scan css file ∨ p ∈ Theme.scan step.theme step.themeFile step.limit := by
  rw [params, Parameter.sort, List.mem_mergeSort, List.mem_append]

theorem isGenerated_of_mem (h : p ∈ step.params file css) : IsGenerated p.customProperty := by
  rcases mem_params_iff.mp h with h | h
  · exact Stylesheet.isGenerated_of_mem_scan h
  · rw [Theme.scan_eq_named] at h
    exact Theme.isGenerated_of_mem_named h

theorem isLiteral_of_mem (h : p ∈ step.params file css) : p.IsLiteral := by
  rcases mem_params_iff.mp h with h | h
  · exact Stylesheet.isLiteral_of_mem_named h
  · rw [Theme.scan_eq_named] at h
    exact Theme.isLiteral_of_mem_named h

theorem mem_written_iff {name : Text} :
    name ∈ (step.written file css).map (·.customProperty) ↔
      name ∈ (step.params file css).map (·.customProperty) ∨
        name ∈ (RootBlock.carried css (step.params file css)).map (·.customProperty) :=
  Rewire.mem_written_iff

theorem finds_params (hTheme : ∀ p ∈ Theme.scan step.theme step.themeFile step.limit,
    RootBlock.Enclosed p.source.value) : Finds css file (step.params file css) where
  covers p hp := mem_params_iff.mpr (.inl hp)
  others p hp := (mem_params_iff.mp hp).imp_right (hTheme p)
  names p hp := isGenerated_of_mem hp
  literals p hp := isLiteral_of_mem hp
  replacements := by
    have hNone : (Theme.scan step.theme step.themeFile step.limit).filterMap
        Replacement.ofParameter? = [] := by
      refine List.filterMap_eq_nil_iff.mpr fun q hq => ?_
      rw [Theme.scan_eq_named] at hq
      obtain ⟨e, -, count, rfl⟩ := Theme.exists_of_mem_named hq
      rfl
    have hSorted : (step.params file css).Perm
        (Stylesheet.scan css file ++ Theme.scan step.theme step.themeFile step.limit) :=
      List.mergeSort_perm _ _
    have hReplacements := hSorted.filterMap Replacement.ofParameter?
    rwa [List.filterMap_append, hNone, List.append_nil] at hReplacements

end Step

section

variable {css : Text} {items : List RootBlock.Item} {after : Text}

/-- A step writes a new block before what stood behind the old one, with references to the
parameters that it found. -/
theorem IsRigged.exists_apply (h : IsRigged css items after) {step : Step} {file : Path}
    (hStep : step.IsSound)
    (hApart : ∀ p ∈ Stylesheet.scan css file, IsApart css p) :
    ∃ next, IsRigged (step.apply file css) (step.written file css) next ∧
      ∀ name ∈ RootBlock.references next, name ∈ RootBlock.references after ∨
        name ∈ (step.params file css).map (·.customProperty) := by
  obtain ⟨next, hNext, hExchanged⟩ :=
    h.exists_rewire (Step.finds_params hStep.theme) hStep.overrides hApart
  refine ⟨next, hNext, fun name hName => ?_⟩
  rcases hExchanged.references h.neat hName with hOld | hNew
  · exact .inl hOld
  · right
    obtain ⟨p, hp, rfl⟩ := List.mem_map.mp hNew
    exact List.mem_map_of_mem (Step.mem_params_iff.mpr (.inl hp))

theorem IsRigged.isBound_apply_iff (h : IsRigged css items after) {step : Step} {file : Path}
    (hStep : step.IsSound)
    (hApart : ∀ p ∈ Stylesheet.scan css file, IsApart css p) :
    IsBound (step.apply file css) ↔
      ∀ name ∈ RootBlock.references (Rewire.outside (step.apply file css)),
        name ∈ (step.params file css).map (·.customProperty) ∨
          ∃ item ∈ items, item.customProperty = name ∧ item.IsLegible := by
  obtain ⟨next, hNext, hReferences⟩ := h.exists_apply hStep hApart
  rw [hNext.isBound_iff, hNext.outside]
  refine forall₂_congr fun name hName => ?_
  rw [Step.mem_written_iff, h.mem_carried_iff]
  constructor
  · rintro (hFound | ⟨-, -, hRead⟩)
    · exact .inl hFound
    · exact .inr hRead
  · rintro (hFound | hRead)
    · exact .inl hFound
    · by_cases hFound : name ∈ (step.params file css).map (·.customProperty)
      · exact .inl hFound
      · rcases hReferences name hName with hOld | hNew
        · exact .inr ⟨hOld, hFound, hRead⟩
        · exact absurd hNew hFound

theorem exists_apply {file : Path} {step : Step} (hUnmarked : RootBlock.Unmarked css)
    (hLead : ¬ RootBlock.lead <:+: css) (hStep : step.IsSound) :
    ∃ next, IsRigged (step.apply file css) (step.written file css) next ∧
      ∀ name ∈ RootBlock.references next,
        name ∈ (step.params file css).map (·.customProperty) := by
  obtain ⟨t, -, hRigged, hNames⟩ := exists_rewire hUnmarked hLead
    (@Step.finds_params step file css hStep.theme) hStep.overrides
  refine ⟨'\n' :: '\n' :: t, ?_, fun name hName => ?_⟩
  · rw [Step.written, written, carried_eq_nil hUnmarked, List.map_nil, List.append_nil]
    exact hRigged
  · obtain ⟨p, hp, rfl⟩ := List.mem_map.mp (hNames name hName)
    exact List.mem_map_of_mem (Step.mem_params_iff.mpr (.inl hp))

end

end Rewire

end DesignParams
