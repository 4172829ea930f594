import DesignParams.Proofs.Parameter.Order
import DesignParams.Proofs.Project.Identity

/-!
# The order of a scan

No two parameters of a scan agree in group, label, selector and id, not even where two of them have
the same id. So a scan lists its parameters in the one order that their keys allow, whatever order
they are found in.
-/
set_option autoImplicit false

namespace DesignParams

namespace Theme

theorem prefix_base (e : Entry) : e.inSection.key.flatMap lowered <+: base e := by
  have hSlug : (e.inSection.key.flatMap lowered).all isSlugChar = true := by
    cases e.inSection <;> decide
  exact Text.prefix_slugify rfl hSlug _

theorem section_eq_of_prefix {s t : Section} {name : Text}
    (hs : s.key.flatMap lowered <+: name) (ht : t.key.flatMap lowered <+: name) : s = t := by
  rcases List.prefix_or_prefix_of_prefix hs ht with h | h
  · revert h
    cases s <;> cases t <;> decide
  · revert h
    cases s <;> cases t <;> decide

theorem of_key_eq {file : Path} {e f : Entry} {m n : Nat}
    (h : (parameter file e (base e ++ suffix m)).key =
      (parameter file f (base f ++ suffix n)).key) :
    (e.inSection, e.key) = (f.inSection, f.key) := by
  obtain ⟨-, -, hSelector, hId⟩ := Parameter.key_eq_iff.mp h
  have hName : base e ++ suffix m = base f ++ suffix n := List.append_cancel_left hId
  have hSection := section_eq_of_prefix ((prefix_base e).trans (List.prefix_append _ _))
    (hName ▸ (prefix_base f).trans (List.prefix_append _ _))
  exact Prod.ext hSection hSelector

theorem nodup_key_named (file : Path) (bases : List Text) {entries : List Entry}
    (h : (entries.map fun e => (e.inSection, e.key)).Nodup) :
    ((named file bases entries).map Parameter.key).Nodup := by
  induction entries generalizing bases with
  | nil => exact List.nodup_nil
  | cons e rest ih =>
    rw [List.map_cons, List.nodup_cons] at h
    rw [named, List.map_cons, List.nodup_cons]
    refine ⟨fun hMem => h.1 ?_, ih _ h.2⟩
    obtain ⟨p, hp, hKey⟩ := List.mem_map.mp hMem
    obtain ⟨f, hf, count, rfl⟩ := exists_of_mem_named hp
    exact List.mem_map.mpr ⟨f, hf, of_key_eq hKey⟩

theorem nodup_selected (source : Text) (limit : Nat) :
    ((selected source limit).map fun e => (e.inSection, e.key)).Nodup := by
  rw [selected, distinct_eq_unseen, List.map_take]
  exact (nodup_map_unseen [] _).take

end Theme

namespace Project

theorem nodup_themeEntries (project : Project) (limit : Nat) :
    ((project.themeEntries limit).map fun e => (e.inSection, e.key)).Nodup := by
  rw [themeEntries]
  split
  · exact List.nodup_nil
  · split
    · exact List.nodup_nil
    · exact Theme.nodup_selected _ limit

theorem nodup_key_extracted (project : Project) (selected : Option Path) (options : ScanOptions) :
    ((project.extracted selected options).map Parameter.key).Nodup := by
  obtain ⟨file, declarations, themeFile, hExtracted⟩ := exists_extracted project selected options
  have hIds : ((Stylesheet.named file [] declarations).map (·.id)).Nodup := by
    rw [(Stylesheet.map_named file [] declarations).1]
    exact (Stylesheet.nodup_stems file [] declarations).1.map fun _ _ h => List.append_cancel_left h
  rw [hExtracted, List.map_append, List.nodup_append']
  refine ⟨?_, Theme.nodup_key_named themeFile [] (nodup_themeEntries project _), ?_⟩
  · refine List.pairwise_map.mpr ((List.pairwise_map.mp hIds).imp fun hApart hKey => ?_)
    exact hApart (Parameter.key_eq_iff.mp hKey).2.2.2
  · intro key hSheet hTheme
    obtain ⟨p, hp, rfl⟩ := List.mem_map.mp hSheet
    obtain ⟨q, hq, hKey⟩ := List.mem_map.mp hTheme
    obtain ⟨s, hStem, hpId, -⟩ := Stylesheet.exists_stem_of_mem_named hp
    obtain ⟨e, -, count, rfl⟩ := Theme.exists_of_mem_named hq
    have hId : "rig.tw.".toList ++ (Theme.base e ++ Theme.suffix count) = p.id :=
      (Parameter.key_eq_iff.mp hKey).2.2.2
    rw [hpId] at hId
    exact Stylesheet.stem_ne_theme hStem '.' _ (List.append_cancel_left hId.symm)

/-- The parameters of a scan stand strictly in the order of their keys, by which any two of them can
be told apart, and sorting what was found in any other order gives the same scan. -/
theorem pairwise_order_scanWith (project : Project) (selected : Option Path)
    (options : ScanOptions) :
    (∀ p q : Parameter, Parameter.order p q = .lt ↔ p.key < q.key) ∧
      (project.scanWith selected options).params.Pairwise (fun p q => Parameter.order p q = .lt) ∧
      IsStrictTotalOrder {p // p ∈ (project.scanWith selected options).params}
        (fun p q => Parameter.order p q = .lt) ∧
      ∀ params, params.Perm (project.extracted selected options) →
        { project.scanWith selected options with params := Parameter.sort params } =
          project.scanWith selected options := by
  have hKeys := nodup_key_extracted project selected options
  have hParams := params_scanWith project selected options
  have hSorted : ((project.scanWith selected options).params.map Parameter.key).Nodup := by
    rw [hParams]
    exact ((Parameter.perm_sort _).map _).nodup_iff.mpr hKeys
  refine ⟨fun p q => Parameter.order_eq_lt_iff, ?_, Parameter.isStrictTotalOrder_order hSorted, ?_⟩
  · rw [hParams]
    exact (Parameter.pairwise_lt_sort hKeys).imp Parameter.order_eq_lt_iff.mpr
  · intro params hPerm
    rw [Parameter.sort_eq_of_perm hKeys hPerm, ← hParams]

/-- Two colors with the same id, found in the opposite order. -/
theorem pairwise_order_scanWith_colors :
    let file := Path.ofString "a.css"
    let project := ofFiles (.ofString "/site") [(file, "p \x7B margin: 4px \x7D".toList),
      (.ofString "tailwind.config.js", "module.exports = \x7B theme: \x7B colors: \x7B
        'a-b': '#fff', a_b: '#000', 'a-b-2': '#111' \x7D \x7D \x7D".toList)]
    let params := (project.extracted (some file) .default).reverse
    params.map (·.id) = ["rig.tw.colors-a-b-2".toList, "rig.tw.colors-a-b-2".toList,
        "rig.tw.colors-a-b".toList, "rig.spacing-margin-wxfo3d".toList] ∧
      params.Perm (project.extracted (some file) .default) ∧
      { project.scanWith (some file) .default with params := Parameter.sort params } =
        project.scanWith (some file) .default := by
  intro file project params
  have hPerm : params.Perm (project.extracted (some file) .default) := List.reverse_perm _
  obtain ⟨-, -, -, hSame⟩ := pairwise_order_scanWith project (some file) .default
  exact ⟨by decide +kernel, hPerm, hSame params hPerm⟩

end Project

end DesignParams
