import DesignParams.Proofs.Parameter.Rendered
import DesignParams.Proofs.Rewire.Mention

/-!
# Undoing a rewiring

Without its block, and with each reference replaced by the value that was found, a rewired
stylesheet is the stylesheet it was made from. A reference is recognised wherever it stands, since
nothing else in the text begins like a generated name, and no two parameters share one.
-/
set_option autoImplicit false

namespace DesignParams

namespace Rewire

/-! ## Restoring the values -/

/-- Replaces every reference to the parameters by the values they were found with. -/
def restore (params : List Parameter) (s : Text) : Text :=
  params.foldl (fun s p => Text.replaceAll (referenceTo p.customProperty) p.source.value s) s

/-- The stylesheet behind the closing sentinel and the blank line after it, with its values. -/
def unrewire? (params : List Parameter) (s : Text) : Option Text :=
  match Text.splitOnce? RootBlock.closing s with
  | none => none
  | some (_, rest) => (Text.after? "\n\n".toList rest).map (restore params)

/-- The references of woven parameters with distinct names give way to the values again. -/
theorem Woven.restore_eq {params : List Parameter} (hNames : (params.map (·.customProperty)).Nodup) :
    ∀ {offset : Nat} {s t : Text}, Woven offset s params t → ¬ RootBlock.lead <:+: s →
      restore params t = s := by
  induction params with
  | nil =>
    intro offset s t h _
    cases h
    rfl
  | cons p params ih =>
    rw [List.map_cons, List.nodup_cons] at hNames
    intro offset s t h hLead
    cases h with
    | @cons _ gap value rest rewired _ _ lead nonempty read start stop name tail =>
      have hGap : ¬ RootBlock.lead <:+: gap := fun hInfix => hLead (Text.infix_append_left hInfix _)
      have hRest : ¬ RootBlock.lead <:+: rest := fun hInfix =>
        hLead (Text.infix_append_right gap (Text.infix_append_right value hInfix))
      have hNonempty : referenceTo p.customProperty ≠ [] := by
        rw [referenceTo_eq]
        simp
      have hFirst : ¬ referenceTo p.customProperty <:+:
          gap ++ (referenceTo p.customProperty).dropLast := by
        have hClose : ')' ∉ ['v', 'a', 'r', '('] ++ p.customProperty := by
          simp [name.not_mem (c := ')') rfl]
        rw [referenceTo_eq_concat, List.dropLast_concat]
        intro hInfix
        have hInGap := Text.infix_of_infix_append_of_last hInfix hClose
        rw [← referenceTo_eq_concat] at hInGap
        exact hGap ((lead_infix_referenceTo name).trans hInGap)
      have hBehind : Text.replaceAll (referenceTo p.customProperty) p.source.value rewired = rewired := by
        refine Text.replaceAll_eq_self _ fun hInfix => ?_
        have hExchanged := tail.exchanged (List.Subset.refl params) []
        rcases hExchanged.infix_referenceTo name hInfix with hOld | hMem
        · exact hRest ((lead_infix_referenceTo name).trans hOld)
        · exact hNames.1 hMem
      have hTail : Woven offset (gap ++ (value ++ rest)) params (gap ++ (value ++ rewired)) := by
        refine Woven.prepend gap (Woven.prepend value ?_)
        exact tail
      rw [restore, List.foldl_cons, Text.replaceAll_append _ hNonempty hFirst, hBehind, read]
      exact ih hNames.2 hTail hLead

theorem Woven.infix_value {offset : Nat} {s t : Text} {params : List Parameter}
    (h : Woven offset s params t) {p : Parameter} (hp : p ∈ params) : p.source.value <:+: s := by
  obtain ⟨front, rest, rfl, -, -⟩ := h.exists_span hp
  exact Text.infix_append_right front (List.prefix_append _ rest).isInfix

theorem unmarked_of_all_quantity {s : Text} (h : s.all isQuantityChar = true) :
    RootBlock.Unmarked s := by
  intro w hw hInfix
  obtain ⟨-, -, hSlash, -⟩ := hw.exists_cons
  exact absurd (List.all_eq_true.mp h '/' (hInfix.subset hSlash)) (by decide)

theorem carried_eq_nil {s : Text} (h : RootBlock.Unmarked s) (params : List Parameter) :
    RootBlock.carried s params = [] := by
  rw [RootBlock.carried, RootBlock.split?_eq_none h]

theorem rewire_of_unmarked {s t : Text} {params : List Parameter} (overrides : Overrides)
    (hSplice : splice s params = t) (hs : RootBlock.Unmarked s) (ht : RootBlock.Unmarked t) :
    rewire s params overrides =
      RootBlock.write (params.map (RootBlock.ofParameter overrides)) ++ ("\n\n".toList ++ t) := by
  rw [rewire, hSplice, carried_eq_nil hs, RootBlock.build, RootBlock.inject,
    RootBlock.split?_eq_none ht, List.map_nil, List.append_nil]
  simp only [List.append_assoc]

/-- A rewiring can be undone: what stands behind the block, with the found values in the place of
the references, is the stylesheet. -/
theorem unrewire?_rewire (css : Text) (file : Path) (params : List Parameter)
    (overrides : Overrides) (hOpening : ¬ RootBlock.opening <:+: css)
    (hClosing : ¬ RootBlock.closing <:+: css) (hLead : ¬ RootBlock.lead <:+: css)
    (hParams : params.Sublist (Stylesheet.scan css file))
    (hOverrides : ∀ id text, (id, Value.text text) ∈ overrides →
      ¬ RootBlock.opening <:+: text ∧ ¬ RootBlock.closing <:+: text) :
    unrewire? params (rewire css params overrides) = some css := by
  obtain ⟨t, hWoven⟩ := exists_woven_scan hParams
  have hUnmarked := RootBlock.unmarked_iff.mpr ⟨hOpening, hClosing⟩
  have hRewired := rewire_of_unmarked overrides (hWoven.splice_eq (List.Perm.refl _)) hUnmarked
    (hWoven.unmarked hUnmarked)
  have hItems : ∀ item ∈ params.map (RootBlock.ofParameter overrides),
      IsGenerated item.customProperty ∧ RootBlock.Unmarked item.value := by
    intro item hItem
    obtain ⟨p, hp, rfl⟩ := List.mem_map.mp hItem
    refine ⟨Stylesheet.isGenerated_of_mem_scan (hParams.subset hp), ?_⟩
    refine (Stylesheet.isLiteral_of_mem_named (hParams.subset hp)).render_induction ?_
      (fun s hs => unmarked_of_all_quantity hs) (hUnmarked.of_part (hWoven.infix_value hp))
    exact fun id text hMem => RootBlock.unmarked_iff.mpr (hOverrides id text hMem)
  have hBlock := RootBlock.splitOnce?_write (fun item hItem => (hItems item hItem).1)
    (fun item hItem => (hItems item hItem).2) ("\n\n".toList ++ t)
  have hNames := (Stylesheet.nodup_customProperty_scan css file).sublist
    (hParams.map (·.customProperty))
  rw [unrewire?, hRewired, hBlock]
  simp only
  rw [Text.after?_append, Option.map_some, hWoven.restore_eq hNames hLead]

/-- The colour of a paragraph alone is rewired, to another colour, and found again. -/
theorem unrewire?_rewire_color :
    let css := "p { margin: 4px; color: red }".toList
    let params := (Stylesheet.scan css ⟨"a.css".toList⟩).drop 1
    let overrides : Overrides := [("rig.colour-color-27o82d".toList, .text "blue".toList)]
    params.map (·.source.value) = ["red".toList] ∧
      unrewire? params (rewire css params overrides) = some css := by
  refine ⟨by decide +kernel, ?_⟩
  refine unrewire?_rewire _ ⟨"a.css".toList⟩ _ _ (by decide) (by decide) (by decide)
    (List.drop_sublist 1 _) ?_
  intro id text hMem
  obtain ⟨-, rfl⟩ : id = "rig.colour-color-27o82d".toList ∧ text = "blue".toList := by
    simpa using hMem
  exact ⟨by decide, by decide⟩

end Rewire

end DesignParams
