import DesignParams.Proofs.Parameter.Quantity
import DesignParams.Proofs.Rewire.Replay
import DesignParams.Proofs.Rewire.Rigged

/-!
# Rewiring again

A block that is written without overrides is read back as it is: its lines give the names, and a
name gives the id of its parameter, a value its unit. So overrides can be applied to the rewired
stylesheet instead of the stylesheet it was made from.
-/
set_option autoImplicit false

namespace DesignParams

/-- How a parameter was recognised: as a text that is no number, or as a number with a unit. -/
theorem Stylesheet.recognised_of_mem_named {file : Path} {used : List Text}
    {declarations : List Declaration} {p : Parameter} (h : p ∈ named file used declarations) :
    (p.default = .text p.source.value ∧ Quantity.parse? p.source.value = none ∧ p.unit = none) ∨
      ∃ n, p.default = .number n := by
  induction declarations generalizing used with
  | nil => cases h
  | cons d rest ih =>
    rcases List.mem_cons.mp h with rfl | h
    · have hDefault : (parameter file d (unusedStem used (stem file d))).default =
          (recognise d.property d.value).2.1 := rfl
      have hUnit : (parameter file d (unusedStem used (stem file d))).unit =
          (recognise d.property d.value).2.2.1 := rfl
      cases hParse : Quantity.parse? d.value with
      | none =>
        simp only [recognise, hParse] at hDefault hUnit
        exact .inl ⟨hDefault, hParse, hUnit⟩
      | some q =>
        simp only [recognise, hParse] at hDefault
        exact .inr ⟨q.number, hDefault⟩
    · exact ih h

namespace Rewire

variable {css : Text} {file : Path} {p : Parameter}

theorem parameterId?_of_mem_scan (hp : p ∈ Stylesheet.scan css file) :
    RootBlock.parameterId? p.customProperty = some p.id := by
  have hTheme : "tw-".toList = ['t', 'w', '-'] := by decide
  obtain ⟨s, hStem, hId, hName⟩ := Stylesheet.exists_stem_of_mem_named hp
  have hBehind : Text.after? RootBlock.lead ("--rig-".toList ++ s) = some s :=
    Text.after?_append RootBlock.lead s
  have hNone : Text.after? "tw-".toList s = none := by
    cases hAfter : Text.after? "tw-".toList s with
    | none => rfl
    | some rest =>
      rw [hTheme, Text.after?_eq_some_iff] at hAfter
      exact absurd hAfter (Stylesheet.stem_ne_theme hStem '-' rest)
  rw [RootBlock.parameterId?, hName, hBehind]
  simp only
  rw [hNone, hId]

theorem unit_parse?_default (hp : p ∈ Stylesheet.scan css file)
    (hFinite : ∀ negative, p.default ≠ .number (.infinite negative)) :
    ((Quantity.parse? (p.default.render p.unit)).map (·.unit)).getD [] = p.unit.getD [] := by
  rcases Stylesheet.recognised_of_mem_named hp with ⟨hDefault, hParse, hUnit⟩ | ⟨n, hDefault⟩
  · rw [hDefault, Value.render, hParse, hUnit]
    rfl
  · cases n with
    | infinite negative => exact absurd hDefault (hFinite negative)
    | finite negative units =>
      have hUnit := (Stylesheet.isLiteral_of_mem_named hp).unit
      rw [hDefault, Value.render, Quantity.unit_parse?_plain negative units hUnit]
      rfl

/-- Carrying over the line of a parameter is to declare the parameter. -/
theorem ofCarried_ofParameter (hp : p ∈ Stylesheet.scan css file)
    (hFinite : ∀ negative, p.default ≠ .number (.infinite negative)) (overrides : Overrides) :
    RootBlock.ofCarried overrides (RootBlock.ofParameter [] p) =
      RootBlock.ofParameter overrides p := by
  have hDefault : (RootBlock.ofParameter [] p).value = p.default.render p.unit := rfl
  have hId : RootBlock.parameterId? (RootBlock.ofParameter [] p).customProperty = some p.id :=
    parameterId?_of_mem_scan hp
  have hValue : (RootBlock.ofParameter [] p).effectiveValue overrides =
      (p.effectiveValue overrides).render p.unit := by
    rw [RootBlock.Item.effectiveValue, hId, Option.bind_some, hDefault, Parameter.effectiveValue]
    cases Entries.find? p.id overrides with
    | none => rfl
    | some value =>
      cases value with
      | text s => rfl
      | number n => exact congrArg (n.plain ++ ·) (unit_parse?_default hp hFinite)
  rw [RootBlock.ofCarried, hValue]
  rfl

/-- The lines of a block without overrides are read back as they were written. -/
theorem reread?_ofParameter (hp : p ∈ Stylesheet.scan css file) (hLine : '\n' ∉ p.source.value) :
    (RootBlock.ofParameter [] p).reread? = some (RootBlock.ofParameter [] p) := by
  have hValue : Text.trim (RootBlock.ofParameter [] p).value = (RootBlock.ofParameter [] p).value ∧
      '\n' ∉ (RootBlock.ofParameter [] p).value := by
    refine (Stylesheet.isLiteral_of_mem_named hp).render_induction
      (P := fun s => Text.trim s = s ∧ '\n' ∉ s) (fun id text hMem => ?_) (fun s hs => ?_)
      ⟨trimmed_of_mem_scan hp, hLine⟩
    · cases hMem
    · exact ⟨trim_of_all_quantity hs, newline_not_mem_of_all_quantity hs⟩
  have hName := RootBlock.isVariable_of_isGenerated (Stylesheet.isGenerated_of_mem_scan hp)
  exact RootBlock.Item.reread?_eq_self hName hValue.2 hValue.1

theorem Woven.infix_referenceTo {offset : Nat} {s t : Text} {params : List Parameter}
    (h : Woven offset s params t) (hp : p ∈ params) : referenceTo p.customProperty <:+: t := by
  induction h with
  | nil => cases hp
  | @cons offset gap value rest rewired q params _ _ _ _ _ _ _ ih =>
    rcases List.mem_cons.mp hp with rfl | hp
    · exact Text.infix_append_right gap (List.prefix_append _ rewired).isInfix
    · exact Text.infix_append_right gap (Text.infix_append_right _ (ih hp))

/-- The block that a rewiring writes is carried over as a whole. -/
theorem carried_rewire (hUnmarked : RootBlock.Unmarked css) (hLead : ¬ RootBlock.lead <:+: css)
    (hLines : ∀ p ∈ Stylesheet.scan css file, '\n' ∉ p.source.value) :
    RootBlock.carried (rewire css (Stylesheet.scan css file) []) [] =
      (Stylesheet.scan css file).map (RootBlock.ofParameter []) := by
  obtain ⟨t, hWoven, hRigged, -⟩ := @exists_rewire css file _ [] hUnmarked hLead
    (finds_scan css file) fun id text hMem => by cases hMem
  have hReread : ((Stylesheet.scan css file).map (RootBlock.ofParameter [])).filterMap
      RootBlock.Item.reread? = (Stylesheet.scan css file).map (RootBlock.ofParameter []) := by
    rw [List.filterMap_map, ← List.filterMap_eq_map]
    exact List.filterMap_congr fun p hp => reread?_ofParameter hp (hLines p hp)
  have hNames := Stylesheet.nodup_customProperty_scan css file
  rw [hRigged.carried_eq, hReread,
    RootBlock.distinct_eq_self (by rwa [List.map_map]) (fun _ _ => List.not_mem_nil),
    List.filter_eq_self]
  intro item hItem
  obtain ⟨p, hp, rfl⟩ := List.mem_map.mp hItem
  have hReferred : (RootBlock.ofParameter [] p).customProperty ∈
      RootBlock.references ('\n' :: '\n' :: t) := by
    rw [hRigged.neat.mem_references_iff]
    exact ⟨Stylesheet.isGenerated_of_mem_scan hp,
      Text.infix_append_right ['\n', '\n'] (hWoven.infix_referenceTo hp)⟩
  have hContains := List.contains_iff_mem.mpr hReferred
  simpa using hContains

/-- Overrides give the same text whether they are applied to a stylesheet or, without a scan, to
the stylesheet as it was rewired without them. -/
theorem rewire_rewire (css : Text) (file : Path) (overrides : Overrides)
    (hOpening : ¬ RootBlock.opening <:+: css) (hClosing : ¬ RootBlock.closing <:+: css)
    (hLead : ¬ RootBlock.lead <:+: css)
    (hLines : ∀ p ∈ Stylesheet.scan css file, '\n' ∉ p.source.value)
    (hFinite : ∀ p ∈ Stylesheet.scan css file, ∀ negative,
      p.default ≠ .number (.infinite negative)) :
    rewire (rewire css (Stylesheet.scan css file) []) [] overrides =
      rewire css (Stylesheet.scan css file) overrides := by
  have hUnmarked := RootBlock.unmarked_iff.mpr ⟨hOpening, hClosing⟩
  obtain ⟨t, hWoven, hRigged, -⟩ := @exists_rewire css file _ [] hUnmarked hLead
    (finds_scan css file) fun id text hMem => by cases hMem
  have hBreak : "\n\n".toList = ['\n', '\n'] := by decide
  have hRewire := rewire_of_unmarked overrides (hWoven.splice_eq (List.Perm.refl _)) hUnmarked
    (hWoven.unmarked hUnmarked)
  have hSplice : splice (rewire css (Stylesheet.scan css file) []) [] =
      rewire css (Stylesheet.scan css file) [] := by
    simp [splice, replacements, applyAll]
  have hItems : ((Stylesheet.scan css file).map (RootBlock.ofParameter [])).map
      (RootBlock.ofCarried overrides) =
        (Stylesheet.scan css file).map (RootBlock.ofParameter overrides) := by
    rw [List.map_map]
    exact List.map_congr_left fun p hp => ofCarried_ofParameter hp (hFinite p hp) overrides
  rw [hRewire, hBreak, rewire, hSplice, RootBlock.inject, hRigged.split?,
    carried_rewire hUnmarked hLead hLines, RootBlock.build, hItems]
  rfl

/-- The margin and the colour of a paragraph are both set to a number. -/
theorem rewire_rewire_margin :
    let css := "p { margin: 4px; color: red }".toList
    let params := Stylesheet.scan css ⟨"a.css".toList⟩
    let overrides : Overrides := params.map fun p => (p.id, .number (Binary64.ofNat 8))
    params.map (·.source.value) = ["4px".toList, "red".toList] ∧
      (params.map (RootBlock.ofParameter overrides)).map (·.value) = ["8px".toList, "8".toList] ∧
      rewire (rewire css params []) [] overrides = rewire css params overrides := by
  refine ⟨by decide +kernel, by decide +kernel, ?_⟩
  exact rewire_rewire _ ⟨"a.css".toList⟩ _ (by decide) (by decide) (by decide) (by decide +kernel)
    (by decide +kernel)

end Rewire

end DesignParams
