import DesignParams.Proofs.Rewire.Rigged

/-!
# Values that stay

A rewiring without overrides keeps the value that the old block declares for a name, as long as the
name is referred to. Only a parameter that is found under the name again brings its default.
-/
set_option autoImplicit false

namespace DesignParams

namespace RootBlock

/-- The value that the root block declares for a name, as it is read back. -/
def declared? (css name : Text) : Option Text :=
  (split? css).bind fun parts =>
    ((items parts.inner).find? (·.customProperty = name)).map (·.value)

theorem nodup_distinct (seen : List Text) (items : List Item) :
    ((distinct seen items).map (·.customProperty)).Nodup := by
  induction items generalizing seen with
  | nil => exact List.nodup_nil
  | cons item items ih =>
    rw [distinct]
    split
    · exact ih seen
    · rw [List.map_cons, List.nodup_cons]
      refine ⟨fun hMem => ?_, ih _⟩
      exact (mem_map_distinct_iff.mp hMem).1 List.mem_cons_self

theorem sublist_reread {items : List Item}
    (hNames : ∀ item ∈ items, IsVariable item.customProperty) :
    ((items.filterMap Item.reread?).map (·.customProperty)).Sublist
      (items.map (·.customProperty)) := by
  induction items with
  | nil => exact .slnil
  | cons item items ih =>
    rw [List.forall_mem_cons] at hNames
    cases hRead : item.reread? with
    | none =>
      rw [List.filterMap_cons_none hRead]
      exact (ih hNames.2).cons _
    | some read =>
      rw [List.filterMap_cons_some hRead, List.map_cons, List.map_cons,
        (Item.of_reread? hNames.1 hRead).1]
      exact (ih hNames.2).cons_cons _

theorem find?_eq_some_iff {items : List Item} (hNodup : (items.map (·.customProperty)).Nodup)
    {name : Text} {item : Item} :
    items.find? (·.customProperty = name) = some item ↔ item ∈ items ∧ item.customProperty = name := by
  constructor
  · intro h
    exact ⟨List.mem_of_find?_eq_some h, by simpa using List.find?_some h⟩
  · rintro ⟨hItem, rfl⟩
    cases hFind : items.find? (·.customProperty = item.customProperty) with
    | none =>
      have hNone := List.find?_eq_none.mp hFind item hItem
      exact absurd (decide_eq_true rfl) hNone
    | some found =>
      have hName : found.customProperty = item.customProperty := by simpa using List.find?_some hFind
      rw [List.inj_on_of_nodup_map hNodup (List.mem_of_find?_eq_some hFind) hItem hName]

end RootBlock

namespace Rewire

theorem nodup_written {css : Text} {params : List Parameter} (overrides : Overrides)
    (hParams : (params.map (·.customProperty)).Nodup) :
    ((written css params overrides).map (·.customProperty)).Nodup := by
  have hCarried : ((RootBlock.carried css params).map (·.customProperty)).Nodup ∧
      ∀ item ∈ RootBlock.carried css params,
        item.customProperty ∉ params.map (·.customProperty) := by
    rw [RootBlock.carried]
    split
    · exact ⟨List.nodup_nil, fun item hItem => by cases hItem⟩
    · simp only
      constructor
      · exact (RootBlock.nodup_distinct [] _).sublist (List.filter_sublist.map _)
      · intro item hItem
        obtain ⟨-, hNew⟩ := by simpa using (List.mem_filter.mp hItem).2
        simpa using hNew
  rw [written, List.map_append, List.map_map, List.map_map, List.nodup_append']
  refine ⟨hParams, hCarried.1, ?_⟩
  intro name hFound hOld
  obtain ⟨item, hItem, rfl⟩ := List.mem_map.mp hOld
  exact hCarried.2 item hItem hFound

variable {css : Text} {items : List RootBlock.Item} {after : Text}

theorem IsRigged.declared?_eq_some_iff (h : IsRigged css items after)
    (hNodup : (items.map (·.customProperty)).Nodup) {name value : Text} :
    RootBlock.declared? css name = some value ↔
      ∃ item ∈ items, item.customProperty = name ∧ item.reread? = some ⟨name, value⟩ := by
  have hReread := hNodup.sublist (RootBlock.sublist_reread h.variables)
  rw [RootBlock.declared?, h.split?, Option.bind_some,
    RootBlock.items_body h.variables fun item hItem => (h.values item hItem).unled,
    Option.map_eq_some_iff]
  constructor
  · rintro ⟨read, hFind, rfl⟩
    obtain ⟨hMem, rfl⟩ := (RootBlock.find?_eq_some_iff hReread).mp hFind
    obtain ⟨item, hItem, hRead⟩ := List.mem_filterMap.mp hMem
    exact ⟨item, hItem, (RootBlock.Item.of_reread? (h.variables item hItem) hRead).1.symm, hRead⟩
  · rintro ⟨item, hItem, -, hRead⟩
    refine ⟨⟨name, value⟩, (RootBlock.find?_eq_some_iff hReread).mpr ⟨?_, rfl⟩, rfl⟩
    exact List.mem_filterMap.mpr ⟨item, hItem, hRead⟩

theorem IsRigged.mem_carried (h : IsRigged css items after)
    (hNodup : (items.map (·.customProperty)).Nodup) {params : List Parameter} {item read : RootBlock.Item}
    (hItem : item ∈ items) (hRead : item.reread? = some read)
    (hReferred : read.customProperty ∈ RootBlock.references after)
    (hNew : read.customProperty ∉ params.map (·.customProperty)) :
    read ∈ RootBlock.carried css params := by
  have hRereadNodup := hNodup.sublist (RootBlock.sublist_reread h.variables)
  rw [h.carried_eq, RootBlock.distinct_eq_self hRereadNodup fun _ _ => List.not_mem_nil]
  refine List.mem_filter.mpr ⟨List.mem_filterMap.mpr ⟨item, hItem, hRead⟩, ?_⟩
  rw [List.contains_iff_mem.mpr hReferred, Bool.true_and, Bool.not_eq_true', ← Bool.not_eq_true,
    List.contains_iff_mem]
  exact hNew

theorem ofCarried_nil (item : RootBlock.Item) : RootBlock.ofCarried [] item = item := by
  have hValue : item.effectiveValue [] = item.value := by
    rw [RootBlock.Item.effectiveValue]
    cases RootBlock.parameterId? item.customProperty <;> rfl
  rw [RootBlock.ofCarried, hValue]

/-- The value that is declared for a name stays when the name is referred to, unless a parameter is
found under the name whose default reads differently. -/
theorem IsRigged.declared?_rewire_iff (h : IsRigged css items after)
    (hNodup : (items.map (·.customProperty)).Nodup) {file : Path}
    (hApart : ∀ p ∈ Stylesheet.scan css file, IsApart css p) {name value : Text}
    (hDeclared : RootBlock.declared? css name = some value)
    (hReferred : name ∈ RootBlock.references after) :
    RootBlock.declared? (rewire css (Stylesheet.scan css file) []) name = some value ↔
      ∀ p ∈ Stylesheet.scan css file, p.customProperty = name →
        (RootBlock.ofParameter [] p).reread? = some ⟨name, value⟩ := by
  obtain ⟨next, hNext, -⟩ := @IsRigged.exists_rewire css items after h file _ []
    (finds_scan css file) (fun id text hMem => by cases hMem) hApart
  have hWritten : ((written css (Stylesheet.scan css file) []).map (·.customProperty)).Nodup :=
    nodup_written [] (Stylesheet.nodup_customProperty_scan css file)
  have hFound {p : Parameter} (hp : p ∈ Stylesheet.scan css file) :
      RootBlock.ofParameter [] p ∈ written css (Stylesheet.scan css file) [] :=
    List.mem_append_left _ (List.mem_map_of_mem hp)
  rw [hNext.declared?_eq_some_iff hWritten]
  constructor
  · rintro ⟨item, hItem, hName, hRead⟩ p hp rfl
    have hSame : item = RootBlock.ofParameter [] p :=
      List.inj_on_of_nodup_map hWritten hItem (hFound hp) hName
    exact hSame ▸ hRead
  · intro hAll
    by_cases hNew : ∃ p ∈ Stylesheet.scan css file, p.customProperty = name
    · obtain ⟨p, hp, rfl⟩ := hNew
      exact ⟨_, hFound hp, rfl, hAll p hp rfl⟩
    · obtain ⟨item, hItem, rfl, hRead⟩ := (h.declared?_eq_some_iff hNodup).mp hDeclared
      have hKept := h.mem_carried hNodup hItem hRead hReferred fun hMem =>
        hNew (List.mem_map.mp hMem)
      refine ⟨⟨item.customProperty, value⟩, List.mem_append_right _ ?_, rfl, ?_⟩
      · exact List.mem_map.mpr ⟨_, hKept, ofCarried_nil _⟩
      · exact RootBlock.Item.reread?_of_reread? (h.variables item hItem) hRead

/-- A stylesheet whose values are of one line is rewired with overrides, scanned again and rewired
without them. What the first block declares for a name that is referred to is the value chosen for a
parameter. It stays, unless the second scan finds the name again with a default that reads
differently. -/
theorem declared?_rewire_rewire_iff (css : Text) (file : Path) (overrides : Overrides)
    (hOpening : ¬ RootBlock.opening <:+: css) (hClosing : ¬ RootBlock.closing <:+: css)
    (hLead : ¬ RootBlock.lead <:+: css)
    (hLines : ∀ p ∈ Stylesheet.scan css file, '\n' ∉ p.source.value)
    (hOverrides : ∀ id text, (id, Value.text text) ∈ overrides →
      RootBlock.Unmarked text ∧ '\n' ∉ text) :
    let first := rewire css (Stylesheet.scan css file) overrides
    let second := rewire first (Stylesheet.scan first file) []
    (∀ p ∈ Stylesheet.scan first file, IsApart first p) →
      ∀ name ∈ RootBlock.references (outside first),
        (∃ parts ∈ RootBlock.split? first, RootBlock.Declares parts.inner name) →
        ∃ p ∈ Stylesheet.scan css file, p.customProperty = name ∧
          let value := Text.trim ((p.effectiveValue overrides).render p.unit)
          RootBlock.declared? first name = some value ∧
            (RootBlock.declared? second name = some value ↔
              ∀ q ∈ Stylesheet.scan first file, q.customProperty = name →
                (RootBlock.ofParameter [] q).reread? = some ⟨name, value⟩) := by
  intro first second hApart name hReferred hDeclares
  obtain ⟨t, -, hRigged, -⟩ := exists_rewire (RootBlock.unmarked_iff.mpr ⟨hOpening, hClosing⟩) hLead
    (finds_scan css file) hOverrides
  rw [hRigged.outside] at hReferred
  obtain ⟨item, hItem, rfl⟩ := List.mem_map.mp ((hRigged.declares_iff hReferred).mp hDeclares)
  obtain ⟨p, hp, rfl⟩ := List.mem_map.mp hItem
  refine ⟨p, hp, rfl, ?_⟩
  intro value
  have hNodup : (((Stylesheet.scan css file).map (RootBlock.ofParameter overrides)).map
      (·.customProperty)).Nodup := by
    rw [List.map_map]
    exact Stylesheet.nodup_customProperty_scan css file
  have hLine : '\n' ∉ (p.effectiveValue overrides).render p.unit :=
    (Stylesheet.isLiteral_of_mem_named hp).render_induction
      (fun id text hMem => (hOverrides id text hMem).2)
      (fun s hs => newline_not_mem_of_all_quantity hs) (hLines p hp)
  have hDeclared : RootBlock.declared? first p.customProperty = some value :=
    (hRigged.declared?_eq_some_iff hNodup).mpr ⟨_, hItem, rfl,
      RootBlock.Item.reread?_of_not_mem (hRigged.variables _ hItem) hLine⟩
  exact ⟨hDeclared, hRigged.declared?_rewire_iff hNodup hApart hDeclared hReferred⟩

/-- Two paragraphs of one colour. -/
def paragraphs : Text :=
  "p \x7B color: #333; margin: 4px \x7D p \x7B color: #333 \x7D".toList

def widerMargin : Overrides :=
  [("rig.spacing-margin-wxfo3d".toList, .text "8px".toList)]

theorem rewire_paragraphs :
    rewire paragraphs (Stylesheet.scan paragraphs ⟨"a.css".toList⟩) widerMargin =
      ("/* rigger:start */\n:root \x7B\n  --rig-colour-color-1vglb3: #333;\n" ++
        "  --rig-spacing-margin-wxfo3d: 8px;\n\x7D\n/* rigger:end */\n\n" ++
        "p \x7B color: var(--rig-colour-color-1vglb3); " ++
        "margin: var(--rig-spacing-margin-wxfo3d) \x7D p \x7B color: #333 \x7D").toList := by
  rw [rewire, splice, replacements_scan]
  decide +kernel

/-- The margin is overridden. The second scan finds only the colour of the other paragraph, whose
default is the value that is declared. -/
theorem declared?_rewire_rewire_color :
    let file : Path := ⟨"a.css".toList⟩
    let color := "--rig-colour-color-1vglb3".toList
    let margin := "--rig-spacing-margin-wxfo3d".toList
    let first := rewire paragraphs (Stylesheet.scan paragraphs file) widerMargin
    let second := rewire first (Stylesheet.scan first file) []
    (Stylesheet.scan first file).map (·.customProperty) = [color] ∧
      RootBlock.declared? second color = some "#333".toList ∧
      RootBlock.declared? second margin = some "8px".toList := by
  intro file color margin first second
  have hStays := declared?_rewire_rewire_iff paragraphs file widerMargin (by decide) (by decide)
    (by decide) (by decide +kernel) (sound_of_single_override (by decide))
  obtain ⟨hNames, hApart, hDefault⟩ : (Stylesheet.scan first file).map (·.customProperty) = [color] ∧
      (∀ p ∈ Stylesheet.scan first file, IsApart first p) ∧
      (∀ p ∈ Stylesheet.scan first file,
        (RootBlock.ofParameter [] p).reread? = some ⟨color, "#333".toList⟩) := by
    rw [show first = _ from rewire_paragraphs]
    decide +kernel
  have hBlock : ∀ item ∈ [RootBlock.Item.mk color "#333".toList, ⟨margin, "8px".toList⟩],
      item.customProperty ∈ RootBlock.references (outside first) ∧
      (∃ parts ∈ RootBlock.split? first, RootBlock.Declares parts.inner item.customProperty) ∧
      RootBlock.declared? first item.customProperty = some item.value := by
    rw [show first = _ from rewire_paragraphs]
    decide +kernel
  refine ⟨hNames, ?_, ?_⟩
  · obtain ⟨hReferred, hDeclares, hValue⟩ := hBlock ⟨color, "#333".toList⟩ (by simp)
    obtain ⟨p, -, -, hChosen, hSecond⟩ := hStays hApart color hReferred hDeclares
    rw [Option.some.inj (hChosen.symm.trans hValue)] at hSecond
    exact hSecond.mpr fun q hq _ => hDefault q hq
  · obtain ⟨hReferred, hDeclares, hValue⟩ := hBlock ⟨margin, "8px".toList⟩ (by simp)
    obtain ⟨p, -, -, hChosen, hSecond⟩ := hStays hApart margin hReferred hDeclares
    rw [Option.some.inj (hChosen.symm.trans hValue)] at hSecond
    refine hSecond.mpr fun q hq hName => ?_
    have hMem : q.customProperty ∈ [color] := hNames ▸ List.mem_map_of_mem hq
    rw [hName] at hMem
    exact absurd hMem (by decide)

/-- Of two equal declarations only the first is a parameter. The second scan finds the other one
under the name of the first, and declares its default. -/
theorem not_declared?_rewire_rewire :
    ¬ ∀ (css : Text) (file : Path) (overrides : Overrides),
      ¬ RootBlock.opening <:+: css → ¬ RootBlock.closing <:+: css → ¬ RootBlock.lead <:+: css →
      (∀ p ∈ Stylesheet.scan css file, '\n' ∉ p.source.value) →
      (∀ id text, (id, Value.text text) ∈ overrides → RootBlock.Unmarked text ∧ '\n' ∉ text) →
      let first := rewire css (Stylesheet.scan css file) overrides
      let second := rewire first (Stylesheet.scan first file) []
      ∀ name value, RootBlock.declared? first name = some value →
        name ∈ RootBlock.references (outside first) →
        RootBlock.declared? second name = some value := by
  intro hClaim
  have hRed := hClaim "p { color: #333; } p { color: #333; }".toList ⟨"a.css".toList⟩
    [("rig.colour-color-1vglb3".toList, .text "red".toList)] (by decide) (by decide) (by decide)
    (by decide +kernel) (sound_of_single_override (by decide)) "--rig-colour-color-1vglb3".toList "red".toList (by decide +kernel) (by decide +kernel)
  exact absurd hRed (by decide +kernel)

/-- An override leaves a bracket open. The second scan finds no parameter of the name, but a value
that reaches over the end of the block, and the declaration is lost. -/
theorem declared?_rewire_rewire_bracket :
    let css := "p \x7B color: #333 \x7D".toList
    let file : Path := ⟨"a.css".toList⟩
    let name := "--rig-colour-color-1vglb3".toList
    let overrides : Overrides := [("rig.colour-color-1vglb3".toList, .text "red; color: (".toList)]
    let first := rewire css (Stylesheet.scan css file) overrides
    let second := rewire first (Stylesheet.scan first file) []
    RootBlock.declared? first name = some "red; color: (".toList ∧
      name ∈ RootBlock.references (outside first) ∧
      (∀ p ∈ Stylesheet.scan first file, p.customProperty ≠ name) ∧
      RootBlock.declared? second name = none := by
  decide +kernel

end Rewire

end DesignParams
