import DesignParams.Proofs.Rewire.Outside

/-!
# Closed stylesheets

A stylesheet is closed when its root block declares whatever the stylesheet refers to, the values of
the block included. A rewiring declares the parameters and what is referred to outside the block; a
value of the old block can go on to refer to a declaration that is not carried over.
-/
set_option autoImplicit false

namespace DesignParams

namespace Rewire

/-- Does the root block declare every generated name that is referred to, outside it or by one of
its values? -/
def IsClosed (css : Text) : Prop :=
  ∃ parts ∈ RootBlock.split? css,
    (∀ name ∈ RootBlock.references (outside css),
      name ∈ (RootBlock.items parts.inner).map (·.customProperty)) ∧
    ∀ item ∈ RootBlock.items parts.inner, ∀ name ∈ RootBlock.references item.value,
      name ∈ (RootBlock.items parts.inner).map (·.customProperty)

instance (css : Text) : Decidable (IsClosed css) :=
  inferInstanceAs (Decidable (∃ parts ∈ RootBlock.split? css, _ ∧ _))

def IsKept (css : Text) (params : List Parameter) (name : Text) : Prop :=
  name ∈ RootBlock.references (outside css) ∨ name ∈ params.map (·.customProperty)

instance (css : Text) (params : List Parameter) (name : Text) : Decidable (IsKept css params name) :=
  inferInstanceAs (Decidable (_ ∨ _))

/-- A text with a written block of values of one line is closed when the block has the names that
are referred to outside it and by its values. -/
theorem isClosed_write_iff {items : List RootBlock.Item} {before after : Text}
    (hNames : ∀ item ∈ items, RootBlock.IsVariable item.customProperty)
    (hValues : ∀ item ∈ items, ¬ RootBlock.closing <:+: item.value)
    (hLines : ∀ item ∈ items, '\n' ∉ item.value)
    (hBefore : ¬ RootBlock.opening <:+: before ++ RootBlock.opening.dropLast) :
    IsClosed (before ++ (RootBlock.write items ++ after)) ↔
      (∀ name ∈ RootBlock.references (before ++ after), name ∈ items.map (·.customProperty)) ∧
      ∀ item ∈ items, ∀ name ∈ RootBlock.references item.value,
        name ∈ items.map (·.customProperty) := by
  have hSplit := RootBlock.split?_write_append hNames hValues hBefore after
  have hItems := RootBlock.items_body_of_lines hNames hLines
  have hSame : (RootBlock.items (RootBlock.body items)).map (·.customProperty) =
      items.map (·.customProperty) := by
    rw [hItems, List.map_map]
    rfl
  rw [IsClosed, outside_eq hSplit, hSplit]
  constructor
  · rintro ⟨parts, hParts, hOutside, hInside⟩
    obtain rfl := Option.some.inj hParts
    rw [hSame] at hOutside hInside
    refine ⟨hOutside, fun item hItem name hName => ?_⟩
    apply hInside ⟨item.customProperty, Text.trim item.value⟩
    · rw [hItems]
      exact List.mem_map_of_mem hItem
    · rwa [RootBlock.references_trim]
  · rintro ⟨hOutside, hInside⟩
    refine ⟨_, rfl, ?_, fun read hRead name hName => ?_⟩
    · rw [hSame]
      exact hOutside
    · rw [hItems] at hRead
      obtain ⟨item, hItem, rfl⟩ := List.mem_map.mp hRead
      rw [RootBlock.references_trim] at hName
      rw [hSame]
      exact hInside item hItem name hName

section

variable {css : Text} {file : Path} {parts : RootBlock.Split} {overrides : Overrides}

/-- From a closed text, whatever is referred to outside the block is declared again. -/
theorem mem_written_iff_isKept (hSplit : RootBlock.split? css = some parts) (hClosed : IsClosed css)
    {params : List Parameter} {name : Text} :
    name ∈ (written css params overrides).map (·.customProperty) ↔ IsKept css params name := by
  obtain ⟨other, hOther, hOutside, -⟩ := hClosed
  obtain rfl : parts = other := Option.some.inj (hSplit.symm.trans hOther)
  rw [mem_written_iff, RootBlock.mem_carried_iff hSplit, ← outside_eq hSplit, IsKept]
  constructor
  · rintro (hParam | ⟨hReferred, -⟩)
    · exact .inr hParam
    · exact .inl hReferred
  · rintro (hReferred | hParam)
    · by_cases hParam : name ∈ params.map (·.customProperty)
      · exact .inl hParam
      · exact .inr ⟨hReferred, hParam, hOutside name hReferred⟩
    · exact .inl hParam

theorem forall_written_line (hSplit : RootBlock.split? css = some parts)
    (hClear : ∀ p ∈ Stylesheet.scan css file, IsClear css p)
    (hLines : ∀ p ∈ Stylesheet.scan css file, '\n' ∉ p.source.value)
    (hOverrides : ∀ id text, (id, Value.text text) ∈ overrides →
      ¬ RootBlock.closing <:+: text ∧ '\n' ∉ text) :
    ∀ item ∈ written css (Stylesheet.scan css file) overrides,
      ¬ RootBlock.closing <:+: item.value ∧ '\n' ∉ item.value := by
  apply forall_written (P := fun s => ¬ RootBlock.closing <:+: s ∧ '\n' ∉ s)
  · exact fun p hp => Stylesheet.isLiteral_of_mem_named hp
  · exact hOverrides
  · intro s hs
    exact ⟨unmarked_of_all_quantity hs RootBlock.closing (.inr rfl),
      newline_not_mem_of_all_quantity hs⟩
  · exact fun p hp => ⟨(hClear p hp).1, hLines p hp⟩
  · intro item hItem
    obtain ⟨-, hLine, hInner⟩ :=
      RootBlock.of_mem_items (RootBlock.mem_items_of_mem_carried hSplit hItem)
    obtain ⟨-, -, hClosing⟩ := RootBlock.split?_eq_some_iff.mp hSplit
    exact ⟨fun hInfix => hClosing (Text.infix_append_left (hInfix.trans hInner) _), hLine⟩

theorem isVariable_of_mem_written (hSplit : RootBlock.split? css = some parts) :
    ∀ item ∈ written css (Stylesheet.scan css file) overrides,
      RootBlock.IsVariable item.customProperty := by
  intro item hItem
  rcases List.mem_append.mp hItem with hItem | hItem
  · obtain ⟨p, hp, rfl⟩ := List.mem_map.mp hItem
    exact RootBlock.isVariable_of_isGenerated (Stylesheet.isGenerated_of_mem_scan hp)
  · obtain ⟨old, hOld, rfl⟩ := List.mem_map.mp hItem
    exact (RootBlock.of_mem_items (RootBlock.mem_items_of_mem_carried hSplit hOld)).1

/-- A closed text is rewired to a closed one when the new values refer to what is kept. -/
theorem isClosed_rewire_iff_written (hSplit : RootBlock.split? css = some parts)
    (hClosed : IsClosed css) (hClear : ∀ p ∈ Stylesheet.scan css file, IsClear css p)
    (hLines : ∀ p ∈ Stylesheet.scan css file, '\n' ∉ p.source.value)
    (hOverrides : ∀ id text, (id, Value.text text) ∈ overrides →
      ¬ RootBlock.closing <:+: text ∧ '\n' ∉ text) :
    IsClosed (rewire css (Stylesheet.scan css file) overrides) ↔
      ∀ item ∈ written css (Stylesheet.scan css file) overrides,
        ∀ name ∈ RootBlock.references item.value, IsKept css (Stylesheet.scan css file) name := by
  obtain ⟨next, hNext, hOutside⟩ := exists_splice_parts hSplit hClear
  have hRewire : rewire css (Stylesheet.scan css file) overrides = next.before ++
      (RootBlock.write (written css (Stylesheet.scan css file) overrides) ++ next.after) := by
    rw [rewire, RootBlock.inject, hNext, ← List.append_assoc]
    rfl
  have hWritten := forall_written_line hSplit hClear hLines hOverrides
  have hNames {name : Text} := @mem_written_iff_isKept css parts overrides hSplit hClosed
    (Stylesheet.scan css file) name
  rw [hRewire, isClosed_write_iff (isVariable_of_mem_written hSplit)
    (fun item hItem => (hWritten item hItem).1) (fun item hItem => (hWritten item hItem).2)
    (RootBlock.split?_eq_some_iff.mp hNext).2.1]
  simp only [hNames]
  constructor
  · rintro ⟨-, hValues⟩
    exact hValues
  · intro hValues
    exact ⟨hOutside, hValues⟩

theorem references_eq_nil_of_all_quantity {s : Text} (h : s.all isQuantityChar = true) :
    RootBlock.references s = [] :=
  RootBlock.references_eq_nil_of_not_mem fun hMem =>
    absurd (List.all_eq_true.mp h '(' hMem) (by decide)

theorem isKept_of_references_eq_nil {s : Text} (h : RootBlock.references s = []) :
    ∀ name ∈ RootBlock.references s, IsKept css (Stylesheet.scan css file) name := by
  intro name hName
  rw [h] at hName
  cases hName

theorem isKept_of_outside (hSplit : RootBlock.split? css = some parts)
    (hOverrides : ∀ id text, (id, Value.text text) ∈ overrides → RootBlock.references text = [])
    {p : Parameter} (hp : p ∈ Stylesheet.scan css file) (hClear : IsClear css p)
    (hOutside : ¬ IsInside parts p) :
    ∀ name ∈ RootBlock.references ((p.effectiveValue overrides).render p.unit),
      IsKept css (Stylesheet.scan css file) name := by
  have hLiteral := Stylesheet.isLiteral_of_mem_named hp
  apply hLiteral.render_induction (P := fun s => ∀ name ∈ RootBlock.references s,
    IsKept css (Stylesheet.scan css file) name)
  · intro id text hMem
    exact isKept_of_references_eq_nil (hOverrides id text hMem)
  · intro s hs
    exact isKept_of_references_eq_nil (references_eq_nil_of_all_quantity hs)
  · intro name hName
    exact .inl (references_value_subset hSplit hp hClear hOutside hName)

end

/-- A closed text is rewired to a closed one if and only if the values that are found within its
block, and those that are carried over, refer to parameters or to what is referred to outside the
block. -/
theorem isClosed_rewire_iff (css : Text) (file : Path) (overrides : Overrides)
    (hClosed : IsClosed css)
    (hClear : ∀ p ∈ Stylesheet.scan css file, IsClear css p)
    (hLines : ∀ p ∈ Stylesheet.scan css file, '\n' ∉ p.source.value)
    (hOverrides : ∀ id text, (id, Value.text text) ∈ overrides →
      ¬ RootBlock.closing <:+: text ∧ '\n' ∉ text ∧ RootBlock.references text = []) :
    IsClosed (rewire css (Stylesheet.scan css file) overrides) ↔
      (∀ p ∈ Stylesheet.scan css file, (∃ parts ∈ RootBlock.split? css, IsInside parts p) →
        ∀ name ∈ RootBlock.references ((p.effectiveValue overrides).render p.unit),
          IsKept css (Stylesheet.scan css file) name) ∧
      ∀ item ∈ RootBlock.carried css (Stylesheet.scan css file),
        ∀ name ∈ RootBlock.references (item.effectiveValue overrides),
          IsKept css (Stylesheet.scan css file) name := by
  obtain ⟨parts, hSplit, -⟩ := id hClosed
  rw [isClosed_rewire_iff_written hSplit hClosed hClear hLines fun id text hMem =>
    ⟨(hOverrides id text hMem).1, (hOverrides id text hMem).2.1⟩]
  constructor
  · intro hValues
    constructor
    · intro p hp _
      exact hValues _ (List.mem_append_left _ (List.mem_map_of_mem hp))
    · intro item hItem
      exact hValues _ (List.mem_append_right _ (List.mem_map_of_mem hItem))
  · rintro ⟨hFound, hCarried⟩ item hItem
    rcases List.mem_append.mp hItem with hItem | hItem
    · obtain ⟨p, hp, rfl⟩ := List.mem_map.mp hItem
      by_cases hInside : IsInside parts p
      · exact hFound p hp ⟨parts, hSplit, hInside⟩
      · exact isKept_of_outside hSplit (fun id text hMem => (hOverrides id text hMem).2.2) hp
          (hClear p hp) hInside
    · obtain ⟨old, hOld, rfl⟩ := List.mem_map.mp hItem
      exact hCarried old hOld

/-- The padding reads a length that nothing outside the block refers to. -/
theorem not_isClosed_rewire_gap :
    let block := RootBlock.write [⟨"--rig-gap".toList, "4px".toList⟩,
      ⟨"--rig-pad".toList, "calc(var(--rig-gap) * 2)".toList⟩]
    let css := block ++ "\n\np \x7B margin: 1px; padding: var(--rig-pad) \x7D".toList
    let file : Path := ⟨"a.css".toList⟩
    IsClosed css ∧ ¬ IsClosed (rewire css (Stylesheet.scan css file) []) := by
  intro block css file
  have hClosed : IsClosed css := by decide +kernel
  refine ⟨hClosed, fun hNext => ?_⟩
  obtain ⟨-, hCarried⟩ := (isClosed_rewire_iff css file [] hClosed (by decide +kernel)
    (by decide +kernel) (fun id text hMem => by cases hMem)).mp hNext
  exact absurd hCarried (by decide +kernel)

/-- No value refers to anything, but the comment in the colour closes the new block in front of the
length that is carried over. -/
theorem not_isClosed_rewire_comment :
    let css := RootBlock.write [⟨"--rig-gap".toList, "4px".toList⟩] ++
      "\n\np \x7B color: red /* rigger:end */; margin: var(--rig-gap) \x7D".toList
    let file : Path := ⟨"a.css".toList⟩
    let params := Stylesheet.scan css file
    IsClosed css ∧ (∀ p ∈ params, '\n' ∉ p.source.value ∧ RootBlock.references p.source.value = []) ∧
      (∀ item ∈ RootBlock.carried css params, RootBlock.references item.value = []) ∧
      ¬ IsClosed (rewire css params []) := by
  decide +kernel

/-- A closed text stays closed when no value of its block refers to anything. -/
theorem isClosed_rewire_of_literals {css : Text} {file : Path} {overrides : Overrides}
    (hClosed : IsClosed css) (hClear : ∀ p ∈ Stylesheet.scan css file, IsClear css p)
    (hLines : ∀ p ∈ Stylesheet.scan css file, '\n' ∉ p.source.value)
    (hOverrides : ∀ id text, (id, Value.text text) ∈ overrides →
      ¬ RootBlock.closing <:+: text ∧ '\n' ∉ text ∧ RootBlock.references text = [])
    (hItems : ∀ parts ∈ RootBlock.split? css, ∀ item ∈ RootBlock.items parts.inner,
      RootBlock.references item.value = [])
    (hInside : ∀ p ∈ Stylesheet.scan css file, ∀ parts ∈ RootBlock.split? css, IsInside parts p →
      RootBlock.references p.source.value = []) :
    IsClosed (rewire css (Stylesheet.scan css file) overrides) := by
  obtain ⟨parts, hSplit, -⟩ := id hClosed
  rw [isClosed_rewire_iff_written hSplit hClosed hClear hLines fun id text hMem =>
    ⟨(hOverrides id text hMem).1, (hOverrides id text hMem).2.1⟩]
  apply forall_written (P := fun s => ∀ name ∈ RootBlock.references s,
    IsKept css (Stylesheet.scan css file) name)
  · exact fun p hp => Stylesheet.isLiteral_of_mem_named hp
  · intro id text hMem
    exact isKept_of_references_eq_nil (hOverrides id text hMem).2.2
  · intro s hs
    exact isKept_of_references_eq_nil (references_eq_nil_of_all_quantity hs)
  · intro p hp
    by_cases hAt : IsInside parts p
    · exact isKept_of_references_eq_nil (hInside p hp parts hSplit hAt)
    · exact fun name hName => .inl (references_value_subset hSplit hp (hClear p hp) hAt hName)
  · intro item hItem
    have hOld := RootBlock.mem_items_of_mem_carried hSplit hItem
    exact isKept_of_references_eq_nil (hItems parts hSplit item hOld)

end Rewire

end DesignParams
