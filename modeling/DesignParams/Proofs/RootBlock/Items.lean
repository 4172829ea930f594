import DesignParams.Proofs.RootBlock.References

/-!
# The declarations of a block

Whatever stands between two sentinels, what is read from it are declarations of generated names
with values of one line, and every value is a part of the block.
-/
set_option autoImplicit false

namespace DesignParams

namespace RootBlock

theorem append_of_lineEnd? {s rest : Text} (h : lineEnd? s = some rest) :
    ∃ blank, s = blank ++ ';' :: rest := by
  have hLead := Text.leadingBlank_append_trimStart s
  rw [lineEnd?] at h
  split at h
  · rename_i found hTrim
    split at h
    · obtain rfl := Option.some.inj h
      rw [hTrim] at hLead
      exact ⟨_, hLead.symm⟩
    · cases h
  · cases h

theorem append_of_valueFrom? {s value rest : Text} (h : valueFrom? s = some (value, rest)) :
    '\n' ∉ value ∧ ∃ blank, s = value ++ (blank ++ ';' :: rest) := by
  induction s generalizing value with
  | nil => cases h
  | cons c s ih =>
    cases hEnd : lineEnd? (c :: s) with
    | some found =>
      rw [valueFrom?_eq_some hEnd] at h
      obtain ⟨rfl, rfl⟩ := Prod.mk.inj (Option.some.inj h)
      obtain ⟨blank, hBlank⟩ := append_of_lineEnd? hEnd
      exact ⟨List.not_mem_nil, blank, hBlank⟩
    | none =>
      rw [valueFrom?_cons hEnd] at h
      split at h
      · cases h
      · rename_i hFeed
        obtain ⟨⟨short, behind⟩, hShort, hRead⟩ := Option.map_eq_some_iff.mp h
        obtain ⟨rfl, rfl⟩ := Prod.mk.inj hRead
        obtain ⟨hLine, blank, rfl⟩ := ih hShort
        refine ⟨?_, blank, rfl⟩
        rw [List.mem_cons, not_or]
        exact ⟨Ne.symm hFeed, hLine⟩

/-- What is read as a declaration begins with the dashes of its name and ends with its semicolon. -/
theorem of_item? {s rest : Text} {item : Item} (h : item? s = some (item, rest)) :
    IsVariable item.customProperty ∧ '\n' ∉ item.value ∧
      ∃ front line, s = front ++ '-' :: (line ++ ';' :: rest) ∧ item.value <:+: line := by
  have hLead := Text.leadingBlank_append_trimStart s
  rw [item?] at h
  split at h
  · cases h
  · rename_i name behind hName
    obtain ⟨hSplit, hVariable, -⟩ := name?_eq_some_iff.mp hName
    have hBehind := Text.leadingBlank_append_trimStart behind
    rw [hSplit] at hLead
    split at h
    · rename_i tail hColon
      obtain ⟨⟨value, more⟩, hValue, hItem⟩ := Option.map_eq_some_iff.mp h
      obtain ⟨rfl, rfl⟩ := Prod.mk.inj hItem
      obtain ⟨hLine, blank, hTail⟩ := append_of_valueFrom? hValue
      refine ⟨hVariable, hLine, ?_⟩
      obtain ⟨stem, -, -, rfl⟩ := hVariable
      have hDash : lead = '-' :: ['-', 'r', 'i', 'g', '-'] := by decide
      have hColonTail := Text.leadingBlank_append_trimStart tail
      rw [hTail] at hColonTail
      rw [hColon, ← hColonTail] at hBehind
      rw [← hBehind, hDash] at hLead
      refine ⟨Text.leadingBlank s, ['-', 'r', 'i', 'g', '-'] ++ stem ++ Text.leadingBlank behind ++
        ':' :: (Text.leadingBlank tail ++ (value ++ blank)), ?_, ?_⟩
      · conv_lhs => rw [← hLead]
        simp
      · refine Text.infix_append_right _ (List.IsInfix.trans ?_ (List.suffix_cons ':' _).isInfix)
        exact Text.infix_append_right _ (List.prefix_append value blank).isInfix
    · cases h

theorem exists_item?_of_mem {atLineStart : Bool} {s : Text} {item : Item}
    (h : item ∈ itemsFrom atLineStart s) : ∃ u rest, u <:+ s ∧ item? u = some (item, rest) := by
  fun_induction itemsFrom atLineStart s with
  | case1 => cases h
  | case2 c s first rest hRead ih =>
    have hRest : rest <:+ c :: s := by
      obtain ⟨-, -, front, line, hSplit, -⟩ := of_item? hRead
      exact ⟨front ++ '-' :: (line ++ [';']), by simp [hSplit]⟩
    rcases List.mem_cons.mp h with rfl | h
    · exact ⟨c :: s, rest, List.suffix_refl _, hRead⟩
    · obtain ⟨u, more, hSuffix, hItem⟩ := ih h
      exact ⟨u, more, hSuffix.trans hRest, hItem⟩
  | case3 c s hNone ih =>
    obtain ⟨u, more, hSuffix, hItem⟩ := ih h
    exact ⟨u, more, hSuffix.trans (List.suffix_cons c s), hItem⟩
  | case4 atLineStart c s hBehind ih =>
    obtain ⟨u, more, hSuffix, hItem⟩ := ih h
    exact ⟨u, more, hSuffix.trans (List.suffix_cons c s), hItem⟩

theorem of_mem_items {inner : Text} {item : Item} (h : item ∈ items inner) :
    IsVariable item.customProperty ∧ '\n' ∉ item.value ∧ item.value <:+: inner := by
  obtain ⟨u, rest, hSuffix, hItem⟩ := exists_item?_of_mem h
  obtain ⟨hName, hLine, front, line, rfl, hValue⟩ := of_item? hItem
  refine ⟨hName, hLine, ?_⟩
  have hInfix : '-' :: (line ++ [';']) <:+: opening ++ (inner ++ closing) := by
    rw [← List.append_assoc]
    refine List.IsInfix.trans ⟨front, rest, ?_⟩ hSuffix.isInfix
    simp
  -- No sentinel has a dash or a semicolon, so the declaration lies between the two.
  have hBehind := Text.infix_of_infix_append_of_head hInfix (by decide)
  rw [← List.cons_append] at hBehind
  have hInner := Text.infix_of_infix_append_of_last hBehind (by decide)
  refine List.IsInfix.trans (Text.infix_append_left ?_ [';']) hInner
  exact hValue.trans (List.suffix_cons '-' line).isInfix

/-- The names that are carried over are those of the old block that are referred to outside it and
that no parameter has. -/
theorem mem_carried_iff {css : Text} {parts : Split} (h : split? css = some parts)
    {params : List Parameter} {name : Text} :
    name ∈ (carried css params).map (·.customProperty) ↔
      name ∈ references (parts.before ++ parts.after) ∧ name ∉ params.map (·.customProperty) ∧
        name ∈ (items parts.inner).map (·.customProperty) := by
  have hDistinct := @mem_map_distinct_iff name [] (items parts.inner)
  rw [carried, h]
  simp only
  constructor
  · intro hMem
    obtain ⟨item, hItem, rfl⟩ := List.mem_map.mp hMem
    obtain ⟨hKept, hFilter⟩ := List.mem_filter.mp hItem
    obtain ⟨hReferred, hNew⟩ := by simpa using hFilter
    exact ⟨hReferred, by simpa using hNew, (hDistinct.mp (List.mem_map_of_mem hKept)).2⟩
  · rintro ⟨hReferred, hNew, hRead⟩
    obtain ⟨item, hKept, rfl⟩ := List.mem_map.mp (hDistinct.mpr ⟨List.not_mem_nil, hRead⟩)
    refine List.mem_map_of_mem (List.mem_filter.mpr ⟨hKept, ?_⟩)
    have hOther : (params.map (·.customProperty)).contains item.customProperty = false := by
      rw [← Bool.not_eq_true, List.contains_iff_mem]
      exact hNew
    rw [List.contains_iff_mem.mpr hReferred, hOther]
    rfl

theorem mem_items_of_mem_carried {css : Text} {parts : Split} (h : split? css = some parts)
    {params : List Parameter} {item : Item} (hItem : item ∈ carried css params) :
    item ∈ items parts.inner := by
  rw [carried, h] at hItem
  exact (sublist_distinct [] _).subset (List.mem_of_mem_filter hItem)

end RootBlock

end DesignParams
