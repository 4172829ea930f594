import DesignParams.Proofs.RootBlock.Block
import DesignParams.Stylesheet.Scan

/-!
# Putting in a block

A block is put in the place of the one before it, so that the last one counts, and the text around
the place stays as it is. Whatever sentinels the text holds, the block that was put in is the one
that is found again.
-/
set_option autoImplicit false

namespace DesignParams

namespace RootBlock

section Write

variable {items : List Item}

/-- Names and values without sentinels leave only those that the block begins and ends with. -/
theorem unmarked_body_of_unmarked
    (h : ∀ item ∈ items, Unmarked item.customProperty ∧ Unmarked item.value) :
    Unmarked (body items) := by
  intro w hw hInfix
  obtain ⟨item, hItem, hName | hValue⟩ := exists_infix_of_infix_body hw hInfix
  · exact (h item hItem).1 w hw hName
  · exact (h item hItem).2 w hw hValue

theorem inject_inject_write (hBody : ¬ closing <:+: body items) (content other : Text) :
    inject (inject content (write items)) other = inject content other := by
  obtain ⟨before, after, hInject, hBefore⟩ := exists_inject_eq content
  rw [hInject, hInject, inject, split?_write_of_not_infix hBody hBefore]
  exact List.append_assoc _ _ _

theorem existsUnique_opening (hBody : Unmarked (body items)) {rest : Text}
    (hRest : ¬ opening <:+: rest) :
    ∃! cut : Text × Text, write items ++ '\n' :: rest = cut.1 ++ (opening ++ cut.2) := by
  obtain ⟨u, hu⟩ := body_eq_cons items
  obtain ⟨v, hv⟩ := body_eq_append items
  have hBehind : ¬ opening <:+: body items ++ (closing ++ '\n' :: rest) := by
    rw [hv, List.append_assoc, List.singleton_append, Text.infix_append_cons_iff (by decide),
      Text.infix_append_cons_iff (by decide)]
    rintro (hInfix | hInfix | hInfix)
    · exact hBody opening (.inl rfl) (hv ▸ Text.infix_append_left hInfix _)
    · exact absurd hInfix (by decide)
    · exact hRest hInfix
  have hLast : ¬ opening <:+: opening.tail ++ (body items ++ (closing ++ '\n' :: rest)) := by
    rw [hu, List.cons_append, Text.infix_append_cons_iff (by decide)]
    rintro (hInfix | hInfix)
    · exact absurd hInfix (by decide)
    · refine hBehind ?_
      rw [hu]
      exact hInfix.trans (List.suffix_cons _ _).isInfix
  have hOnce := Text.existsUnique_append not_infix_dropLast_opening hLast
  rw [write_eq, List.append_assoc, List.append_assoc]
  exact hOnce

theorem existsUnique_closing (hBody : ¬ closing <:+: body items) {rest : Text}
    (hRest : ¬ closing <:+: rest) :
    ∃! cut : Text × Text, write items ++ '\n' :: rest = cut.1 ++ (closing ++ cut.2) := by
  have hLast : ¬ closing <:+: closing.tail ++ '\n' :: rest := by
    rw [Text.infix_append_cons_iff (by decide)]
    rintro (hInfix | hInfix)
    · exact absurd hInfix (by decide)
    · exact hRest hInfix
  have hOnce := Text.existsUnique_append (not_infix_opening_body hBody) hLast
  rw [write_eq, ← List.append_assoc opening, List.append_assoc]
  exact hOnce

end Write

/-- The block that is put in last counts, the text around its place stays as it is, and in a text
without sentinels the block brings in each of them once. -/
theorem inject_inject (content : Text) (params : List Parameter) (overrides : Overrides)
    (hUnmarked : ∀ p ∈ params, Unmarked p.customProperty ∧
      Unmarked ((p.effectiveValue overrides).render p.unit)) :
    let block := build params [] overrides
    (∀ other, inject (inject content block) other = inject content other) ∧
    ((∃ parts : Split, parts.IsFirst content ∧
        inject content block = parts.before ++ (block ++ parts.after)) ∨
      (¬ HoldsBlock content ∧ inject content block = block ++ ("\n\n".toList ++ content))) ∧
    (Unmarked content → ∀ w, IsSentinel w →
      ∃! cut : Text × Text, inject content block = cut.1 ++ (w ++ cut.2)) := by
  intro block
  have hBlock : block = write (params.map (ofParameter overrides)) := by
    simp only [block, build, List.map_nil, List.append_nil]
  have hBody : Unmarked (body (params.map (ofParameter overrides))) := by
    refine unmarked_body_of_unmarked fun item hItem => ?_
    obtain ⟨p, hp, rfl⟩ := List.mem_map.mp hItem
    exact hUnmarked p hp
  have hClosing := hBody closing (.inr rfl)
  rw [hBlock]
  refine ⟨inject_inject_write hClosing content, ?_, fun hContent w hw => ?_⟩
  · rcases inject_cases content with ⟨parts, hParts, hInject⟩ | ⟨hNone, hInject⟩
    · exact .inl ⟨parts, hParts, hInject _⟩
    · exact .inr ⟨hNone, hInject _⟩
  · have hBreak : "\n\n".toList = ['\n', '\n'] := by decide
    have hBehind : ¬ w <:+: '\n' :: content := by
      obtain ⟨-, -, -, -, -, -, hFeed⟩ := hw.exists_cons
      have hMark := Text.infix_append_cons_iff (s := []) (t := content) hFeed
      rw [← List.nil_append ('\n' :: content), hMark]
      rintro (hInfix | hInfix)
      · exact hContent w hw (hInfix.trans List.nil_infix)
      · exact hContent w hw hInfix
    rw [inject, split?_eq_none hContent, hBreak, List.append_assoc]
    rcases hw with rfl | rfl
    · exact existsUnique_opening hBody hBehind
    · exact existsUnique_closing hClosing hBehind

/-- A text with sentinels that overlap and that stand the wrong way round, and one without; a name
and a value that would be a sentinel together if the colon had no blank behind it. -/
theorem inject_inject_overlap :
    let css := "/* rigger:end */ a /* rigger:start *//* rigger:start */* rigger:end */ b".toList
    let params := ((Stylesheet.scan "p { margin: 4px }".toList ⟨"a.css".toList⟩).map fun p =>
      { p with customProperty := "--a/* rigger".toList, default := .text "end */".toList })
    let block := build params [] []
    (∀ p ∈ params, Unmarked p.customProperty ∧ Unmarked ((p.effectiveValue []).render p.unit)) ∧
      inject css block = "/* rigger:end */ a /* rigger:start */
:root \x7B
  --a/* rigger: end */;
\x7D
/* rigger:end */ b".toList ∧
      (∀ other, inject (inject css block) other = inject css other) ∧
      ∃! cut : Text × Text,
        inject "a { gap: 1px }".toList block = cut.1 ++ (closing ++ cut.2) := by
  intro css params block
  have hUnmarked : ∀ p ∈ params, Unmarked p.customProperty ∧
      Unmarked ((p.effectiveValue []).render p.unit) := by
    simp only [unmarked_iff]
    decide +kernel
  refine ⟨hUnmarked, by decide +kernel, (inject_inject css params [] hUnmarked).1, ?_⟩
  refine (inject_inject _ params [] hUnmarked).2.2 ?_ closing (.inr rfl)
  rw [unmarked_iff]
  decide

end RootBlock

end DesignParams
