import DesignParams.Proofs.Rewire.Restore
import DesignParams.Proofs.RootBlock.Reading

/-!
# The meaning of a rewired stylesheet

A rewired stylesheet is read as the declarations of its block and then as the stylesheet it was made
from, with references in the place of the values that became parameters. The block must hold
self-contained values only, and it must not displace a leading character-set rule.
-/
set_option autoImplicit false

namespace DesignParams

namespace Declaration

def isBetweenRules (t : Token) : Bool :=
  t.kind = .blank ∨ t.kind = .comment ∨ t.kind = .marker

def isCharset (t : Token) : Bool :=
  match t.kind with
  | .atKeyword name => Text.eqIgnoringCase name "charset".toList
  | _ => false

def leadsWithCharset (css : Text) : Bool :=
  ((Token.tokenize css).find? (!isBetweenRules ·)).any isCharset

theorem onToken_isFirst {t : Token} (h : isCharset t = false) (hRule : isBetweenRules t = false) :
    (RuleState.between true).onToken t = (RuleState.between false).onToken t := by
  obtain ⟨kind, text⟩ := t
  cases kind with
  | atKeyword name =>
    have hOther : ¬ Text.eqIgnoringCase name "charset".toList = true := by
      rw [Bool.not_eq_true]
      exact h
    simp only [RuleState.onToken]
    rw [if_neg (fun hBoth => hOther hBoth.2), if_neg (fun hBoth => hOther hBoth.2)]
  | blank => cases hRule
  | comment => cases hRule
  | marker => cases hRule
  | _ => rfl

theorem onToken_between {t : Token} (h : isBetweenRules t = true) (isFirst : Bool) :
    (RuleState.between isFirst).onToken t = .between isFirst := by
  rcases of_decide_eq_true h with hKind | hKind | hKind <;> simp only [RuleState.onToken, hKind]

theorem ofRules_isFirst (nodes : List Node) (offset : Nat)
    (h : ((Node.tokensOfAll nodes).find? (!isBetweenRules ·)).any isCharset = false) :
    ofRules [] (.between true) offset nodes = ofRules [] (.between false) offset nodes := by
  induction nodes generalizing offset with
  | nil => rfl
  | cons node nodes ih =>
    cases node with
    | leaf t =>
      rw [Node.tokensOfAll, Node.tokens, List.singleton_append] at h
      rw [ofRules_leaf, ofRules_leaf]
      cases hRule : isBetweenRules t with
      | true =>
        rw [List.find?_cons_of_neg (by simp [hRule])] at h
        rw [onToken_between hRule, onToken_between hRule]
        exact ih _ h
      | false =>
        rw [List.find?_cons_of_pos (by simp [hRule])] at h
        rw [onToken_isFirst h hRule]
    | block bracket opener body closer =>
      rw [ofRules, ofRules, ofNode, ofNode]
      by_cases hCurly : bracket = .curly
      · rw [if_pos hCurly, if_pos hCurly]
      · rw [if_neg hCurly, if_neg hCurly]
        rfl

/-- A stylesheet without a leading character-set rule is read the same behind another rule. -/
theorem readBehind_eq {css : Text} (h : leadsWithCharset css = false) :
    readBehind css = ofRules [] (.between true) 0 (Node.ofText css) := by
  rw [leadsWithCharset, ← Node.tokensOfAll_ofText] at h
  exact (ofRules_isFirst _ 0 h).symm

theorem content_located (css : Text) (declarations : List Declaration) :
    (located css declarations).map content = declarations.map content := by
  rw [located, List.map_map]
  rfl

end Declaration

namespace Rewire

open Declaration

theorem rebound_located (params : List Parameter) (css : Text) (declarations : List Declaration) :
    (located css declarations).map (rebound params) = declarations.map (rebound params) := by
  rw [located, List.map_map]
  rfl

theorem exists_span_of_mem_scan {css : Text} {file : Path} {declarations : List Declaration}
    (hRead : structural? css = some (located css declarations)) :
    ∀ p ∈ Stylesheet.scan css file, ∃ d ∈ declarations,
      p.source.start = d.start ∧ p.source.stop = d.stop := by
  intro p hp
  obtain ⟨d, hMem, hDescribes⟩ := exists_describes_of_mem_scan hp
  rw [ofStylesheet, hRead, Option.getD_some, located] at hMem
  obtain ⟨e, he, rfl⟩ := List.mem_map.mp hMem
  exact ⟨e, he, hDescribes.start, hDescribes.stop⟩

/-- The declarations of a rewired stylesheet are those of its block, which hold the rendered values,
and those of the stylesheet, rebound to the parameters. -/
theorem structural?_rewire (css : Text) (file : Path) (overrides : Overrides)
    (declarations : List Declaration) (hOpening : ¬ RootBlock.opening <:+: css)
    (hClosing : ¬ RootBlock.closing <:+: css) (hCharset : leadsWithCharset css = false)
    (hRead : structural? css = some declarations)
    (hValues : ∀ p ∈ Stylesheet.scan css file,
      SelfContained ((p.effectiveValue overrides).render p.unit)) :
    ∃ rewired, structural? (rewire css (Stylesheet.scan css file) overrides) = some rewired ∧
      rewired.map content =
        (Stylesheet.scan css file).map (fun p =>
          (":root".toList, p.customProperty, (p.effectiveValue overrides).render p.unit)) ++
        declarations.map (rebound (Stylesheet.scan css file)) := by
  have hRoot : ":root".toList = [':', 'r', 'o', 'o', 't'] := by decide
  have hBreak : "\n\n".toList = ['\n', '\n'] := by decide
  have hUnmarked := RootBlock.unmarked_iff.mpr ⟨hOpening, hClosing⟩
  obtain ⟨t, hWoven⟩ := exists_woven_scan (List.Sublist.refl (Stylesheet.scan css file))
  obtain ⟨read, hRules, rfl⟩ := Option.map_eq_some_iff.mp hRead
  -- The text behind the block is the stylesheet with its values exchanged.
  rw [← readBehind_eq hCharset] at hRules
  obtain ⟨spliced, hSpliced, hContent⟩ := hWoven.readBehind_append [] [] read rfl hRules
    (exists_span_of_mem_scan hRead)
  rw [List.nil_append, List.nil_append] at hSpliced
  obtain ⟨moved, hMoved, hSame⟩ :=
    @RootBlock.readBehind_blank ['\n', '\n'] t spliced (List.cons_ne_nil _ _) rfl hSpliced
  have hItems : ∀ item ∈ (Stylesheet.scan css file).map (RootBlock.ofParameter overrides),
      IsGenerated item.customProperty ∧ SelfContained item.value := by
    intro item hItem
    obtain ⟨p, hp, rfl⟩ := List.mem_map.mp hItem
    exact ⟨Stylesheet.isGenerated_of_mem_scan hp, hValues p hp⟩
  obtain ⟨all, hAll, hSaid⟩ := RootBlock.read_write (fun item hItem => (hItems item hItem).1)
    (fun item hItem => (hItems item hItem).2) hMoved
  have hRewired := rewire_of_unmarked overrides (hWoven.splice_eq (List.Perm.refl _)) hUnmarked
    (hWoven.unmarked hUnmarked)
  rw [hBreak] at hRewired
  refine ⟨located (rewire css (Stylesheet.scan css file) overrides) all, ?_, ?_⟩
  · rw [structural?, hRewired, hAll]
    rfl
  · rw [content_located, hSaid, hSame, hContent, rebound_located, hRoot, List.map_map]
    rfl

/-- The colour and the margin of a paragraph within a media rule. -/
theorem structural?_rewire_media :
    let css := "@media print { p { margin: 4px; color: red } }".toList
    ∃ declarations rewired, structural? css = some declarations ∧
      structural? (rewire css (Stylesheet.scan css ⟨"a.css".toList⟩) []) = some rewired ∧
      rewired.map content =
        (Stylesheet.scan css ⟨"a.css".toList⟩).map (fun p =>
          (":root".toList, p.customProperty, (p.effectiveValue []).render p.unit)) ++
        declarations.map (rebound (Stylesheet.scan css ⟨"a.css".toList⟩)) := by
  intro css
  obtain ⟨declarations, hRead⟩ := Option.isSome_iff_exists.mp
    (show (structural? css).isSome = true by decide +kernel)
  obtain ⟨rewired, hRewired, hContent⟩ := structural?_rewire css ⟨"a.css".toList⟩ [] declarations
    (by decide +kernel) (by decide +kernel) (by decide +kernel) hRead (by decide +kernel)
  exact ⟨declarations, rewired, hRead, hRewired, hContent⟩

end Rewire

end DesignParams
