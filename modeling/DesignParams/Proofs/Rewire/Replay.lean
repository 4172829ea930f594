import DesignParams.Proofs.Rewire.Splice
import DesignParams.Proofs.Stylesheet.Exact

/-!
# Replaying a splice

A splice replaces spans from the last to the first and leaves out those that do not fit. The same
text is put together from front to back, and no span of a scan is left out.
-/
set_option autoImplicit false

namespace DesignParams

namespace Rewire

theorem trimmed_of_mem_scan {css : Text} {file : Path} {p : Parameter}
    (hp : p ∈ Stylesheet.scan css file) : Text.trim p.source.value = p.source.value := by
  obtain ⟨d, hd, hDescribes⟩ := exists_describes_of_mem_scan hp
  have hRead : Declaration.structural? css = some (Declaration.ofStylesheet css) ∨
      Declaration.ofStylesheet css = Declaration.pairs css := by
    rw [Declaration.ofStylesheet]
    cases Declaration.structural? css with
    | none => exact .inr rfl
    | some declarations => exact .inl rfl
  rw [hDescribes.value]
  exact ((Declaration.isExact_of_read hRead).1 d hd).trimmed

/-- The text behind an offset with the values of the parameters replaced from front to back, if
every value stands at its span and behind the one before. -/
def replayFrom? (css : Text) : Nat → List Parameter → Option Text
  | offset, [] => Text.slice? offset (Text.byteLength css) css
  | offset, p :: params => do
    let (start, stop) ← p.source.span?
    let gap ← Text.slice? offset start css
    let value ← Text.slice? start stop css
    let rest ← replayFrom? css stop params
    if value = p.source.value then some (gap ++ (referenceTo p.customProperty ++ rest)) else none

def replay? (css : Text) (params : List Parameter) : Option Text :=
  replayFrom? css 0 params

theorem Woven.replayFrom?_eq {offset : Nat} {s t : Text} {params : List Parameter}
    (h : Woven offset s params t) (front : Text) (hFront : Text.byteLength front = offset) :
    replayFrom? (front ++ s) offset params = some t := by
  induction h generalizing front with
  | @nil offset s =>
    have hSlice := Text.slice?_append front s []
    rw [List.append_nil, ← Text.byteLength_append, hFront] at hSlice
    exact hSlice
  | @cons offset gap value rest rewired p params lead nonempty read start stop name tail ih =>
    subst hFront
    have hGap := Text.slice?_append front gap (value ++ rest)
    have hValue := Text.slice?_append (front ++ gap) value rest
    have hRest := ih (front ++ gap ++ value) (by simp only [Text.byteLength_append])
    rw [Text.byteLength_append] at hValue
    simp only [List.append_assoc] at hValue hRest
    rw [replayFrom?, span?_eq_some nonempty start stop]
    simp only [Option.bind_eq_bind, Option.bind_some, hGap, hValue, hRest, read, ↓reduceIte]

/-- Spans are exact in both readings of a stylesheet, so that rewiring any of its parameters, in
order, is to replace each of their values before the block is put in. -/
theorem replay?_eq_some (css : Text) (file : Path) :
    (∀ declarations,
      Declaration.structural? css = some declarations ∨ declarations = Declaration.pairs css →
        (∀ d ∈ declarations, Declaration.IsExact css d) ∧
          declarations.Pairwise fun d e => d.stop ≤ e.start) ∧
    ∀ params, params.Sublist (Stylesheet.scan css file) →
      ∃ t, replay? css params = some t ∧
        ∀ overrides, rewire css params overrides =
          RootBlock.inject t (RootBlock.build params (RootBlock.carried css params) overrides) := by
  refine ⟨fun declarations hRead => Declaration.isExact_of_read hRead, fun params hParams => ?_⟩
  obtain ⟨t, hWoven⟩ := exists_woven_scan hParams
  refine ⟨t, hWoven.replayFrom?_eq [] rfl, fun overrides => ?_⟩
  rw [rewire, hWoven.splice_eq (List.Perm.refl _)]

/-- The margin of a stylesheet that ends in the middle of a rule. -/
theorem replay?_margin :
    let css := "p { color: red; margin: 4px; } q".toList
    let params := (Stylesheet.scan css ⟨"a.css".toList⟩).drop 1
    Declaration.structural? css = none ∧
      (Declaration.pairs css).map (·.value) = ["red".toList, "4px".toList] ∧
      (∀ d ∈ Declaration.pairs css, Declaration.IsExact css d) ∧
      params.map (·.source.value) = ["4px".toList] ∧
      ∃ t, replay? css params = some t ∧
        ∀ overrides, rewire css params overrides =
          RootBlock.inject t (RootBlock.build params (RootBlock.carried css params) overrides) := by
  intro css params
  obtain ⟨hSpans, hReplay⟩ := replay?_eq_some css ⟨"a.css".toList⟩
  exact ⟨by decide +kernel, by decide +kernel, (hSpans _ (.inr rfl)).1, by decide +kernel,
    hReplay params (List.drop_sublist 1 _)⟩

end Rewire

end DesignParams
