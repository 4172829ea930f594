import DesignParams.Proofs.Rewire.Step

/-!
# Runs

A stylesheet that is scanned and rewired over and over. Whether every text of a run declares the
names that it refers to is settled by which lines of its blocks are read back: those of one line are.
-/
set_option autoImplicit false

namespace DesignParams

namespace Rewire

/-- The texts that the steps of a run leave, each made from the one before. -/
def run (file : Path) : Text → List Step → List Text
  | _, [] => []
  | css, step :: steps => step.apply file css :: run file (step.apply file css) steps

/-- Does each step of a run find the names that the text refers to behind it, or else read them back
from the block before? -/
def Keeps (file : Path) : List RootBlock.Item → Text → List Step → Prop
  | _, _, [] => True
  | old, css, step :: steps =>
    (∀ name ∈ RootBlock.references (outside (step.apply file css)),
      name ∈ (step.params file css).map (·.customProperty) ∨
        ∃ item ∈ old, item.customProperty = name ∧ item.IsLegible) ∧
    Keeps file (step.written file css) (step.apply file css) steps

instance (file : Path) :
    ∀ (old : List RootBlock.Item) (css : Text) (steps : List Step), Decidable (Keeps file old css steps)
  | _, _, [] => inferInstanceAs (Decidable True)
  | _, css, step :: steps =>
    have := instDecidableKeeps file (step.written file css) (step.apply file css) steps
    inferInstanceAs (Decidable (_ ∧ _))

theorem IsRigged.forall_isBound_iff {css : Text} {items : List RootBlock.Item} {after : Text}
    (h : IsRigged css items after) {file : Path} {steps : List Step}
    (hSteps : ∀ step ∈ steps, step.IsSound)
    (hApart : ∀ next ∈ (css :: run file css steps).dropLast,
      ∀ p ∈ Stylesheet.scan next file, IsApart next p) :
    (∀ next ∈ run file css steps, IsBound next) ↔ Keeps file items css steps := by
  induction steps generalizing css items after with
  | nil =>
    constructor
    · intro _
      trivial
    · intro _ next hNext
      cases hNext
  | cons step steps ih =>
    have hStep := hSteps step List.mem_cons_self
    have hHere := hApart css List.mem_cons_self
    obtain ⟨behind, hRigged, -⟩ := h.exists_apply hStep hHere
    have hBehind := ih hRigged (fun s hs => hSteps s (List.mem_cons_of_mem step hs))
      (fun next hNext => hApart next (List.mem_cons_of_mem css hNext))
    rw [run, Keeps, List.forall_mem_cons, h.isBound_apply_iff hStep hHere, hBehind]

/-- Values of one line are never lost: a text that is bound stays so. -/
theorem IsRigged.isBound_of_lines {css : Text} {items : List RootBlock.Item} {after : Text}
    (h : IsRigged css items after)
    (hBound : ∀ name ∈ RootBlock.references after, name ∈ items.map (·.customProperty))
    (hLines : ∀ item ∈ items, '\n' ∉ item.value) {file : Path} {steps : List Step}
    (hSteps : ∀ step ∈ steps, step.IsSound)
    (hApart : ∀ next ∈ (css :: run file css steps).dropLast,
      ∀ p ∈ Stylesheet.scan next file, IsApart next p)
    (hFound : ∀ next ∈ css :: run file css steps, ∀ step ∈ steps,
      ∀ p ∈ step.params file next, '\n' ∉ p.source.value) :
    ∀ next ∈ run file css steps, IsBound next := by
  induction steps generalizing css items after with
  | nil =>
    intro next hNext
    cases hNext
  | cons step steps ih =>
    have hStep := hSteps step List.mem_cons_self
    obtain ⟨behind, hRigged, hNames⟩ := h.exists_apply hStep (hApart css List.mem_cons_self)
    have hWritten : ∀ item ∈ step.written file css, '\n' ∉ item.value :=
      forall_written (fun p hp => Step.isLiteral_of_mem hp)
        (fun id text hMem => (hStep.overrides id text hMem).2)
        (fun s hs => newline_not_mem_of_all_quantity hs)
        (hFound css List.mem_cons_self step List.mem_cons_self)
        (fun item hItem => (h.of_mem_carried hItem).2.2)
    have hKept : ∀ name ∈ RootBlock.references behind,
        name ∈ (step.written file css).map (·.customProperty) := by
      intro name hName
      rw [Step.mem_written_iff, h.mem_carried_iff]
      by_cases hParam : name ∈ (step.params file css).map (·.customProperty)
      · exact .inl hParam
      · right
        have hOld := (hNames name hName).resolve_right hParam
        obtain ⟨item, hItem, rfl⟩ := List.mem_map.mp (hBound name hOld)
        exact ⟨hOld, hParam, item, hItem, rfl,
          RootBlock.Item.isLegible_of_not_mem (h.variables item hItem) (hLines item hItem)⟩
    have hBehind := ih hRigged hKept hWritten
      (fun s hs => hSteps s (List.mem_cons_of_mem step hs))
      (fun next hNext => hApart next (List.mem_cons_of_mem css hNext))
      (fun next hNext s hs =>
        hFound next (List.mem_cons_of_mem css hNext) s (List.mem_cons_of_mem step hs))
    rw [run, List.forall_mem_cons]
    exact ⟨hRigged.isBound_iff.mpr hKept, hBehind⟩

/-- A run leaves no reference without a declaration exactly when each step keeps the names that are
referred to: it finds them, or the block before declares them in a line that is read back. -/
theorem isBound_run_iff (css : Text) (file : Path) (steps : List Step)
    (hOpening : ¬ RootBlock.opening <:+: css) (hClosing : ¬ RootBlock.closing <:+: css)
    (hLead : ¬ RootBlock.lead <:+: css) (hSteps : ∀ step ∈ steps, step.IsSound)
    (hApart : ∀ next ∈ (run file css steps).dropLast,
      ∀ p ∈ Stylesheet.scan next file, IsApart next p) :
    (∀ next ∈ run file css steps, IsBound next) ↔ Keeps file [] css steps := by
  have hUnmarked := RootBlock.unmarked_iff.mpr ⟨hOpening, hClosing⟩
  cases steps with
  | nil =>
    constructor
    · intro _
      trivial
    · intro _ next hNext
      cases hNext
  | cons step steps =>
    obtain ⟨behind, hRigged, hNames⟩ :=
      @exists_apply css file step hUnmarked hLead (hSteps step List.mem_cons_self)
    have hBehind := hRigged.forall_isBound_iff
      (fun s hs => hSteps s (List.mem_cons_of_mem step hs)) hApart
    rw [run, Keeps, List.forall_mem_cons, hBehind, hRigged.isBound_iff, hRigged.outside]
    refine and_congr_left fun _ => ?_
    constructor
    · exact fun _ name hName => .inl (hNames name hName)
    · exact fun _ name hName => Step.mem_written_iff.mpr (.inl (hNames name hName))

/-- A margin of two lines is declared by the first step, and no longer by the second, which finds
the spacing of a theme. -/
theorem not_isBound_run_margin :
    let css := "p \x7B margin: 1px\n 2px; \x7D".toList
    let theme := "module.exports = \x7B theme: \x7B spacing: \x7B sm: '4px' \x7D \x7D \x7D".toList
    let first : Step := ⟨[], ⟨"tailwind.config.js".toList⟩, 60, []⟩
    let second : Step :=
      ⟨theme, ⟨"tailwind.config.js".toList⟩, 60, [("rig.tw.spacing-sm".toList, .text "8px".toList)]⟩
    ¬ ∀ next ∈ run ⟨"a.css".toList⟩ css [first, second], IsBound next := by
  intro css theme first second hBound
  have hTheme : ∀ p ∈ Theme.scan second.theme second.themeFile second.limit,
      p.source.value.all isQuantityChar = true := by decide +kernel
  have hFirst : first.IsSound := by
    have hNone : Theme.scan first.theme first.themeFile first.limit = [] := by decide +kernel
    refine ⟨fun id text hMem => ?_, fun p hp => ?_⟩
    · cases hMem
    · rw [hNone] at hp
      cases hp
  have hSecond : second.IsSound :=
    ⟨sound_of_single_override (by decide), fun p hp => enclosed_of_all_quantity (hTheme p hp)⟩
  have hKeeps := (isBound_run_iff css ⟨"a.css".toList⟩ [first, second] (by decide) (by decide)
    (by decide) (by simp [hFirst, hSecond]) (by decide +kernel)).mp hBound
  exact absurd hKeeps (by decide +kernel)

/-- An override leaves a bracket open. The value that the second step finds in the block reaches over
the end of the block, and takes the declaration of the colour out of it. -/
theorem not_isBound_run_bracket :
    let css := "p \x7B color: #333 \x7D".toList
    let file : Path := ⟨"a.css".toList⟩
    let first : Step :=
      ⟨[], file, 60, [("rig.colour-color-1vglb3".toList, .text "red; color: (".toList)]⟩
    let second : Step := ⟨[], file, 60, []⟩
    Keeps file [] css [first, second] ∧ ¬ ∀ next ∈ run file css [first, second], IsBound next := by
  decide +kernel

/-- A value of a theme closes the block, and the margin that is carried over stands behind it. -/
theorem not_isBound_run_sentinel :
    let css := "p \x7B margin: 4px \x7D".toList
    let file : Path := ⟨"a.css".toList⟩
    let theme := "colors: \x7B a: '/* rigger:end */' \x7D".toList
    let first : Step := ⟨[], file, 60, []⟩
    let second : Step := ⟨theme, file, 60, []⟩
    Keeps file [] css [first, second] ∧ ¬ ∀ next ∈ run file css [first, second], IsBound next := by
  decide +kernel

/-- A run whose steps find values of one line only leaves no reference without a declaration. -/
theorem isBound_run_of_lines (css : Text) (file : Path) (steps : List Step)
    (hOpening : ¬ RootBlock.opening <:+: css) (hClosing : ¬ RootBlock.closing <:+: css)
    (hLead : ¬ RootBlock.lead <:+: css) (hSteps : ∀ step ∈ steps, step.IsSound)
    (hApart : ∀ next ∈ (run file css steps).dropLast,
      ∀ p ∈ Stylesheet.scan next file, IsApart next p)
    (hFound : ∀ next ∈ css :: run file css steps, ∀ step ∈ steps,
      ∀ p ∈ step.params file next, '\n' ∉ p.source.value) :
    ∀ next ∈ run file css steps, IsBound next := by
  have hUnmarked := RootBlock.unmarked_iff.mpr ⟨hOpening, hClosing⟩
  cases steps with
  | nil =>
    intro next hNext
    cases hNext
  | cons step steps =>
    have hStep := hSteps step List.mem_cons_self
    obtain ⟨behind, hRigged, hNames⟩ := @exists_apply css file step hUnmarked hLead hStep
    have hLines : ∀ item ∈ step.written file css, '\n' ∉ item.value := by
      refine forall_written (fun p hp => Step.isLiteral_of_mem hp)
        (fun id text hMem => (hStep.overrides id text hMem).2)
        (fun s hs => newline_not_mem_of_all_quantity hs)
        (hFound css List.mem_cons_self step List.mem_cons_self) fun item hItem => ?_
      rw [carried_eq_nil hUnmarked] at hItem
      cases hItem
    have hKept : ∀ name ∈ RootBlock.references behind,
        name ∈ (step.written file css).map (·.customProperty) := fun name hName =>
      Step.mem_written_iff.mpr (.inl (hNames name hName))
    rw [run, List.forall_mem_cons]
    refine ⟨hRigged.isBound_iff.mpr hKept, hRigged.isBound_of_lines hKept hLines
      (fun s hs => hSteps s (List.mem_cons_of_mem step hs)) hApart fun next hNext s hs => ?_⟩
    exact hFound next (List.mem_cons_of_mem css hNext) s (List.mem_cons_of_mem step hs)

end Rewire

end DesignParams
