import DesignParams.Plan
import DesignParams.Proofs.Project.WellFormed
import DesignParams.Proofs.RootBlock.Items

/-!
# The two documents of an edit

The root block of an edit declares the parameters of the scan and what is left of the block before;
the configuration describes the parameters alone. So the configuration covers the block exactly when
nothing is carried over, as in the first edit of a stylesheet.
-/
set_option autoImplicit false

namespace DesignParams

def RootBlock.declaredNames (css : Text) : List Text :=
  match split? css with
  | none => []
  | some parts => (items parts.inner).map (·.customProperty)

/-- Is the name left from the root block of the text: declared there, referred to outside and no
parameter's own? -/
def Rewire.IsLeft (css : Text) (params : List Parameter) (name : Text) : Prop :=
  name ∈ RootBlock.declaredNames css ∧ name ∈ RootBlock.references (outside css) ∧
    name ∉ params.map (·.customProperty)

theorem Rewire.mem_carried_iff_isLeft {css : Text} {params : List Parameter} {name : Text} :
    name ∈ (RootBlock.carried css params).map (·.customProperty) ↔ IsLeft css params name := by
  rw [IsLeft, RootBlock.declaredNames, outside]
  cases hSplit : RootBlock.split? css with
  | none => simp [RootBlock.carried, hSplit]
  | some parts =>
    rw [RootBlock.mem_carried_iff hSplit]
    constructor
    · rintro ⟨hReferred, hNew, hDeclared⟩
      exact ⟨hDeclared, hReferred, hNew⟩
    · rintro ⟨hDeclared, hReferred, hNew⟩
      exact ⟨hReferred, hNew, hDeclared⟩

namespace EditPlan

open Rewire (written IsLeft)

/-- How the root block of an edit and the configuration fit, for the text that is edited and the
overrides. -/
structure Agrees (plan : EditPlan) (current : Text) (overrides : Overrides) : Prop where
  /-- The block is the first one in the text. -/
  text : ∃ before after,
    plan.content =
        before ++ (RootBlock.write (written current plan.config.params overrides) ++ after) ∧
      ¬ RootBlock.opening <:+: before ++ RootBlock.opening.dropLast
  /-- It declares what the configuration describes and what is left. -/
  declared : ∀ name,
    name ∈ (written current plan.config.params overrides).map (·.customProperty) ↔
      name ∈ plan.config.params.map (·.customProperty) ∨ IsLeft current plan.config.params name
  /-- Nothing is left exactly when the configuration describes all that is declared. -/
  covered_iff :
    (∀ name, name ∈ (written current plan.config.params overrides).map (·.customProperty) ↔
      name ∈ plan.config.params.map (·.customProperty)) ↔
      ∀ name, ¬ IsLeft current plan.config.params name
  /-- Values of one line can be read back with their names. -/
  read : (∀ item ∈ written current plan.config.params overrides,
      '\n' ∉ item.value ∧ ¬ RootBlock.closing <:+: item.value) →
    RootBlock.declaredNames plan.content =
      (written current plan.config.params overrides).map (·.customProperty)

theorem isVariable_of_mem_written {current : Text} {params : List Parameter} {overrides : Overrides}
    (hParams : ∀ p ∈ params, IsGenerated p.customProperty) :
    ∀ item ∈ written current params overrides, RootBlock.IsVariable item.customProperty := by
  intro item hItem
  rcases List.mem_append.mp hItem with hItem | hItem
  · obtain ⟨p, hp, rfl⟩ := List.mem_map.mp hItem
    exact RootBlock.isVariable_of_isGenerated (hParams p hp)
  · obtain ⟨old, hOld, rfl⟩ := List.mem_map.mp hItem
    cases hSplit : RootBlock.split? current with
    | none =>
      rw [RootBlock.carried, hSplit] at hOld
      cases hOld
    | some parts =>
      exact (RootBlock.of_mem_items (RootBlock.mem_items_of_mem_carried hSplit hOld)).1

end EditPlan

end DesignParams
