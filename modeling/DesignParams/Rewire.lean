import DesignParams.RootBlock

/-!
# Rewiring a stylesheet

Each value with a span gives way to a reference to its custom property, and the root block binds
the properties. The spans are replaced from the last to the first, so those still to come keep
their places; a span that is out of range, that cuts a character or that overlaps one already
replaced is left alone.
-/
set_option autoImplicit false

namespace DesignParams

namespace Rewire

structure Replacement where
  start : Nat
  stop : Nat
  customProperty : Text
deriving DecidableEq, Repr

def Replacement.ofParameter? (p : Parameter) : Option Replacement :=
  p.source.span?.map fun (start, stop) => ⟨start, stop, p.customProperty⟩

/-- The replacements of parameters, the last one in the text first; those that begin together keep
their order. -/
def replacements (params : List Parameter) : List Replacement :=
  (params.filterMap Replacement.ofParameter?).mergeSort fun a b => b.start ≤ a.start

def referenceTo (customProperty : Text) : Text :=
  "var(".toList ++ customProperty ++ ")".toList

def cut? (r : Replacement) (s : Text) : Option (Text × Text) :=
  match Text.splitAt? r.start s, Text.splitAt? r.stop s with
  | some (before, _), some (_, after) => if r.start ≤ r.stop then some (before, after) else none
  | _, _ => none

/-- Replaces spans in turn; no span may reach behind the floor, the start of the last one that was
replaced. -/
def applyAll : List Replacement → Option Nat → Text → Text
  | [], _, s => s
  | r :: rest, floor, s =>
    match cut? r s with
    | some (before, after) =>
      -- Behind the floor the offsets are no longer those of the parameters.
      if floor.all (r.stop ≤ ·) then
        applyAll rest (some r.start) (before ++ referenceTo r.customProperty ++ after)
      else applyAll rest floor s
    | none => applyAll rest floor s

def splice (content : Text) (params : List Parameter) : Text :=
  applyAll (replacements params) none content

end Rewire

/-- Rewires a stylesheet: its values become references and its root block declares them. -/
def rewire (content : Text) (params : List Parameter) (overrides : Overrides) : Text :=
  RootBlock.inject (Rewire.splice content params)
    (RootBlock.build params (RootBlock.carried content params) overrides)

end DesignParams
