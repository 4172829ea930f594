import DesignParams.Rewire
import DesignParams.Proofs.Stylesheet.Name
import DesignParams.Proofs.Stylesheet.Span
import DesignParams.Proofs.Text.Occurrence
import Mathlib.Data.List.Perm.Basic

/-!
# Splicing

A text and its splice are woven from the same pieces, with the values of the parameters in the one
and references in the other. The splice replaces the last span first; every span still to come lies
before the ones replaced, so that it stays in place and none is left alone.
-/
set_option autoImplicit false

namespace DesignParams

namespace Rewire

/-- The parameters stand in the first text at their spans, in order and apart, and the second text
holds references in the place of their values. -/
inductive Woven : Nat → Text → List Parameter → Text → Prop
  | nil {offset : Nat} {s : Text} : Woven offset s [] s
  | cons {offset : Nat} {gap value rest rewired : Text} {p : Parameter} {params : List Parameter}
      (lead : Declaration.IsLead gap) (nonempty : value ≠ []) (read : p.source.value = value)
      (start : p.source.start = (offset + Text.byteLength gap : Nat))
      (stop : p.source.stop = (offset + Text.byteLength gap + Text.byteLength value : Nat))
      (name : IsGenerated p.customProperty)
      (tail : Woven (offset + Text.byteLength gap + Text.byteLength value) rest params rewired) :
      Woven offset (gap ++ (value ++ rest)) (p :: params)
        (gap ++ (referenceTo p.customProperty ++ rewired))

theorem exists_woven {offset : Nat} {s : Text} {declarations : List Declaration}
    {params : List Parameter} (h : Declaration.Laid offset s declarations)
    (hParams : List.Forall₂ Stylesheet.Describes declarations params) :
    ∃ t, Woven offset s params t := by
  induction h generalizing params with
  | @nil offset s =>
    cases hParams
    exact ⟨s, .nil⟩
  | @cons offset gap rest d declarations lead nonempty start stop _ ih =>
    cases hParams with
    | @cons _ p _ params hDescribes hRest =>
      obtain ⟨t, hTail⟩ := ih hRest
      rw [stop, start] at hTail
      refine ⟨_, .cons lead nonempty hDescribes.value ?_ ?_ hDescribes.name hTail⟩
      · rw [hDescribes.start, start]
      · rw [hDescribes.stop, stop, start]

theorem Woven.prepend {offset : Nat} {s t : Text} {params : List Parameter} (front : Text)
    (h : Woven (offset + Text.byteLength front) s params t) :
    Woven offset (front ++ s) params (front ++ t) := by
  cases h with
  | nil => exact .nil
  | @cons _ gap value rest rewired p params lead nonempty read start stop name tail =>
    have hGap : offset + Text.byteLength (front ++ gap) =
        offset + Text.byteLength front + Text.byteLength gap := by
      rw [Text.byteLength_append, Nat.add_assoc]
    rw [← hGap] at start stop tail
    rw [← List.append_assoc, ← List.append_assoc front]
    exact .cons (lead.prepend front) nonempty read start stop name tail

theorem Woven.eq_nil {offset : Nat} {s t : Text} {params : List Parameter}
    (h : Woven offset s params t) (hs : s = []) : t = [] := by
  cases h with
  | nil => exact hs
  | cons _ nonempty =>
    obtain ⟨-, hBehind⟩ := List.append_eq_nil_iff.mp hs
    exact absurd (List.append_eq_nil_iff.mp hBehind).1 nonempty

theorem Woven.sublist {offset : Nat} {s t : Text} {params fewer : List Parameter}
    (h : Woven offset s params t) (hFewer : fewer.Sublist params) :
    ∃ t', Woven offset s fewer t' := by
  induction h generalizing fewer with
  | @nil offset s =>
    rw [List.sublist_nil.mp hFewer]
    exact ⟨s, .nil⟩
  | @cons offset gap value rest rewired p params lead nonempty read start stop name _ ih =>
    cases hFewer with
    | cons _ hRest =>
      obtain ⟨t', hTail⟩ := ih hRest
      have hOffset : offset + Text.byteLength gap + Text.byteLength value =
          offset + Text.byteLength (gap ++ value) := by
        rw [Text.byteLength_append, Nat.add_assoc]
      rw [hOffset] at hTail
      have hAll := hTail.prepend (gap ++ value)
      rw [List.append_assoc] at hAll
      exact ⟨_, hAll⟩
    | cons_cons _ hRest =>
      obtain ⟨t', hTail⟩ := ih hRest
      exact ⟨_, .cons lead nonempty read start stop name hTail⟩

theorem sublist_distinct (file : Path) (seen : List Text) (declarations : List Declaration) :
    (Stylesheet.distinct file seen declarations).Sublist declarations := by
  induction declarations generalizing seen with
  | nil => exact .slnil
  | cons d rest ih =>
    rw [Stylesheet.distinct]
    split
    · exact (ih seen).cons d
    · exact (ih _).cons_cons d

theorem sublist_selected (css : Text) (file : Path) :
    (Stylesheet.selected css file).Sublist (Declaration.ofStylesheet css) :=
  (List.take_sublist _ _).trans ((sublist_distinct file [] _).trans List.filter_sublist)

theorem exists_describes {declarations : List Declaration} {params : List Parameter}
    (h : List.Forall₂ Stylesheet.Describes declarations params) {p : Parameter} (hp : p ∈ params) :
    ∃ d ∈ declarations, Stylesheet.Describes d p := by
  induction h with
  | nil => cases hp
  | cons hDescribes _ ih =>
    rcases List.mem_cons.mp hp with rfl | hp
    · exact ⟨_, List.mem_cons_self, hDescribes⟩
    · obtain ⟨d, hd, hRest⟩ := ih hp
      exact ⟨d, List.mem_cons_of_mem _ hd, hRest⟩

theorem exists_describes_of_mem_scan {css : Text} {file : Path} {p : Parameter}
    (hp : p ∈ Stylesheet.scan css file) :
    ∃ d ∈ Declaration.ofStylesheet css, Stylesheet.Describes d p := by
  obtain ⟨d, hd, hDescribes⟩ := exists_describes (Stylesheet.describes_named file [] _) hp
  exact ⟨d, (sublist_selected css file).subset hd, hDescribes⟩

/-- A stylesheet and any of the parameters that a scan finds in it, in order, can be woven. -/
theorem exists_woven_scan {css : Text} {file : Path} {params : List Parameter}
    (h : params.Sublist (Stylesheet.scan css file)) : ∃ t, Woven 0 css params t := by
  have hLaid := (Declaration.laid_ofStylesheet css).sublist (sublist_selected css file)
  obtain ⟨t, hAll⟩ := exists_woven hLaid (Stylesheet.describes_named file [] _)
  exact hAll.sublist h

/-! ## The replacements of woven parameters -/

theorem span?_eq_some {source : Source} {start : Nat} {value : Text} (hNonempty : value ≠ [])
    (hStart : source.start = start) (hStop : source.stop = (start + Text.byteLength value : Nat)) :
    source.span? = some (start, start + Text.byteLength value) := by
  have hPositive := Text.byteLength_pos hNonempty
  rw [Source.span?, hStart, hStop, if_pos (by omega)]
  rfl

theorem ofParameter?_eq_some {p : Parameter} {start : Nat} {value : Text} (hNonempty : value ≠ [])
    (hStart : p.source.start = start) (hStop : p.source.stop = (start + Text.byteLength value : Nat)) :
    Replacement.ofParameter? p = some ⟨start, start + Text.byteLength value, p.customProperty⟩ := by
  rw [Replacement.ofParameter?, span?_eq_some hNonempty hStart hStop]
  rfl

theorem Woven.le_start {offset : Nat} {s t : Text} {params : List Parameter}
    (h : Woven offset s params t) :
    ∀ r ∈ params.filterMap Replacement.ofParameter?, offset ≤ r.start := by
  induction h with
  | nil => simp
  | @cons offset gap value rest rewired p params lead nonempty read start stop name _ ih =>
    rw [List.filterMap_cons, ofParameter?_eq_some nonempty start stop]
    intro r hr
    rcases List.mem_cons.mp hr with rfl | hr
    · exact Nat.le_add_right _ _
    · have hTail := ih r hr
      omega

theorem Woven.pairwise_start {offset : Nat} {s t : Text} {params : List Parameter}
    (h : Woven offset s params t) :
    (params.filterMap Replacement.ofParameter?).Pairwise fun a b => a.start < b.start := by
  induction h with
  | nil => exact .nil
  | @cons offset gap value rest rewired p params lead nonempty read start stop name tail ih =>
    rw [List.filterMap_cons, ofParameter?_eq_some nonempty start stop]
    refine .cons (fun r hr => ?_) ih
    have hLow := tail.le_start r hr
    have hPositive := Text.byteLength_pos nonempty
    simp only
    omega

theorem cut?_append (front value rest : Text) (name : Text) :
    cut? ⟨Text.byteLength front, Text.byteLength front + Text.byteLength value, name⟩
      (front ++ (value ++ rest)) = some (front, rest) := by
  have hStart := Text.splitAt?_append front (value ++ rest)
  have hStop := Text.splitAt?_append (front ++ value) rest
  rw [Text.byteLength_append, List.append_assoc] at hStop
  simp only [cut?, hStart, hStop, Nat.le_add_right, ↓reduceIte]

/-- Replacing the spans of woven parameters, the last one first, turns the one text into the other.
The floor is then the start of the first span. -/
theorem Woven.applyAll_reverse {offset : Nat} {s t : Text} {params : List Parameter}
    (h : Woven offset s params t) (front : Text) (hFront : Text.byteLength front = offset)
    (more : List Replacement) :
    applyAll ((params.filterMap Replacement.ofParameter?).reverse ++ more) none (front ++ s) =
      applyAll more ((params.filterMap Replacement.ofParameter?).head?.map (·.start)) (front ++ t) := by
  induction h generalizing front more with
  | nil => rfl
  | @cons offset gap value rest rewired p params lead nonempty read start stop name tail ih =>
    subst hFront
    have hGap : Text.byteLength (front ++ gap) = Text.byteLength front + Text.byteLength gap :=
      Text.byteLength_append front gap
    have hBehind := ih (front ++ gap ++ value) (by rw [Text.byteLength_append, hGap])
      (⟨Text.byteLength (front ++ gap), Text.byteLength (front ++ gap) + Text.byteLength value,
        p.customProperty⟩ :: more)
    have hFloor : ((params.filterMap Replacement.ofParameter?).head?.map (·.start)).all
        (Text.byteLength (front ++ gap) + Text.byteLength value ≤ ·) = true := by
      cases hHead : (params.filterMap Replacement.ofParameter?).head? with
      | none => rfl
      | some r =>
        have hLow := tail.le_start r (List.mem_of_head? hHead)
        rw [← hGap] at hLow
        simpa using hLow
    rw [← hGap] at start stop
    rw [List.filterMap_cons, ofParameter?_eq_some nonempty start stop]
    simp only [List.reverse_cons, List.append_assoc, List.singleton_append, List.head?_cons,
      Option.map_some] at hBehind ⊢
    rw [hBehind, applyAll, ← List.append_assoc front gap, cut?_append]
    simp only
    rw [if_pos hFloor]
    simp only [List.append_assoc]

theorem descending_trans (a b c : Replacement) (hab : decide (b.start ≤ a.start) = true)
    (hbc : decide (c.start ≤ b.start) = true) : decide (c.start ≤ a.start) = true :=
  decide_eq_true (Nat.le_trans (of_decide_eq_true hbc) (of_decide_eq_true hab))

theorem descending_total (a b : Replacement) :
    (decide (b.start ≤ a.start) || decide (a.start ≤ b.start)) = true := by
  simpa using Nat.le_total b.start a.start

theorem descending_replacements (params : List Parameter) :
    (replacements params).Pairwise fun a b => b.start ≤ a.start :=
  (List.pairwise_mergeSort descending_trans descending_total _).imp fun h => of_decide_eq_true h

section

variable {s t : Text} {params all : List Parameter}

/-- The replacements of woven parameters are made from the last to the first, in whatever order the
parameters are given. -/
theorem Woven.replacements_eq (h : Woven 0 s params t)
    (hAll : (all.filterMap Replacement.ofParameter?).Perm
      (params.filterMap Replacement.ofParameter?)) :
    replacements all = (params.filterMap Replacement.ofParameter?).reverse := by
  have hSorted := h.pairwise_start
  have hDistinct : ((params.filterMap Replacement.ofParameter?).map (·.start)).Nodup :=
    List.pairwise_map.mpr (hSorted.imp Nat.ne_of_lt)
  have hPerm : (replacements all).Perm (params.filterMap Replacement.ofParameter?).reverse :=
    (List.mergeSort_perm _ _).trans (hAll.trans (List.reverse_perm _).symm)
  have hAntisymm : ∀ a b : Replacement, a ∈ replacements all →
      b ∈ (params.filterMap Replacement.ofParameter?).reverse →
      b.start ≤ a.start → a.start ≤ b.start → a = b := by
    intro a b ha hb hab hba
    have ha' := List.mem_reverse.mp (hPerm.subset ha)
    exact List.inj_on_of_nodup_map hDistinct ha' (List.mem_reverse.mp hb)
      (Nat.le_antisymm hba hab)
  exact List.Perm.eq_of_pairwise hAntisymm (descending_replacements all)
    (List.pairwise_reverse.mpr (hSorted.imp Nat.le_of_lt)) hPerm

theorem Woven.splice_eq (h : Woven 0 s params t)
    (hAll : (all.filterMap Replacement.ofParameter?).Perm
      (params.filterMap Replacement.ofParameter?)) : splice s all = t := by
  have hApplied := h.applyAll_reverse [] rfl []
  rw [List.append_nil, List.nil_append, List.nil_append] at hApplied
  rw [splice, h.replacements_eq hAll, hApplied, applyAll]

end

theorem replacements_scan (css : Text) (file : Path) :
    replacements (Stylesheet.scan css file) =
      ((Stylesheet.scan css file).filterMap Replacement.ofParameter?).reverse := by
  obtain ⟨t, hWoven⟩ := exists_woven_scan (List.Sublist.refl (Stylesheet.scan css file))
  exact hWoven.replacements_eq (List.Perm.refl _)

end Rewire

end DesignParams
