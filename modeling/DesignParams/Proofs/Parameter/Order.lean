import DesignParams.Parameter
import DesignParams.Proofs.Text.Bytes
import Mathlib.Data.List.Nodup
import Mathlib.Data.Prod.Lex

/-!
# The order of parameters

Parameters are listed by keys: the rank of the group, and the bytes of label, selector and id. Where
the keys are distinct the order is strict and total, and sorting forgets how a list was put
together.
-/
set_option autoImplicit false

namespace DesignParams

namespace Parameter

def key (p : Parameter) : Nat ×ₗ List Nat ×ₗ List Nat ×ₗ List Nat :=
  toLex (p.group.rank, toLex (Text.bytes p.label,
    toLex (Text.bytes (p.source.selector.getD []), Text.bytes p.id)))

theorem order_eq_lt_iff {p q : Parameter} : order p q = .lt ↔ p.key < q.key := by
  rw [order, key, key]
  simp only [Ordering.then_eq_lt, Nat.compare_eq_lt, Nat.compare_eq_eq, Text.order_eq_lt_iff,
    Text.order_eq_iff, Prod.Lex.toLex_lt_toLex, Text.bytes_inj]

theorem order_gt_iff {p q : Parameter} : order p q = .gt ↔ q.key < p.key := by
  have hSwap : (order p q).swap = order q p := by
    simp only [order, Ordering.swap_then, Nat.compare_swap, Text.swap_order]
  rw [← order_eq_lt_iff, ← hSwap, Ordering.swap_eq_lt]

theorem order_ne_gt_iff {p q : Parameter} : (order p q != .gt) = true ↔ p.key ≤ q.key := by
  rw [bne_iff_ne, ne_eq, order_gt_iff, not_lt]

theorem key_eq_iff {p q : Parameter} :
    p.key = q.key ↔ p.group.rank = q.group.rank ∧ p.label = q.label ∧
      p.source.selector.getD [] = q.source.selector.getD [] ∧ p.id = q.id := by
  simp only [key, toLex_inj, Prod.mk.injEq, Text.bytes_inj]

/-! ## Sorting -/

theorem perm_sort (params : List Parameter) : (sort params).Perm params :=
  List.mergeSort_perm _ _

theorem pairwise_sort (params : List Parameter) :
    (sort params).Pairwise fun p q => p.key ≤ q.key := by
  have hTrans (p q r : Parameter) (hpq : (order p q != .gt) = true)
      (hqr : (order q r != .gt) = true) : (order p r != .gt) = true :=
    order_ne_gt_iff.mpr ((order_ne_gt_iff.mp hpq).trans (order_ne_gt_iff.mp hqr))
  have hTotal (p q : Parameter) : ((order p q != .gt) || (order q p != .gt)) = true := by
    rw [Bool.or_eq_true, order_ne_gt_iff, order_ne_gt_iff]
    exact le_total p.key q.key
  exact (List.pairwise_mergeSort hTrans hTotal params).imp order_ne_gt_iff.mp

theorem pairwise_lt_sort {params : List Parameter} (h : (params.map key).Nodup) :
    (sort params).Pairwise fun p q => p.key < q.key := by
  have hKeys : (sort params).Pairwise fun p q => p.key ≠ q.key :=
    List.pairwise_map.mp (((perm_sort params).map key).nodup_iff.mpr h)
  exact ((pairwise_sort params).and hKeys).imp fun hBoth => lt_of_le_of_ne hBoth.1 hBoth.2

theorem sort_eq_of_perm {params others : List Parameter} (h : (params.map key).Nodup)
    (hPerm : others.Perm params) : sort others = sort params := by
  have hOthers : (others.map key).Nodup := (hPerm.map key).nodup_iff.mpr h
  have hSorted : (sort others).Perm (sort params) :=
    (perm_sort others).trans (hPerm.trans (perm_sort params).symm)
  refine hSorted.eq_of_pairwise ?_ (pairwise_lt_sort hOthers) (pairwise_lt_sort h)
  intro p q _ _ hpq hqp
  exact absurd hqp hpq.not_gt

theorem isStrictTotalOrder_order {params : List Parameter} (h : (params.map key).Nodup) :
    IsStrictTotalOrder {p // p ∈ params} fun p q => order p q = .lt where
  trichotomous p q hpq hqp := by
    rw [order_eq_lt_iff, not_lt] at hpq hqp
    exact Subtype.ext (List.inj_on_of_nodup_map h p.2 q.2 (le_antisymm hqp hpq))
  irrefl p := by
    rw [order_eq_lt_iff]
    exact lt_irrefl _
  trans p q r hpq hqr := by
    rw [order_eq_lt_iff] at hpq hqr ⊢
    exact hpq.trans hqr

end Parameter

end DesignParams
