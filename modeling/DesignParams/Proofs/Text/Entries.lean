import DesignParams.Text.Entries
import Mathlib.Data.List.Basic

/-!
# Sorted entries

Entries that are in increasing order of their keys are found again when they are entered one by one.
-/
set_option autoImplicit false

namespace DesignParams

namespace Text

theorem swap_order (s t : Text) : (order s t).swap = order t s := by
  fun_induction order s t with
  | case1 => rfl
  | case2 => rfl
  | case3 => rfl
  | case4 a s b t ih =>
    rw [order, Ordering.swap_then, ih, Nat.compare_swap]

theorem order_self (s : Text) : order s s = .eq := by
  induction s with
  | nil => rfl
  | cons c s ih => rw [order, Nat.compare_eq_eq.mpr rfl, ih]; rfl

theorem order_eq_iff {s t : Text} : order s t = .eq ↔ s = t := by
  constructor
  · fun_induction order s t with
    | case1 => exact fun _ => rfl
    | case2 => exact fun h => by cases h
    | case3 => exact fun h => by cases h
    | case4 a s b t ih =>
      intro h
      obtain ⟨hHead, hTail⟩ := Ordering.then_eq_eq.mp h
      rw [ih hTail, Char.ext (UInt32.toNat_inj.mp (Nat.compare_eq_eq.mp hHead))]
  · rintro rfl
    exact order_self s

theorem order_gt_iff {s t : Text} : order s t = .gt ↔ order t s = .lt := by
  rw [← swap_order s t]
  cases order s t <;> decide

end Text

namespace Entries

variable {α : Type}

def IsSorted (entries : Entries α) : Prop :=
  entries.Pairwise fun a b => Text.order a.1 b.1 = .lt

instance (entries : Entries α) : Decidable entries.IsSorted :=
  inferInstanceAs (Decidable (List.Pairwise _ _))

theorem insert_of_last {key : Text} {value : α} {entries : Entries α}
    (h : ∀ entry ∈ entries, Text.order entry.1 key = .lt) :
    insert key value entries = entries ++ [(key, value)] := by
  induction entries with
  | nil => rfl
  | cons entry entries ih =>
    rw [List.forall_mem_cons] at h
    rw [insert, Text.order_gt_iff.mpr h.1, List.cons_append, ih h.2]

theorem find?_insert (key : Text) (value : α) (entries : Entries α) (other : Text) :
    find? other (insert key value entries) = if key = other then some value else find? other entries := by
  induction entries with
  | nil => rfl
  | cons entry entries ih =>
    rw [insert]
    cases hOrder : Text.order key entry.1 with
    | lt => rfl
    | eq =>
      rw [Text.order_eq_iff.mp hOrder]
      simp only [find?]
      split <;> rfl
    | gt =>
      have hApart : entry.1 ≠ key := by
        rintro rfl
        rw [Text.order_self] at hOrder
        cases hOrder
      simp only [find?, ih]
      by_cases hOther : entry.1 = other
      · have hKey : key ≠ other := fun hEq => hApart (hOther.trans hEq.symm)
        rw [if_pos hOther, if_neg hKey, if_pos hOther]
      · rw [if_neg hOther, if_neg hOther]

end Entries

end DesignParams
