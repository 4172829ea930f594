import DesignParams.Number.Binary64
import Mathlib.Algebra.Group.Nat.Defs
import Mathlib.Data.Nat.Log
import Mathlib.Tactic.SplitIfs

/-!
# Rounding

Rounding keeps order, also between numbers whose last places differ, and leaves alone what has no
more significant bits than a number can have.
-/
set_option autoImplicit false

namespace DesignParams

namespace Binary64

theorem roundDiv_bounds (num den : Nat) :
    num / den ≤ roundDiv num den ∧ roundDiv num den ≤ num / den + 1 := by
  rw [roundDiv]
  split_ifs <;> omega

theorem roundDiv_mono {num num' : Nat} (den : Nat) (h : num ≤ num') :
    roundDiv num den ≤ roundDiv num' den := by
  rcases Nat.lt_or_eq_of_le (Nat.div_le_div_right (c := den) h) with hLess | hSame
  · have hLow := (roundDiv_bounds num den).2
    have hHigh := (roundDiv_bounds num' den).1
    omega
  · have hRest : num % den ≤ num' % den := by
      have hNum := Nat.div_add_mod num den
      have hNum' := Nat.div_add_mod num' den
      rw [hSame] at hNum
      omega
    simp only [roundDiv, hSame]
    split_ifs <;> omega

def excess (num den : Nat) : Nat :=
  Nat.log2 (num / den) - 52

theorem roundUnits_eq (num den : Nat) :
    roundUnits num den = roundDiv num (den * 2 ^ excess num den) * 2 ^ excess num den :=
  rfl

theorem roundUnits_le (num den : Nat) : roundUnits num den ≤ 2 ^ (53 + excess num den) := by
  have hLog : Nat.log2 (num / den) + 1 ≤ 53 + excess num den := by
    rw [excess]
    omega
  have hQuotient : num / den < 2 ^ 53 * 2 ^ excess num den := by
    rw [← Nat.pow_add]
    exact Nat.lt_of_lt_of_le Nat.lt_log2_self (Nat.pow_le_pow_right (by decide) hLog)
  have hShort : num / (den * 2 ^ excess num den) < 2 ^ 53 := by
    rw [← Nat.div_div_eq_div_mul]
    exact Nat.div_lt_of_lt_mul (by rwa [Nat.mul_comm] at hQuotient)
  have hRound := (roundDiv_bounds num (den * 2 ^ excess num den)).2
  rw [roundUnits_eq, Nat.pow_add]
  exact Nat.mul_le_mul_right _ (by omega)

theorem le_roundUnits {num den : Nat} (h : 0 < excess num den) :
    2 ^ (52 + excess num den) ≤ roundUnits num den := by
  have hLog : 52 + excess num den = Nat.log2 (num / den) := by
    rw [excess] at h ⊢
    omega
  have hNonzero : num / den ≠ 0 := by
    intro hZero
    rw [hZero, Nat.log2_zero] at hLog
    omega
  have hQuotient : 2 ^ 52 * 2 ^ excess num den ≤ num / den := by
    rw [← Nat.pow_add, hLog]
    exact Nat.log2_self_le hNonzero
  have hShort : 2 ^ 52 ≤ num / (den * 2 ^ excess num den) := by
    rw [← Nat.div_div_eq_div_mul]
    exact (Nat.le_div_iff_mul_le (Nat.two_pow_pos _)).mpr hQuotient
  rw [roundUnits_eq, Nat.pow_add]
  exact Nat.mul_le_mul_right _ (hShort.trans (roundDiv_bounds num _).1)

theorem excess_mono {num num' : Nat} (den : Nat) (h : num ≤ num') : excess num den ≤ excess num' den := by
  have hLog : Nat.log2 (num / den) ≤ Nat.log2 (num' / den) := by
    rw [Nat.log2_eq_log_two, Nat.log2_eq_log_two]
    exact Nat.log_mono_right (Nat.div_le_div_right h)
  exact Nat.sub_le_sub_right hLog 52

theorem roundUnits_mono {num num' : Nat} (den : Nat) (h : num ≤ num') :
    roundUnits num den ≤ roundUnits num' den := by
  rcases Nat.lt_or_eq_of_le (excess_mono den h) with hLess | hSame
  · calc
      roundUnits num den ≤ 2 ^ (53 + excess num den) := roundUnits_le num den
      _ ≤ 2 ^ (52 + excess num' den) := Nat.pow_le_pow_right (by decide) (by omega)
      _ ≤ roundUnits num' den := le_roundUnits (by omega)
  · rw [roundUnits_eq, roundUnits_eq, hSame]
    exact Nat.mul_le_mul_right _ (roundDiv_mono _ h)

theorem roundUnits_eq_self {m den : Nat} (hDen : 0 < den) (h : 2 ^ (Nat.log2 m - 52) ∣ m) :
    roundUnits (m * den) den = m := by
  obtain ⟨c, hc⟩ := h
  have hExcess : excess (m * den) den = Nat.log2 m - 52 := by
    rw [excess, Nat.mul_div_cancel m hDen]
  have hPositive : 0 < den * 2 ^ (Nat.log2 m - 52) := Nat.mul_pos hDen (Nat.two_pow_pos _)
  have hNum : m * den = c * (den * 2 ^ (Nat.log2 m - 52)) := by
    conv_lhs => rw [hc]
    rw [Nat.mul_comm _ c, Nat.mul_assoc, Nat.mul_comm den]
  have hRound : roundDiv (m * den) (den * 2 ^ (Nat.log2 m - 52)) = c := by
    rw [roundDiv, hNum, Nat.mul_div_cancel c hPositive, Nat.mul_mod_left]
    simp only [Nat.mul_zero, hPositive, ↓reduceIte]
  rw [roundUnits_eq, hExcess, hRound, Nat.mul_comm, ← hc]

theorem roundUnits_mul_two_pow {n : Nat} (h : n < 2 ^ 53) (k : Nat) :
    roundUnits (n * 2 ^ k) 1 = n * 2 ^ k := by
  have hExact : 2 ^ (Nat.log2 (n * 2 ^ k) - 52) ∣ n * 2 ^ k := by
    rcases Nat.eq_zero_or_pos n with rfl | hPositive
    · rw [Nat.zero_mul]
      exact Nat.dvd_zero _
    · have hLess : n * 2 ^ k < 2 ^ (53 + k) := by
        rw [Nat.pow_add]
        exact Nat.mul_lt_mul_of_pos_right h (Nat.two_pow_pos k)
      have hNonzero : n * 2 ^ k ≠ 0 := Nat.mul_ne_zero hPositive.ne' (Nat.two_pow_pos k).ne'
      have hLog := (Nat.log2_lt hNonzero).mpr hLess
      exact Nat.dvd_mul_left_of_dvd (Nat.pow_dvd_pow 2 (by omega)) n
  have hOne := roundUnits_eq_self Nat.one_pos hExact
  rwa [Nat.mul_one] at hOne

theorem exists_one_eq : ∃ k, one = 2 ^ k := by
  refine ⟨1074, ?_⟩
  unfold one
  generalize 1074 = k
  rfl

theorem one_pos : 0 < one := by
  obtain ⟨k, hk⟩ := exists_one_eq
  rw [hk]
  exact Nat.two_pow_pos k

theorem roundUnits_mul_one {n : Nat} (h : n < 2 ^ 53) : roundUnits (n * one) 1 = n * one := by
  obtain ⟨k, hk⟩ := exists_one_eq
  rw [hk]
  exact roundUnits_mul_two_pow h k

end Binary64

end DesignParams
