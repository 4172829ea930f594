import DesignParams.Number.Decimal
import DesignParams.Proofs.Number.Rounding
import Mathlib.Tactic.Ring

/-!
# Shortest decimals

The shortest decimal of a number has at most seventeen digits, and it stands for a value that is
rounded to the number.
-/
set_option autoImplicit false

namespace DesignParams

namespace Binary64

theorem roundDiv_mul_left {c : Nat} (h : 0 < c) (num den : Nat) :
    roundDiv (c * num) (c * den) = roundDiv num den := by
  have hLess : 2 * (c * (num % den)) < c * den ↔ 2 * (num % den) < den := by
    rw [Nat.mul_left_comm, Nat.mul_lt_mul_left h]
  have hMore : c * den < 2 * (c * (num % den)) ↔ den < 2 * (num % den) := by
    rw [Nat.mul_left_comm, Nat.mul_lt_mul_left h]
  simp only [roundDiv, Nat.mul_div_mul_left _ _ h, Nat.mul_mod_mul_left, hLess, hMore]

theorem roundUnits_mul_left {c : Nat} (h : 0 < c) (num den : Nat) :
    roundUnits (c * num) (c * den) = roundUnits num den := by
  have hExcess : excess (c * num) (c * den) = excess num den := by
    rw [excess, excess, Nat.mul_div_mul_left _ _ h]
  rw [roundUnits_eq, roundUnits_eq, hExcess, Nat.mul_assoc, roundDiv_mul_left h]

theorem ofRatio_mul_left {c : Nat} (h : 0 < c) (negative : Bool) (num den : Nat) :
    ofRatio negative (c * num) (c * den) = ofRatio negative num den := by
  rw [ofRatio, Nat.mul_assoc, roundUnits_mul_left h, ofRatio]

theorem length_ofNat_ten_mul {m : Nat} (h : 0 < m) :
    (Text.ofNat (10 * m)).length = (Text.ofNat m).length + 1 := by
  rw [Text.ofNat, Nat.toDigits_of_base_le (by decide) (by omega), List.length_append,
    Nat.mul_div_cancel_left m (by decide)]
  rfl

/-- A trailing zero can be counted by the exponent instead. -/
theorem ofDecimal_ten_mul (negative : Bool) {m : Nat} (h : 0 < m) (exponent : Int) :
    ofDecimal negative (10 * m) exponent = ofDecimal negative m (exponent + 1) := by
  have hMagnitude : ((Text.ofNat (10 * m)).length : Int) + exponent =
      (Text.ofNat m).length + (exponent + 1) := by
    rw [length_ofNat_ten_mul h]
    omega
  have hZero : 10 * m = 0 ↔ m = 0 := by omega
  have hPower (k : Nat) : Nat.pow 10 (k + 1) = 10 * Nat.pow 10 k := Nat.pow_succ'
  simp only [ofDecimal, hMagnitude, hZero]
  split_ifs with hSmall hLarge hWhole hNext hNext
  · rfl
  · rfl
  · have hShift : (exponent + 1).toNat = exponent.toNat + 1 := by omega
    rw [hShift, hPower]
    congr 1
    ring
  · omega
  · obtain rfl : exponent = -1 := by omega
    have hScale := ofRatio_mul_left (c := 10) (by decide) negative m 1
    change ofRatio negative (10 * m) (10 * 1) = ofRatio negative (m * 1) 1
    rw [hScale, Nat.mul_one]
  · have hShift : (-exponent).toNat = (-(exponent + 1)).toNat + 1 := by omega
    rw [hShift, hPower, ofRatio_mul_left (by decide)]

end Binary64

namespace Decimal

open Binary64 (one)

/-- Is the decimal one of at most seventeen digits that is rounded to the units? -/
structure ReadsAs (d : Decimal) (units : Nat) : Prop where
  pos : 0 < d.digits
  le : d.digits ≤ 10 ^ 17
  rounded : Binary64.ofDecimal false d.digits d.exponent = .finite false units

/-! ## Neighbours -/

theorem mul_pow_lt (units k : Nat) :
    units * 10 ^ k < one * 10 ^ (Text.ofNat (units * Nat.pow 10 k / one)).length := by
  have hDigits := (Nat.length_toDigits_le_iff (b := 10) (n := units * Nat.pow 10 k / one)
    (k := (Text.ofNat (units * Nat.pow 10 k / one)).length) (by decide)
    Nat.length_toDigits_pos).mp (Nat.le_refl _)
  rw [Nat.mul_comm one]
  exact (Nat.div_lt_iff_lt_mul Binary64.one_pos).mp hDigits

theorem exists_leading (units : Nat) : ∃ k length : Nat, k = 340 ∧
    leading units = (length : Int) - 341 ∧ units * 10 ^ k < one * 10 ^ length := by
  unfold leading
  generalize 340 = k
  exact ⟨k, _, rfl, rfl, mul_pow_lt units k⟩

theorem neighbours_le {units count digits : Nat}
    (h : digits ∈ neighbours units (leading units - count + 1)) : digits ≤ 10 ^ count := by
  obtain ⟨k, length, hk, hLeading, hBound⟩ := exists_leading units
  obtain ⟨num, den, hDen, hSmall, hMem⟩ : ∃ num den, 0 < den ∧ num < den * 10 ^ count ∧
      (digits = num / den ∨ digits = num / den + 1) := by
    have hPositive := Binary64.one_pos
    rw [neighbours] at h
    by_cases hExponent : leading units - count + 1 < 0
    · simp only [hExponent, ↓reduceIte] at h
      refine ⟨units * 10 ^ (k + count - length), one, hPositive, ?_, ?_⟩
      · have hTen : 0 < 10 ^ length := Nat.pow_pos (by decide)
        refine Nat.lt_of_mul_lt_mul_right (a := 10 ^ length) ?_
        calc
          units * 10 ^ (k + count - length) * 10 ^ length = units * 10 ^ (k + count) := by
            rw [Nat.mul_assoc, ← Nat.pow_add, Nat.sub_add_cancel (by omega)]
          _ = units * 10 ^ k * 10 ^ count := by rw [Nat.pow_add, Nat.mul_assoc]
          _ < one * 10 ^ length * 10 ^ count :=
            Nat.mul_lt_mul_of_pos_right hBound (Nat.pow_pos (by decide))
          _ = one * 10 ^ count * 10 ^ length := Nat.mul_right_comm _ _ _
      · have hShift : (-(leading units - count + 1)).toNat = k + count - length := by omega
        rw [hShift] at h
        split at h <;> simpa [or_comm] using h
    · simp only [hExponent, ↓reduceIte] at h
      refine ⟨units, one * 10 ^ (length - (k + count)), Nat.mul_pos hPositive
        (Nat.pow_pos (by decide)), ?_, ?_⟩
      · refine Nat.lt_of_mul_lt_mul_right (a := 10 ^ k) ?_
        calc
          units * 10 ^ k < one * 10 ^ length := hBound
          _ = one * 10 ^ (length - (k + count)) * 10 ^ count * 10 ^ k := by
            rw [Nat.mul_assoc, Nat.mul_assoc, ← Nat.pow_add, ← Nat.pow_add]
            congr 2
            omega
      · have hShift : (leading units - count + 1).toNat = length - (k + count) := by omega
        rw [hShift] at h
        split at h <;> simpa [or_comm] using h
  have hLow : num / den < 10 ^ count := Nat.div_lt_of_lt_mul hSmall
  omega

theorem readsAs_withDigits? {units count : Nat} {d : Decimal} (hUnits : units ≠ 0)
    (hCount : count ≤ 17) (h : withDigits? units count = some d) : d.ReadsAs units := by
  obtain ⟨digits, hFind, rfl⟩ := Option.map_eq_some_iff.mp h
  have hRead : Binary64.ofDecimal false digits (leading units - count + 1) = .finite false units := by
    simpa using List.find?_some hFind
  constructor
  case pos =>
    refine Nat.pos_of_ne_zero fun hZero => hUnits ?_
    subst hZero
    have hUnits : (Binary64.finite false 0) = .finite false units := hRead
    cases hUnits
    rfl
  case le =>
    exact (neighbours_le (List.mem_of_find?_eq_some hFind)).trans
      (Nat.pow_le_pow_right (by decide) hCount)
  case rounded => exact hRead

theorem ReadsAs.normalized {d : Decimal} {units : Nat} (h : d.ReadsAs units) :
    d.normalized.ReadsAs units := by
  fun_induction Decimal.normalized d with
  | case1 d hZero ih =>
    have hDigits : d.digits = 10 * (d.digits / 10) := by omega
    have hLess := h.le
    refine ih ⟨by simp only; omega, by simp only; omega, ?_⟩
    rw [← h.rounded, hDigits, Binary64.ofDecimal_ten_mul false (by omega)]
    simp
  | case2 => exact h

/-- The shortest decimal is zero, or one that is rounded to the units. -/
theorem shortest_cases (units : Nat) :
    shortest units = ⟨0, 0⟩ ∨ units ≠ 0 ∧ (shortest units).ReadsAs units := by
  rw [shortest]
  by_cases hUnits : units = 0
  · exact .inl (if_pos hUnits)
  · rw [if_neg hUnits]
    cases hFind : (List.range 17).findSome? fun i => withDigits? units (i + 1) with
    | none => exact .inl rfl
    | some d =>
      obtain ⟨i, hi, hSome⟩ := List.exists_of_findSome?_eq_some hFind
      have hCount : i + 1 ≤ 17 := List.mem_range.mp hi
      exact .inr ⟨hUnits, (readsAs_withDigits? hUnits hCount hSome).normalized⟩

end Decimal

end DesignParams
