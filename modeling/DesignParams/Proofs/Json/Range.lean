import DesignParams.Json.Reader
import DesignParams.Proofs.Number.Shortest

/-!
# The range of numbers that are read

A number is read in two roundings, so the digits of a number close to the greatest one could be read
as a number out of range. The shortest digits of a number never are: rounding keeps order, and the
digits of the greatest number are still in range.
-/
set_option autoImplicit false

namespace DesignParams

namespace JsonReader

open Binary64 (limit one roundUnits roundUnits_mono)

theorem mulUnits_mono {a b c d : Nat} (hLeft : a ≤ b) (hRight : c ≤ d) : mulUnits a c ≤ mulUnits b d :=
  roundUnits_mono one (Nat.mul_le_mul hLeft hRight)

theorem tenPower_mono {m n : Nat} (h : m ≤ n) : tenPower m ≤ tenPower n :=
  roundUnits_mono 1 (Nat.mul_le_mul_right one (Nat.pow_le_pow_right (by decide) h))

def product (digits exponent : Nat) : Nat :=
  mulUnits (roundUnits (digits * one) 1) (tenPower exponent)

theorem product_mono {m n a b : Nat} (hDigits : m ≤ n) (hExponent : a ≤ b) :
    product m a ≤ product n b :=
  mulUnits_mono (roundUnits_mono 1 (Nat.mul_le_mul_right one hDigits)) (tenPower_mono hExponent)

/-! ## The greatest number -/

def greatest : Nat :=
  (Nat.pow 2 53 - 1) * Nat.pow 2 2045

/-- Its shortest digits, which count multiples of `10 ^ 292`. -/
def greatestDigits : Nat := 17976931348623157

theorem shortest_greatest : Decimal.shortest greatest = ⟨greatestDigits, 292⟩ := by
  decide +kernel

theorem roundUnits_behind_greatest {exponent : Nat} (h : 292 = exponent) :
    roundUnits ((greatestDigits + 1) * Nat.pow 10 exponent * one) 1 = greatest := by
  subst h
  decide +kernel

theorem limit_le_roundUnits :
    limit ≤ roundUnits ((greatestDigits + 2) * Nat.pow 10 292 * one) 1 := by
  decide +kernel

theorem product_greatest : product greatestDigits 292 < limit := by
  decide +kernel

theorem product_leading_greatest : ∀ k : Fin 16,
    product ((greatestDigits + 1) / Nat.pow 10 (k + 1)) (293 + k) < limit := by
  decide +kernel

theorem product_seventeen_digits : product (Nat.pow 10 17) 291 < limit := by
  decide +kernel

/-! ## Shortest digits -/

theorem roundUnits_of_ofDecimal {digits units : Nat} {exponent : Int} (hUnits : units ≠ 0)
    (hExponent : 0 ≤ exponent)
    (h : Binary64.ofDecimal false digits exponent = .finite false units) :
    roundUnits (digits * Nat.pow 10 exponent.toNat * one) 1 = units ∧ units < limit := by
  rw [Binary64.ofDecimal] at h
  simp only [hExponent, ↓reduceIte] at h
  split at h
  · exact absurd (Binary64.finite.inj h).2.symm hUnits
  · split at h
    · cases h
    · rw [Binary64.ofRatio, Binary64.ofUnits] at h
      split at h
      · rename_i hLimit
        obtain ⟨-, rfl⟩ := Binary64.finite.inj h
        exact ⟨rfl, hLimit⟩
      · cases h

/-- Counted in multiples of `10 ^ 292`, a number in range has at most one digit more than the
greatest one. -/
theorem mul_pow_le_greatest {digits exponent : Nat} (hExponent : 292 ≤ exponent)
    (h : roundUnits (digits * Nat.pow 10 exponent * one) 1 < limit) :
    digits * 10 ^ (exponent - 292) ≤ greatestDigits + 1 := by
  have hPower : Nat.pow 10 exponent = 10 ^ (exponent - 292) * Nat.pow 10 292 := by
    generalize hFixed : 292 = fixed at hExponent ⊢
    rw [Nat.pow_eq, Nat.pow_eq, ← Nat.pow_add, Nat.sub_add_cancel hExponent]
  by_contra hMore
  have hLimit := limit_le_roundUnits
  have hOrder : roundUnits ((greatestDigits + 2) * Nat.pow 10 292 * one) 1 ≤
      roundUnits (digits * Nat.pow 10 exponent * one) 1 := by
    rw [hPower, ← Nat.mul_assoc]
    exact roundUnits_mono 1 (Nat.mul_le_mul_right one (Nat.mul_le_mul_right _ (by omega)))
  exact absurd h (Nat.not_lt.mpr (hLimit.trans hOrder))

theorem product_lt_limit {d : Decimal} {units : Nat} (hShortest : Decimal.shortest units = d)
    (hUnits : units ≠ 0) (h : d.ReadsAs units) (hExponent : 0 ≤ d.exponent) :
    d.exponent ≤ 308 ∧ product d.digits d.exponent.toNat < limit := by
  obtain ⟨hRounded, hLimit⟩ := roundUnits_of_ofDecimal hUnits hExponent h.rounded
  rcases Nat.lt_or_ge d.exponent.toNat 292 with hSmall | hLarge
  · refine ⟨by omega, Nat.lt_of_le_of_lt ?_ product_seventeen_digits⟩
    exact product_mono h.le (by omega)
  · have hDigits := mul_pow_le_greatest hLarge (by rwa [hRounded])
    rcases Nat.lt_or_eq_of_le hLarge with hMore | hExact
    · have hHigh : d.exponent.toNat ≤ 308 := by
        by_contra hOver
        have hPower : 10 ^ 17 ≤ 10 ^ (d.exponent.toNat - 292) :=
          Nat.pow_le_pow_right (by decide) (by omega)
        have hAtLeast := Nat.le_mul_of_pos_left (10 ^ (d.exponent.toNat - 292)) h.pos
        have hAbove : greatestDigits + 1 < 10 ^ 17 := by decide
        omega
      refine ⟨by omega, ?_⟩
      obtain ⟨k, hk⟩ : ∃ k : Fin 16, d.exponent.toNat = 293 + k :=
        ⟨⟨d.exponent.toNat - 293, by omega⟩, by simp only; omega⟩
      have hShift : d.exponent.toNat - 292 = k + 1 := by omega
      rw [hShift] at hDigits
      rw [hk]
      refine Nat.lt_of_le_of_lt (product_mono ?_ (Nat.le_refl _)) (product_leading_greatest k)
      exact (Nat.le_div_iff_mul_le (Nat.pow_pos (by decide))).mpr hDigits
    · rw [← hExact, Nat.sub_self, Nat.pow_zero, Nat.mul_one] at hDigits
      refine ⟨by omega, ?_⟩
      rw [← hExact]
      refine Nat.lt_of_le_of_lt (product_mono ?_ (Nat.le_refl _)) product_greatest
      -- One digit more is read as the greatest number, whose shortest digits are others.
      by_contra hOther
      have hNext : d.digits = greatestDigits + 1 := by omega
      rw [hNext, roundUnits_behind_greatest hExact] at hRounded
      rw [← hRounded, shortest_greatest] at hShortest
      rw [← hShortest] at hNext
      simp only at hNext
      omega

theorem exists_scaled?_of_neg {exponent : Int} (h : exponent < 0) (units steps : Nat) :
    ∃ scaled, scaled? units exponent steps = some scaled := by
  induction steps generalizing units exponent with
  | zero => exact ⟨0, rfl⟩
  | succ steps ih =>
    have hNegative : ¬ 0 ≤ exponent := by omega
    rw [scaled?]
    by_cases hNear : exponent.natAbs ≤ 308
    · simp only [hNear, hNegative, ↓reduceIte]
      exact ⟨_, rfl⟩
    · simp only [hNear, hNegative, ↓reduceIte]
      split
      · exact ⟨0, rfl⟩
      · exact ih (by omega) _

/-- The shortest digits of a number are read as some number in range. -/
theorem exists_scaled?_shortest {units : Nat} (hUnits : units ≠ 0)
    (h : (Decimal.shortest units).ReadsAs units) :
    ∃ scaled, scaled? (roundUnits ((Decimal.shortest units).digits * one) 1)
      (Decimal.shortest units).exponent 4 = some scaled := by
  rcases Int.lt_or_le (Decimal.shortest units).exponent 0 with hNegative | hExponent
  · exact exists_scaled?_of_neg hNegative _ 4
  · obtain ⟨hNear, hProduct⟩ := product_lt_limit rfl hUnits h hExponent
    have hAbs : (Decimal.shortest units).exponent.natAbs ≤ 308 := by omega
    rw [scaled?, if_pos hAbs, if_pos hExponent]
    exact ⟨_, if_pos hProduct⟩

end JsonReader

end DesignParams
