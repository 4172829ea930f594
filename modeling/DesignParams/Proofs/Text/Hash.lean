import DesignParams.Proofs.Text.Slug
import Mathlib.Algebra.Group.Nat.Defs

/-!
# Collisions of identities

A round of the hash loses nothing: neither two hashes nor two code units are taken to one. So a
changed code unit always changes the hash, and a common end changes nothing about whether two texts
collide. The short hash keeps all of the hash but for the last of seven digits.
-/
set_option autoImplicit false

namespace DesignParams

namespace Identity

/-! ## Rounds -/

theorem mul_prime_inj {a b : UInt32} : a * 16777619 = b * 16777619 ↔ a = b := by
  constructor
  · intro h
    -- The FNV prime is odd, and this is its inverse.
    have hInverse : (16777619 : UInt32) * 899433627 = 1 := by decide
    calc
      a = a * 16777619 * 899433627 := by rw [UInt32.mul_assoc, hInverse, UInt32.mul_one]
      _ = b * 16777619 * 899433627 := by rw [h]
      _ = b := by rw [UInt32.mul_assoc, hInverse, UInt32.mul_one]
  · rintro rfl
    rfl

theorem step_left_inj {a b : UInt32} (unit : UInt32) : step a unit = step b unit ↔ a = b := by
  rw [step, step, mul_prime_inj, UInt32.xor_left_inj]

theorem step_right_inj {u v : UInt32} (hash : UInt32) : step hash u = step hash v ↔ u = v := by
  rw [step, step, mul_prime_inj, UInt32.xor_right_inj]

theorem foldl_step_inj {a b : UInt32} (units : List UInt32) :
    units.foldl step a = units.foldl step b ↔ a = b := by
  induction units generalizing a b with
  | nil => rfl
  | cons unit units ih => rw [List.foldl_cons, List.foldl_cons, ih, step_left_inj]

/-! ## Code units -/

def units (s : Text) : List UInt32 :=
  s.flatMap utf16Units

def differences (u v : List UInt32) : Nat :=
  (u.zip v).countP fun (x, y) => x ≠ y

theorem differences_cons (x y : UInt32) (u v : List UInt32) :
    differences (x :: u) (y :: v) = differences u v + if x ≠ y then 1 else 0 := by
  simp only [differences, List.zip_cons_cons, List.countP_cons, decide_eq_true_eq]

theorem eq_of_differences_eq_zero {u v : List UInt32} (hLength : u.length = v.length)
    (h : differences u v = 0) : u = v := by
  induction u generalizing v with
  | nil => exact (List.eq_nil_of_length_eq_zero hLength.symm).symm
  | cons x u ih =>
    cases v with
    | nil => cases hLength
    | cons y v =>
      rw [differences_cons] at h
      obtain ⟨hRest, hSame⟩ := Nat.add_eq_zero_iff.mp h
      have hUnit : x = y := by simpa using hSame
      rw [hUnit, ih (Nat.succ.inj hLength) hRest]

theorem foldl_step_ne {u v : List UInt32} (hLength : u.length = v.length)
    (h : differences u v = 1) (hash : UInt32) : u.foldl step hash ≠ v.foldl step hash := by
  induction u generalizing v hash with
  | nil => cases h
  | cons x u ih =>
    cases v with
    | nil => cases h
    | cons y v =>
      rw [List.foldl_cons, List.foldl_cons]
      rw [differences_cons] at h
      split at h
      · -- The hashes part here, and the same units follow.
        rename_i hUnit
        rw [eq_of_differences_eq_zero (Nat.succ.inj hLength) (Nat.succ.inj h)]
        intro hSame
        exact hUnit ((step_right_inj hash).mp ((foldl_step_inj v).mp hSame))
      · rename_i hUnit
        rw [not_not.mp hUnit]
        exact ih (Nat.succ.inj hLength) h _

theorem stableHash_append (a s : Text) :
    stableHash (a ++ s) = (units s).foldl step (stableHash a) := by
  rw [stableHash, List.flatMap_append, List.foldl_append]
  rfl

/-- A change of one code unit changes the hash, and a common end neither makes two texts collide nor
keeps them from it. -/
theorem stableHash_separates :
    (∀ a b : Text, (units a).length = (units b).length → differences (units a) (units b) = 1 →
      stableHash a ≠ stableHash b) ∧
    ∀ a b s : Text, stableHash (a ++ s) = stableHash (b ++ s) ↔ stableHash a = stableHash b := by
  constructor
  · intro a b hLength hOne
    exact foldl_step_ne hLength hOne _
  · intro a b s
    rw [stableHash_append, stableHash_append, foldl_step_inj]

/-- Two characters that differ in the second half of their surrogate pairs. -/
theorem stableHash_separates_surrogate :
    let a := "a.css|p|content|😀".toList
    let b := "a.css|p|content|😁".toList
    (units a).length = (units b).length ∧ differences (units a) (units b) = 1 ∧
      stableHash a ≠ stableHash b := by
  intro a b
  have hLength : (units a).length = (units b).length := by decide
  have hOne : differences (units a) (units b) = 1 := by decide
  exact ⟨hLength, hOne, stableHash_separates.1 a b hLength hOne⟩

/-! ## Digits -/

def digitValue (c : Char) : Nat :=
  if isAsciiDigit c then c.toNat - 48 else c.toNat - 87

def ofBase36 (digits : Text) : Nat :=
  digits.foldl (fun n c => n * 36 + digitValue c) 0

theorem ofBase36_concat (digits : Text) (c : Char) :
    ofBase36 (digits ++ [c]) = ofBase36 digits * 36 + digitValue c := by
  rw [ofBase36, List.foldl_append]
  rfl

theorem digitValue_digit {d : Nat} (h : d < 36) : digitValue (base36.digit d) = d := by
  have hAll : ∀ d : Fin 36, digitValue (base36.digit d) = d := by decide
  exact hAll ⟨d, h⟩

theorem base36_of_lt {n : Nat} (h : n < 36) : base36 n = [base36.digit n] := by
  rw [base36, if_pos h]

theorem base36_of_le {n : Nat} (h : 36 ≤ n) :
    base36 n = base36 (n / 36) ++ [base36.digit (n % 36)] := by
  rw [base36, if_neg (Nat.not_lt.mpr h)]

theorem ofBase36_base36 (n : Nat) : ofBase36 (base36 n) = n := by
  induction n using Nat.strongRecOn with
  | ind n ih =>
    rcases Nat.lt_or_ge n 36 with hSmall | hLarge
    · have hDigit : ofBase36 [base36.digit n] = digitValue (base36.digit n) := Nat.zero_add _
      rw [base36_of_lt hSmall, hDigit, digitValue_digit hSmall]
    · rw [base36_of_le hLarge, ofBase36_concat, ih (n / 36) (by omega),
        digitValue_digit (Nat.mod_lt n (by decide))]
      omega

theorem base36_inj {m n : Nat} : base36 m = base36 n ↔ m = n := by
  constructor
  · intro h
    rw [← ofBase36_base36 m, h, ofBase36_base36]
  · rintro rfl
    rfl

theorem base36_ne_nil (n : Nat) : base36 n ≠ [] := by
  rw [base36]
  split <;> simp

theorem head?_base36_eq_zero_iff (n : Nat) : (base36 n).head? = some '0' ↔ n = 0 := by
  constructor
  · induction n using Nat.strongRecOn with
    | ind n ih =>
      intro h
      rcases Nat.lt_or_ge n 36 with hSmall | hLarge
      · rw [base36_of_lt hSmall] at h
        have hDigit := digitValue_digit hSmall
        rw [Option.some.inj h] at hDigit
        exact hDigit.symm
      · obtain ⟨c, digits, hDigits⟩ := List.exists_cons_of_ne_nil (base36_ne_nil (n / 36))
        rw [base36_of_le hLarge, hDigits, List.cons_append] at h
        have hZero := ih (n / 36) (by omega) (by rw [hDigits]; exact h)
        omega
  · rintro rfl
    rw [base36_of_lt (by decide)]
    rfl

/-- A number has at most as many digits as the exponent of a power of 36 above it says. -/
theorem length_base36_le_iff (k n : Nat) : (base36 n).length ≤ k + 1 ↔ n < 36 ^ (k + 1) := by
  induction k generalizing n with
  | zero =>
    rcases Nat.lt_or_ge n 36 with hSmall | hLarge
    · rw [base36_of_lt hSmall]
      simpa using hSmall
    · have hLength := List.length_pos_iff.mpr (base36_ne_nil (n / 36))
      rw [base36_of_le hLarge, List.length_append, List.length_singleton]
      omega
  | succ k ih =>
    rcases Nat.lt_or_ge n 36 with hSmall | hLarge
    · rw [base36_of_lt hSmall, List.length_singleton]
      have hPower : 36 ^ 1 ≤ 36 ^ (k + 1 + 1) := Nat.pow_le_pow_right (by decide) (by omega)
      omega
    · rw [base36_of_le hLarge, List.length_append, List.length_singleton, Nat.add_le_add_iff_right,
        ih, Nat.div_lt_iff_lt_mul (by decide), ← Nat.pow_succ]

/-! ## The short hash -/

/-- What is left of a number of at most seven digits when only six are kept. -/
def sixDigits (n : Nat) : Nat :=
  if n < 36 ^ 6 then n else n / 36

theorem take_base36 {n : Nat} (h : n < 36 ^ 7) : (base36 n).take 6 = base36 (sixDigits n) := by
  rw [sixDigits]
  split
  · rename_i hSix
    exact List.take_of_length_le ((length_base36_le_iff 5 n).mpr hSix)
  · rename_i hSeven
    -- All digits but the last are those of the quotient, and these are six.
    have hMost := (length_base36_le_iff 5 (n / 36)).mpr (by omega)
    have hLeast := (length_base36_le_iff 4 (n / 36)).not.mpr (by omega)
    rw [base36_of_le (by omega), List.take_left' (by omega)]

theorem toNat_stableHash_lt (x : Text) : (stableHash x).toNat < 36 ^ 7 :=
  calc
    (stableHash x).toNat < 2 ^ 32 := UInt32.toNat_lt _
    _ < 36 ^ 7 := by decide

theorem shortHash_eq (x : Text) : shortHash x = base36 (sixDigits (stableHash x).toNat) :=
  take_base36 (toNat_stableHash_lt x)

theorem sixDigits_lt {n : Nat} (h : n < 36 ^ 7) : sixDigits n < 36 ^ 6 := by
  rw [sixDigits]
  split <;> omega

/-- The short hash is a numeral of one to six digits to the base 36. It stands for the hash, or for
its quotient by 36 where the hash has seven digits, and two texts share it exactly if these numbers
agree. -/
theorem ofBase36_shortHash (x : Text) :
    (1 ≤ (shortHash x).length ∧ (shortHash x).length ≤ 6 ∧ (shortHash x).all isSlugChar = true ∧
      ((shortHash x).head? = some '0' ↔ shortHash x = ['0'])) ∧
    ofBase36 (shortHash x) = sixDigits (stableHash x).toNat ∧
    ∀ y, shortHash x = shortHash y ↔
      sixDigits (stableHash x).toNat = sixDigits (stableHash y).toNat := by
  have hZero : base36 0 = ['0'] := base36_of_lt (by decide)
  rw [shortHash_eq]
  refine ⟨⟨?_, ?_, all_base36 _, ?_⟩, ofBase36_base36 _, fun y => ?_⟩
  · exact List.length_pos_iff.mpr (base36_ne_nil _)
  · exact (length_base36_le_iff 5 _).mpr (sixDigits_lt (toNat_stableHash_lt x))
  · rw [head?_base36_eq_zero_iff, ← hZero, base36_inj]
  · rw [shortHash_eq, base36_inj]

-- The hash has seven digits, of which the last one is dropped.
example : base36 (stableHash ['a']).toNat = "1r9wi7g".toList ∧ shortHash ['a'] = "1r9wi7".toList := by
  decide +kernel

end Identity

end DesignParams
