import DesignParams.Document.Decode
import DesignParams.Proofs.Json.Untyped
import DesignParams.Proofs.Number.Rounding

/-!
# Values in documents

A text comes back from a document as it is. So does a whole number of small magnitude, except that
zero loses its sign; of any other number this is a question about its decimals.
-/
set_option autoImplicit false

namespace DesignParams

open JsonReader (Numeral Reads)

/-! ## Whole numbers -/

namespace Binary64

def Survives (x : Binary64) : Prop :=
  JsonReader.run JsonReader.decimal (x.write JsonNumber.layout) = .ok x

instance (x : Binary64) : Decidable x.Survives :=
  inferInstanceAs (Decidable (_ = _))

def unsignZero : Binary64 → Binary64
  | .finite _ 0 => .finite false 0
  | x => x

theorem unsignZero_finite {units : Nat} (h : units ≠ 0) (negative : Bool) :
    unsignZero (.finite negative units) = .finite negative units := by
  cases units with
  | zero => exact absurd rfl h
  | succ units => rfl

theorem unsignZero_positive (units : Nat) : unsignZero (.finite false units) = .finite false units := by
  cases units <;> rfl

theorem whole_lt_limit {n : Nat} (h : n < 10 ^ 15) : n * one < limit := by
  have hOne : 10 ^ 15 * one ≤ limit := by decide +kernel
  exact (Nat.mul_lt_mul_of_pos_right h one_pos).trans_le hOne

theorem ofRatio_whole {n : Nat} (h : n < 10 ^ 15) (negative : Bool) :
    ofRatio negative n 1 = .finite negative (n * one) := by
  have hRound : roundUnits (n * one) 1 = n * one := roundUnits_mul_one (h.trans (by decide))
  rw [ofRatio, hRound, ofUnits, if_pos (whole_lt_limit h)]

theorem smallInt?_whole {n : Nat} (h : n < 10 ^ 15) (negative : Bool) :
    (finite negative (n * one)).smallInt? = some (if negative then -(n : Int) else n) := by
  have hQuotient : n * one / one = n := Nat.mul_div_cancel n one_pos
  rw [smallInt?, hQuotient, if_pos ⟨Nat.mul_mod_left n one, h⟩]

theorem smallInt?_ofInt {n : Int} (h : n.natAbs < 10 ^ 15) : (ofInt n).smallInt? = some n := by
  cases n with
  | ofNat n =>
    have hSmall : n < 10 ^ 15 := h
    rw [ofInt, ofRatio_whole hSmall, smallInt?_whole hSmall]
    rfl
  | negSucc n =>
    have hSmall : n + 1 < 10 ^ 15 := h
    rw [ofInt, ofRatio_whole hSmall, smallInt?_whole hSmall]
    rfl

theorem exists_whole {x : Binary64} {n : Int} (h : x.smallInt? = some n) :
    ∃ negative m, x = .finite negative (m * one) ∧ m < 10 ^ 15 ∧
      n = if negative then -(m : Int) else m := by
  cases x with
  | infinite negative => cases h
  | finite negative units =>
    rw [smallInt?] at h
    split at h
    · rename_i hWhole
      refine ⟨negative, units / one, ?_, hWhole.2, (Option.some.inj h).symm⟩
      rw [Nat.div_mul_cancel (Nat.dvd_of_mod_eq_zero hWhole.1)]
    · cases h

theorem natAbs_smallInt? {x : Binary64} {n : Int} (h : x.smallInt? = some n) : n.natAbs < 10 ^ 15 := by
  obtain ⟨negative, m, -, hm, rfl⟩ := exists_whole h
  cases negative with
  | true => rwa [if_pos rfl, Int.natAbs_neg]
  | false => exact hm

theorem ofInt_smallInt? {x : Binary64} {n : Int} (h : x.smallInt? = some n) :
    ofInt n = x.unsignZero := by
  obtain ⟨negative, m, rfl, hm, rfl⟩ := exists_whole h
  cases negative with
  | false =>
    rw [unsignZero_positive]
    exact ofRatio_whole hm false
  | true =>
    cases m with
    | zero =>
      rw [Nat.zero_mul]
      exact (ofRatio_whole hm false).trans (by rw [Nat.zero_mul]; rfl)
    | succ m =>
      rw [unsignZero_finite (Nat.mul_ne_zero (Nat.succ_ne_zero m) one_pos.ne')]
      exact ofRatio_whole hm true

theorem unsignZero_of_smallInt?_eq_none {x : Binary64} (h : x.smallInt? = none) : x.unsignZero = x := by
  cases x with
  | infinite negative => rfl
  | finite negative units =>
    refine unsignZero_finite ?_ negative
    rintro rfl
    have hZero := smallInt?_whole (n := 0) (by decide) negative
    rw [Nat.zero_mul, h] at hZero
    cases hZero

theorem smallInt?_unsignZero (x : Binary64) : x.unsignZero.smallInt? = x.smallInt? := by
  cases hSmall : x.smallInt? with
  | none => rw [unsignZero_of_smallInt?_eq_none hSmall, hSmall]
  | some n => rw [← ofInt_smallInt? hSmall, smallInt?_ofInt (natAbs_smallInt? hSmall)]

end Binary64

namespace JsonNumber

theorem ofBinary64_of_smallInt? {x : Binary64} {n : Int} (h : x.smallInt? = some n) :
    ofBinary64 x = ofInt n := by
  rw [ofBinary64, h]
  cases n <;> rfl

theorem ofBinary64_of_smallInt?_eq_none {x : Binary64} (h : x.smallInt? = none) :
    ofBinary64 x = .decimal x := by
  rw [ofBinary64, h]

theorem toBinary64_ofInt (n : Int) : (ofInt n).toBinary64 = Binary64.ofInt n := by
  cases n <;> rfl

theorem numeral_small {n : Int} (h : n.natAbs < 10 ^ 15) : Numeral (ofInt n).text (ofInt n) :=
  JsonReader.numeral_ofInt (by norm_num; omega) (by norm_num; omega)

/-- A number that survives is finite, and its text stands for it. -/
theorem numeral_survives {x : Binary64} (h : x.Survives) : Numeral (decimal x).text (decimal x) := by
  rw [Binary64.Survives] at h
  cases x with
  | infinite negative => cases negative <;> cases h
  | finite negative units =>
    obtain ⟨y, hNumeral⟩ := JsonReader.exists_numeral_finite negative units
    have hReads : Reads JsonReader.decimal (.ofDecimal (.finite negative units)) y :=
      JsonReader.reads_numeric hNumeral rfl
    obtain rfl : y = .finite negative units := Except.ok.inj (hReads.run.symm.trans h)
    exact hNumeral

end JsonNumber

/-! ## Values -/

namespace Value

/-- Does a number that is written with its point come back? -/
def Survives : Value → Prop
  | .number x => x.smallInt? = none → x.Survives
  | .text _ => True

def unsignZero : Value → Value
  | .number x => .number x.unsignZero
  | .text s => .text s

def negativeZero : Value :=
  .number (.finite true 0)

theorem unsignZero_eq_self {v : Value} (h : v ≠ negativeZero) : v.unsignZero = v := by
  cases v with
  | text s => rfl
  | number x =>
    cases x with
    | infinite negative => rfl
    | finite negative units =>
      cases units with
      | succ units => rfl
      | zero =>
        cases negative with
        | false => rfl
        | true => exact absurd rfl h

theorem toJson_unsignZero (v : Value) : v.unsignZero.toJson = v.toJson := by
  cases v with
  | text s => rfl
  | number x =>
    have hSmall := x.smallInt?_unsignZero
    rw [unsignZero, toJson, toJson, JsonNumber.ofBinary64, JsonNumber.ofBinary64, hSmall]
    cases h : x.smallInt? with
    | none => rw [Binary64.unsignZero_of_smallInt?_eq_none h]
    | some n => cases n <;> rfl

theorem reads_of_value {depth : Nat} {json read : Json} {v : Value}
    (h : Reads (JsonReader.value depth) json read) (hValue : ofJson? read = some v) :
    Reads (reader depth) json v := by
  intro level s rest hRest hText
  rw [reader, h level s rest hRest hText]
  simp only [hValue]

theorem numeral_toJson {x : Binary64} (h : (Value.number x).Survives) :
    ∃ read, Numeral (JsonNumber.ofBinary64 x).text read ∧ read.toBinary64 = x.unsignZero := by
  cases hSmall : x.smallInt? with
  | none =>
    rw [JsonNumber.ofBinary64_of_smallInt?_eq_none hSmall]
    refine ⟨_, JsonNumber.numeral_survives (h hSmall), ?_⟩
    exact (Binary64.unsignZero_of_smallInt?_eq_none hSmall).symm
  | some n =>
    rw [JsonNumber.ofBinary64_of_smallInt? hSmall]
    refine ⟨_, JsonNumber.numeral_small (Binary64.natAbs_smallInt? hSmall), ?_⟩
    rw [JsonNumber.toBinary64_ofInt, Binary64.ofInt_smallInt? hSmall]

theorem reads {v : Value} (h : v.Survives) (depth : Nat) :
    Reads (reader (depth + 1)) v.toJson v.unsignZero := by
  cases v with
  | text s => exact reads_of_value (JsonReader.reads_value_string depth s) rfl
  | number x =>
    obtain ⟨read, hNumeral, hRead⟩ := numeral_toJson h
    refine reads_of_value (hNumeral.reads_value depth) ?_
    rw [ofJson?, hRead]
    rfl

end Value

end DesignParams
