import DesignParams.Json.Reader
import DesignParams.Proofs.Parameter.Quantity

/-!
# Numbers

A number is read up to the first character that cannot go on with it, and whatever stands from there
on makes no difference. Whole numbers are read as they are.
-/
set_option autoImplicit false

namespace DesignParams

namespace JsonReader

def Ends (rest : Text) : Prop :=
  ∀ c ∈ rest.head?, isAsciiDigit c = false ∧ c ≠ '.' ∧ c ≠ 'e' ∧ c ≠ 'E'

theorem ends_nil : Ends [] := by
  rintro c ⟨⟩

theorem ends_cons {c : Char} (h : isAsciiDigit c = false ∧ c ≠ '.' ∧ c ≠ 'e' ∧ c ≠ 'E') (s : Text) :
    Ends (c :: s) := by
  rintro _ ⟨⟩
  exact h

variable {rest : Text}

theorem Ends.digit (h : Ends rest) : rest.head?.any isAsciiDigit = false := by
  cases rest with
  | nil => rfl
  | cons c rest => exact (h c rfl).1

theorem span_append {p : Char → Bool} (h : rest.head?.any p = false) (s : Text) :
    (s ++ rest).takeWhile p = s.takeWhile p ∧ (s ++ rest).dropWhile p = s.dropWhile p ++ rest := by
  induction s with
  | nil =>
    cases rest with
    | nil => exact ⟨rfl, rfl⟩
    | cons c rest =>
      have hc : ¬ p c = true := by simpa using h
      exact ⟨List.takeWhile_cons_of_neg hc, List.dropWhile_cons_of_neg hc⟩
  | cons c s ih =>
    rw [List.cons_append, List.takeWhile_cons, List.takeWhile_cons, List.dropWhile_cons,
      List.dropWhile_cons, ih.1, ih.2]
    split <;> exact ⟨rfl, rfl⟩

/-! ## What follows a number -/

variable {negative : Bool} {significand : Nat} {exponent : Int} {s r : Text} {n : JsonNumber}

theorem decimalOf_append (h : decimalOf negative significand exponent s = .ok (n, r)) (rest : Text) :
    decimalOf negative significand exponent (s ++ rest) = .ok (n, r ++ rest) := by
  rw [decimalOf] at h ⊢
  cases hScaled : scaled? (Binary64.roundUnits (significand * Binary64.one) 1) exponent 4 with
  | none =>
    rw [hScaled] at h
    cases h
  | some units =>
    rw [hScaled] at h
    cases h
    rfl

theorem gatherExponent_append (hRest : Ends rest) (exponent : Nat) (s : Text) :
    gatherExponent exponent (s ++ rest) =
      ((gatherExponent exponent s).1, (gatherExponent exponent s).2 ++ rest) := by
  induction s generalizing exponent with
  | nil =>
    cases rest with
    | nil => rfl
    | cons c rest =>
      rw [List.nil_append, gatherExponent, gatherExponent, (hRest c rfl).1]
      rfl
  | cons c s ih =>
    rw [List.cons_append, gatherExponent, gatherExponent]
    split
    · simp only
      split
      · exact ih _
      · rfl
    · rfl

theorem startsWithDigit_append (hRest : Ends rest) (s : Text) :
    startsWithDigit (s ++ rest) = startsWithDigit s := by
  cases s with
  | nil => exact hRest.digit
  | cons c s => rfl

def exponentDigits (negative : Bool) (significand : Nat) (start : Int) (down : Bool) (s : Text) :
    Except JsonFailure (JsonNumber × Text) :=
  match s with
  | [] => fail .endInValue [] 0
  | c :: _ =>
    if isAsciiDigit c then
      let (exponent, rest) := gatherExponent 0 s
      if startsWithDigit rest then
        if significand ≠ 0 ∧ ¬ down then fail .numberOutOfRange (rest.drop 1) 0
        else .ok (.decimal (.finite negative 0), rest.dropWhile isAsciiDigit)
      else decimalOf negative significand (if down then start - exponent else start + exponent) rest
    else fail .invalidNumber s 1

theorem exponentPart_of_unsigned {c : Char} (hPlus : c ≠ '+') (hMinus : c ≠ '-') (start : Int) (t : Text) :
    exponentPart negative significand start (c :: t) =
      exponentDigits negative significand start false (c :: t) := by
  rw [exponentPart.eq_def]
  split
  rename_i down u hSign
  split at hSign
  · rename_i v hEq
    exact absurd (List.cons.inj hEq).1 hPlus
  · rename_i v hEq
    exact absurd (List.cons.inj hEq).1 hMinus
  · cases hSign
    rfl

theorem exponentDigits_append {start : Int} {down : Bool} (hRest : Ends rest)
    (h : exponentDigits negative significand start down s = .ok (n, r)) :
    exponentDigits negative significand start down (s ++ rest) = .ok (n, r ++ rest) := by
  cases s with
  | nil => cases h
  | cons c t =>
    rw [exponentDigits] at h
    rw [List.cons_append, exponentDigits, ← List.cons_append, gatherExponent_append hRest]
    by_cases hDigit : isAsciiDigit c = true
    · simp only [hDigit, ↓reduceIte] at h ⊢
      rw [startsWithDigit_append hRest]
      by_cases hMore : startsWithDigit (gatherExponent 0 (c :: t)).2 = true
      · simp only [hMore, ↓reduceIte] at h ⊢
        split at h
        · cases h
        · rename_i hAllowed
          cases h
          rw [if_neg hAllowed, (span_append hRest.digit _).2]
      · rw [if_neg hMore] at h ⊢
        exact decimalOf_append h rest
    · rw [if_neg hDigit] at h
      cases h

theorem exponentPart_append {start : Int} (hRest : Ends rest)
    (h : exponentPart negative significand start s = .ok (n, r)) :
    exponentPart negative significand start (s ++ rest) = .ok (n, r ++ rest) := by
  cases s with
  | nil => cases h
  | cons c t =>
    by_cases hPlus : c = '+'
    · subst hPlus
      have hDigits : exponentDigits negative significand start false t = .ok (n, r) := h
      exact exponentDigits_append hRest hDigits
    · by_cases hMinus : c = '-'
      · subst hMinus
        have hDigits : exponentDigits negative significand start true t = .ok (n, r) := h
        exact exponentDigits_append hRest hDigits
      · rw [exponentPart_of_unsigned hPlus hMinus] at h
        rw [List.cons_append, exponentPart_of_unsigned hPlus hMinus]
        exact exponentDigits_append hRest h

theorem afterSignificand_append (hRest : Ends rest)
    (h : afterSignificand negative significand exponent s = .ok (n, r)) :
    afterSignificand negative significand exponent (s ++ rest) = .ok (n, r ++ rest) := by
  cases s with
  | nil =>
    have hDecimal := decimalOf_append h rest
    cases rest with
    | nil => exact hDecimal
    | cons c rest =>
      obtain ⟨-, -, hLower, hUpper⟩ := hRest c rfl
      simpa only [afterSignificand, List.nil_append, hLower, hUpper, or_self, ↓reduceIte] using hDecimal
  | cons c t =>
    rw [afterSignificand] at h
    rw [List.cons_append, afterSignificand]
    split
    · rename_i hLetter
      rw [if_pos hLetter] at h
      exact exponentPart_append hRest h
    · rename_i hLetter
      rw [if_neg hLetter] at h
      exact decimalOf_append h rest

theorem fractionPart_append {start : Int} (hRest : Ends rest)
    (h : fractionPart negative significand start s = .ok (n, r)) :
    fractionPart negative significand start (s ++ rest) = .ok (n, r ++ rest) := by
  obtain ⟨hTake, hDrop⟩ := span_append hRest.digit s
  simp only [fractionPart, hTake, hDrop] at h ⊢
  split
  · rename_i hEmpty
    rw [if_pos hEmpty] at h
    split at h <;> cases h
  · rename_i hDigits
    rw [if_neg hDigits] at h
    exact afterSignificand_append hRest h

/-- Reads a number on behind its whole digits, of which `left` did not fit the significand. -/
def behindDigits (negative : Bool) (significand : Nat) (left rest : Text) :
    Except JsonFailure (JsonNumber × Text) :=
  match rest with
  | '.' :: t => fractionPart negative significand left.length t
  | _ =>
    if rest.head? = some 'e' ∨ rest.head? = some 'E' ∨ ¬ left.isEmpty then
      afterSignificand negative significand left.length rest
    else if ¬ negative then .ok (.natural significand, rest)
    else if significand = 0 ∨ Nat.pow 2 63 < significand then
      .ok (.decimal (Binary64.ofRatio true significand 1), rest)
    else .ok (.negative significand, rest)

theorem number_of_digits {first : Char} {more : Text}
    (h : s.takeWhile isAsciiDigit = first :: more) :
    number negative s =
      if first = '0' ∧ ¬ more.isEmpty then fail .invalidNumber (s.drop 1) 1
      else behindDigits negative (gatherDigits 0 (first :: more)).1
        (gatherDigits 0 (first :: more)).2 (s.dropWhile isAsciiDigit) := by
  rw [number.eq_def]
  simp only [h]
  rfl

theorem behindDigits_of_not_point {left : Text} (h : ∀ c ∈ s.head?, c ≠ '.') :
    behindDigits negative significand left s =
      if s.head? = some 'e' ∨ s.head? = some 'E' ∨ ¬ left.isEmpty then
        afterSignificand negative significand left.length s
      else if ¬ negative then .ok (.natural significand, s)
      else if significand = 0 ∨ Nat.pow 2 63 < significand then
        .ok (.decimal (Binary64.ofRatio true significand 1), s)
      else .ok (.negative significand, s) := by
  rw [behindDigits.eq_def]
  split
  · exact absurd rfl (h '.' rfl)
  · rfl

theorem behindDigits_append {left : Text} (hRest : Ends rest)
    (h : behindDigits negative significand left s = .ok (n, r)) :
    behindDigits negative significand left (s ++ rest) = .ok (n, r ++ rest) := by
  by_cases hPoint : ∃ t, s = '.' :: t
  · obtain ⟨t, rfl⟩ := hPoint
    exact fractionPart_append hRest h
  · have hHead : ∀ c ∈ s.head?, c ≠ '.' := by
      rintro c hc rfl
      exact hPoint (List.head?_eq_some_iff.mp hc)
    have hBoth : ∀ c ∈ (s ++ rest).head?, c ≠ '.' := by
      cases s with
      | nil => exact fun c hc => (hRest c hc).2.1
      | cons c t => exact hHead
    have hLetter : ((s ++ rest).head? = some 'e' ↔ s.head? = some 'e') ∧
        ((s ++ rest).head? = some 'E' ↔ s.head? = some 'E') := by
      cases s with
      | nil =>
        refine ⟨⟨fun hc => absurd rfl (hRest 'e' hc).2.2.1, fun hc => ?_⟩,
          ⟨fun hc => absurd rfl (hRest 'E' hc).2.2.2, fun hc => ?_⟩⟩ <;> cases hc
      | cons c t => exact ⟨Iff.rfl, Iff.rfl⟩
    rw [behindDigits_of_not_point hHead] at h
    rw [behindDigits_of_not_point hBoth]
    simp only [hLetter.1, hLetter.2]
    split_ifs at h ⊢
    · exact afterSignificand_append hRest h
    all_goals cases h; rfl

/-- What cannot go on with a number makes no difference to it. -/
theorem number_append (hRest : Ends rest) (h : number negative s = .ok (n, r)) :
    number negative (s ++ rest) = .ok (n, r ++ rest) := by
  obtain ⟨hTake, hDrop⟩ := span_append hRest.digit s
  cases hDigits : s.takeWhile isAsciiDigit with
  | nil =>
    rw [number.eq_def] at h
    simp only [hDigits] at h
    cases s <;> cases h
  | cons first more =>
    rw [hDigits] at hTake
    rw [number_of_digits hDigits] at h
    rw [number_of_digits hTake, hDrop]
    split_ifs at h ⊢
    · cases h
    · exact behindDigits_append hRest h

/-! ## Whole numbers -/

theorem digits_self {digits : Text} (h : digits.all isAsciiDigit = true) :
    digits.takeWhile isAsciiDigit = digits ∧ digits.dropWhile isAsciiDigit = [] := by
  have hAppend := Quantity.digits_append h (rfl : ([] : Text).head?.any isAsciiDigit = false)
  rwa [List.append_nil] at hAppend

theorem digits_append_cons {digits : Text} (h : digits.all isAsciiDigit = true) {c : Char}
    (hc : isAsciiDigit c = false) (rest : Text) :
    (digits ++ c :: rest).takeWhile isAsciiDigit = digits ∧
      (digits ++ c :: rest).dropWhile isAsciiDigit = c :: rest :=
  Quantity.digits_append h hc

theorem le_ofDigitChars (digits : Text) (start : Nat) : start ≤ Nat.ofDigitChars 10 digits start := by
  rw [Nat.ofDigitChars_eq_ofDigitChars_zero]
  have hPower := Nat.le_mul_of_pos_left start (Nat.pow_pos (n := digits.length) (by decide : 0 < 10))
  omega

theorem gatherDigits_eq {digits : Text} {significand : Nat}
    (h : Nat.ofDigitChars 10 digits significand < Nat.pow 2 64) :
    gatherDigits significand digits = (Nat.ofDigitChars 10 digits significand, []) := by
  induction digits generalizing significand with
  | nil => rfl
  | cons c digits ih =>
    rw [Nat.ofDigitChars_cons] at h ⊢
    have hNext : 10 * significand + (c.toNat - 48) < Nat.pow 2 64 :=
      Nat.lt_of_le_of_lt (le_ofDigitChars digits _) h
    rw [gatherDigits, if_pos hNext]
    exact ih h

theorem head?_ofNat {n : Nat} (h : 0 < n) : (Text.ofNat n).head? ≠ some '0' := by
  induction n using Nat.strongRecOn with
  | ind n ih =>
    rcases Nat.lt_or_ge n 10 with hSmall | hLarge
    · have hDigits : ∀ d : Fin 10, 0 < d.val → (Text.ofNat d).head? ≠ some '0' := by decide
      exact hDigits ⟨n, hSmall⟩ h
    · have hLead := ih (n / 10) (by omega) (by omega)
      rw [Text.ofNat, Nat.toDigits_of_base_le (by decide) hLarge,
        List.head?_append_of_ne_nil _ Nat.toDigits_ne_nil]
      exact hLead

theorem ofNat_eq_zero_cons {n : Nat} {more : Text} (h : Text.ofNat n = '0' :: more) : more = [] := by
  rcases Nat.eq_zero_or_pos n with rfl | hPositive
  · cases h
    rfl
  · exact absurd (congrArg List.head? h) (head?_ofNat hPositive)

theorem number_ofNat {n : Nat} (hRange : n < Nat.pow 2 64) :
    number negative (Text.ofNat n) = behindDigits negative n [] [] := by
  obtain ⟨hTake, hDrop⟩ := digits_self (Text.all_ofNat n)
  have hValue : Nat.ofDigitChars 10 (Text.ofNat n) 0 = n := Nat.ofDigitChars_ten_toDigits
  have hGathered : gatherDigits 0 (Text.ofNat n) = (n, []) := by
    rw [gatherDigits_eq (by rwa [hValue]), hValue]
  obtain ⟨first, more, hDigits⟩ := List.exists_cons_of_ne_nil (Nat.toDigits_ne_nil (n := n) (b := 10))
  have hZero : ¬ (first = '0' ∧ ¬ more.isEmpty = true) := by
    rintro ⟨rfl, hMore⟩
    exact hMore (by rw [ofNat_eq_zero_cons hDigits]; rfl)
  rw [number_of_digits (hTake.trans hDigits), if_neg hZero, ← hDigits, hDrop]
  change behindDigits negative (gatherDigits 0 (Text.ofNat n)).1
    (gatherDigits 0 (Text.ofNat n)).2 [] = _
  rw [hGathered]

theorem number_natural {n : Nat} (h : n < Nat.pow 2 64) (hRest : Ends rest) :
    number false (Text.ofNat n ++ rest) = .ok (.natural n, rest) := by
  have hNumber : number false (Text.ofNat n) = .ok (.natural n, []) := number_ofNat h
  exact number_append hRest hNumber

theorem number_negative {n : Nat} (hPositive : 0 < n) (h : n ≤ Nat.pow 2 63) (hRest : Ends rest) :
    number true (Text.ofNat n ++ rest) = .ok (.negative n, rest) := by
  have hRange : n < Nat.pow 2 64 := Nat.lt_of_le_of_lt h (by decide)
  have hSmall : ¬ (n = 0 ∨ Nat.pow 2 63 < n) := by omega
  have hNumber : number true (Text.ofNat n) = .ok (.negative n, []) := by
    rw [number_ofNat hRange]
    exact if_neg hSmall
  exact number_append hRest hNumber

end JsonReader

end DesignParams
