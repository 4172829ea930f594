import DesignParams.Proofs.Json.Number
import DesignParams.Proofs.Json.Range

/-!
# Written numbers

Every finite number is written in one of two layouts, and both are read as some number.
-/
set_option autoImplicit false

namespace DesignParams

namespace Decimal

theorem ReadsAs.magnitude {d : Decimal} {units : Nat} (h : d.ReadsAs units) (hUnits : units ≠ 0) :
    -330 ≤ d.scale + 1 ∧ d.scale + 1 ≤ 310 := by
  have hRounded := h.rounded
  rw [Binary64.ofDecimal] at hRounded
  have hScale : ((Text.ofNat d.digits).length : Int) + d.exponent = d.scale + 1 := by
    rw [scale]
    omega
  simp only [hScale] at hRounded
  split at hRounded
  · exact absurd (Binary64.finite.inj hRounded).2.symm hUnits
  · split at hRounded
    · cases hRounded
    · omega

theorem positional_whole {d : Decimal} (hDigits : 0 < d.digits) (hScale : d.scale ≤ 15) :
    d.positional.1.length ≤ 16 ∧ (d.positional.1 = ['0'] ∨ d.positional.1.head? ≠ some '0') := by
  have hHead := JsonReader.head?_ofNat hDigits
  have hNonempty : Text.ofNat d.digits ≠ [] := Nat.toDigits_ne_nil
  rw [scale] at hScale
  rw [positional]
  by_cases hExponent : 0 ≤ d.exponent
  · simp only [hExponent, ↓reduceIte]
    rw [Text.repeated, List.length_append, List.length_replicate,
      List.head?_append_of_ne_nil _ hNonempty]
    exact ⟨by omega, .inr hHead⟩
  · simp only [hExponent, ↓reduceIte]
    split
    · rename_i hPlaces
      rw [List.splitAt_eq]
      obtain ⟨c, digits, hCons⟩ := List.exists_cons_of_ne_nil hNonempty
      have hTake : 0 < (Text.ofNat d.digits).length - (-d.exponent).toNat := by omega
      refine ⟨by rw [List.length_take]; omega, .inr ?_⟩
      rwa [List.head?_take, if_neg (by omega)]
    · exact ⟨show (['0'] : Text).length ≤ 16 by decide, .inl rfl⟩

end Decimal

namespace JsonReader

variable {negative : Bool} {significand : Nat}

theorem exists_decimalOf {exponent : Int}
    (h : ∃ units, scaled? (Binary64.roundUnits (significand * Binary64.one) 1) exponent 4 = some units)
    (negative : Bool) (s : Text) :
    ∃ x, decimalOf negative significand exponent s = .ok (.decimal x, s) := by
  obtain ⟨units, hScaled⟩ := h
  rw [decimalOf, hScaled]
  exact ⟨_, rfl⟩

/-! ## The positional layout -/

theorem ofDigitChars_lt {digits : Text} (h : digits.all isAsciiDigit = true) (start : Nat) :
    Nat.ofDigitChars 10 digits start < 10 ^ digits.length * (start + 1) := by
  induction digits generalizing start with
  | nil => simp [Nat.ofDigitChars]
  | cons c digits ih =>
    rw [List.all_cons, Bool.and_eq_true] at h
    have hDigit : c.toNat - 48 ≤ 9 := by
      have hBounds := h.1
      simp only [isAsciiDigit, Bool.and_eq_true, decide_eq_true_eq, Char.le_def,
        UInt32.le_iff_toNat_le] at hBounds
      have hHigh : c.toNat ≤ 57 := hBounds.2
      omega
    have hZero : '0'.toNat = 48 := rfl
    rw [Nat.ofDigitChars_cons, List.length_cons, Nat.pow_succ, Nat.mul_assoc]
    refine Nat.lt_of_lt_of_le (ih h.2 _) (Nat.mul_le_mul_left _ ?_)
    omega

theorem length_gatherDigits_le (significand : Nat) (digits : Text) :
    (gatherDigits significand digits).2.length ≤ digits.length := by
  induction digits generalizing significand with
  | nil => exact Nat.le_refl 0
  | cons c digits ih =>
    rw [gatherDigits]
    split
    · exact Nat.le_succ_of_le (ih _)
    · exact Nat.le_refl _

theorem exists_fractionPart {fraction : Text} (hSmall : significand < 10 ^ 16)
    (hNonempty : fraction ≠ []) (hFraction : fraction.all isAsciiDigit = true) :
    ∃ x, fractionPart negative significand 0 fraction = .ok (.decimal x, []) := by
  obtain ⟨hTake, hDrop⟩ := digits_self hFraction
  obtain ⟨c, more, rfl⟩ := List.exists_cons_of_ne_nil hNonempty
  have hFits : 10 * significand + (c.toNat - 48) < Nat.pow 2 64 := by
    have hFirst : [c].all isAsciiDigit = true := by
      rw [List.all_cons, Bool.and_eq_true] at hFraction
      rw [List.all_cons, hFraction.1]
      rfl
    have hDigit := ofDigitChars_lt hFirst significand
    rw [Nat.ofDigitChars_cons] at hDigit
    have hPower : (10 : Nat) ^ 16 * 10 < Nat.pow 2 64 := by decide
    change 10 * significand + (c.toNat - 48) < 10 ^ 1 * (significand + 1) at hDigit
    omega
  have hGathered : (gatherDigits significand (c :: more)).2.length ≤ more.length := by
    rw [gatherDigits, if_pos hFits]
    exact length_gatherDigits_le _ more
  rw [fractionPart]
  simp only [hTake, hDrop, List.isEmpty_cons, Bool.false_eq_true, ↓reduceIte]
  refine exists_decimalOf (exists_scaled?_of_neg ?_ _ 4) negative []
  simp only [List.length_cons]
  omega

theorem exists_number_positional {whole fraction : Text} (hWhole : whole.all isAsciiDigit = true)
    (hNonempty : whole ≠ []) (hShort : whole.length ≤ 16)
    (hZero : whole = ['0'] ∨ whole.head? ≠ some '0') (hFraction : fraction.all isAsciiDigit = true)
    (hPlaces : fraction ≠ []) :
    ∃ x, number negative (whole ++ '.' :: fraction) = .ok (.decimal x, []) := by
  obtain ⟨hTake, hDrop⟩ := digits_append_cons hWhole (by decide : isAsciiDigit '.' = false) fraction
  have hSmall : Nat.ofDigitChars 10 whole 0 < 10 ^ 16 := by
    have hValue := ofDigitChars_lt hWhole 0
    have hPower : 10 ^ whole.length ≤ 10 ^ 16 := Nat.pow_le_pow_right (by decide) hShort
    omega
  have hGathered : gatherDigits 0 whole = (Nat.ofDigitChars 10 whole 0, []) :=
    gatherDigits_eq (Nat.lt_trans hSmall (by decide))
  obtain ⟨first, more, rfl⟩ := List.exists_cons_of_ne_nil hNonempty
  have hLetter : isAsciiDigit 'e' = false := by decide
  have hLead : ¬ (first = '0' ∧ ¬ more.isEmpty = true) := by
    rintro ⟨rfl, hMore⟩
    rcases hZero with hOnly | hOther
    · obtain rfl := (List.cons.inj hOnly).2
      exact hMore rfl
    · exact hOther rfl
  rw [number_of_digits hTake, if_neg hLead, hDrop, hGathered]
  exact exists_fractionPart hSmall hPlaces hFraction

/-! ## The scientific layout -/

theorem gatherExponent_eq {digits : Text} (hDigits : digits.all isAsciiDigit = true) {start : Nat}
    (h : Nat.ofDigitChars 10 digits start < Nat.pow 2 31) :
    gatherExponent start digits = (Nat.ofDigitChars 10 digits start, []) := by
  induction digits generalizing start with
  | nil => rfl
  | cons c digits ih =>
    rw [List.all_cons, Bool.and_eq_true] at hDigits
    rw [Nat.ofDigitChars_cons] at h ⊢
    have hNext : 10 * start + (c.toNat - 48) < Nat.pow 2 31 :=
      Nat.lt_of_le_of_lt (le_ofDigitChars digits _) h
    rw [gatherExponent, if_pos hDigits.1]
    simp only [hNext, ↓reduceIte]
    exact ih hDigits.2 h

theorem exponentDigits_ofNat {n : Nat} (h : n < Nat.pow 2 31) (start : Int) (down : Bool) :
    exponentDigits negative significand start down (Text.ofNat n) =
      decimalOf negative significand (if down then start - n else start + n) [] := by
  have hAll := Text.all_ofNat n
  have hValue : Nat.ofDigitChars 10 (Text.ofNat n) 0 = n := Nat.ofDigitChars_ten_toDigits
  have hGathered : gatherExponent 0 (Text.ofNat n) = (n, []) := by
    rw [gatherExponent_eq hAll (by rwa [hValue]), hValue]
  obtain ⟨first, more, hDigits⟩ := List.exists_cons_of_ne_nil (Nat.toDigits_ne_nil (n := n) (b := 10))
  change Text.ofNat n = first :: more at hDigits
  rw [hDigits] at hGathered hAll ⊢
  rw [List.all_cons, Bool.and_eq_true] at hAll
  rw [exponentDigits, hGathered, if_pos hAll.1]
  rfl

def exponentText (scale : Int) : Text :=
  (if 0 < scale then ['+'] else []) ++ Text.ofInt scale

theorem exponentPart_exponentText {scale : Int} (hNonzero : scale ≠ 0) (hSmall : scale.natAbs < 400)
    (start : Int) :
    exponentPart negative significand start (exponentText scale) =
      decimalOf negative significand (start + scale) [] := by
  have hRange : (400 : Nat) < Nat.pow 2 31 := by decide
  cases scale with
  | ofNat n =>
    have hPositive : 0 < Int.ofNat n := by
      have : n ≠ 0 := fun h => hNonzero (congrArg Int.ofNat h)
      exact Int.natCast_pos.mpr (by omega)
    rw [exponentText, if_pos hPositive]
    exact exponentDigits_ofNat (Nat.lt_trans hSmall hRange) start false
  | negSucc n =>
    have hNegative : ¬ 0 < Int.negSucc n := by
      simp [Int.negSucc_not_pos]
    rw [exponentText, if_neg hNegative]
    exact exponentDigits_ofNat (Nat.lt_trans (show n + 1 < 400 from hSmall) hRange) start true

def mantissa : Text → Text
  | [] => []
  | [first] => [first]
  | first :: rest => first :: '.' :: rest

theorem number_mantissa {digits behind : Text} (hDigits : digits.all isAsciiDigit = true)
    (hNonempty : digits ≠ []) (hRange : Nat.ofDigitChars 10 digits 0 < Nat.pow 2 64) :
    number negative (mantissa digits ++ 'e' :: behind) =
      exponentPart negative (Nat.ofDigitChars 10 digits 0) (1 - (digits.length : Int)) behind := by
  obtain ⟨first, more, rfl⟩ := List.exists_cons_of_ne_nil hNonempty
  rw [List.all_cons, Bool.and_eq_true] at hDigits
  have hSingle : [first].all isAsciiDigit = true := by
    rw [List.all_cons, hDigits.1]
    rfl
  have hOne : gatherDigits 0 [first] = (Nat.ofDigitChars 10 [first] 0, []) :=
    gatherDigits_eq (Nat.lt_trans (ofDigitChars_lt hSingle 0)
      (show 10 ^ 1 * (0 + 1) < Nat.pow 2 64 by decide))
  have hLetter : isAsciiDigit 'e' = false := by decide
  have hLead : ¬ (first = '0' ∧ ¬ ([] : Text).isEmpty = true) := fun h => h.2 rfl
  cases more with
  | nil =>
    obtain ⟨hTake, hDrop⟩ := digits_append_cons hSingle hLetter behind
    rw [mantissa, number_of_digits hTake, if_neg hLead, hDrop, hOne]
    rfl
  | cons second more =>
    have hPoint : isAsciiDigit '.' = false := by decide
    obtain ⟨hTake, hDrop⟩ := digits_append_cons hSingle hPoint (second :: more ++ 'e' :: behind)
    obtain ⟨hInner, hBehind⟩ := digits_append_cons hDigits.2 hLetter behind
    have hGathered : gatherDigits (Nat.ofDigitChars 10 [first] 0) (second :: more) =
        (Nat.ofDigitChars 10 (first :: second :: more) 0, []) :=
      gatherDigits_eq hRange
    change number negative ([first] ++ '.' :: (second :: more ++ 'e' :: behind)) = _
    rw [number_of_digits hTake, if_neg hLead, hDrop, hOne]
    change fractionPart negative (Nat.ofDigitChars 10 [first] 0) 0
      (second :: more ++ 'e' :: behind) = _
    rw [fractionPart]
    simp only [hInner, hBehind, List.isEmpty_cons, Bool.false_eq_true, ↓reduceIte, hGathered]
    change exponentPart negative _ _ behind = _
    congr 1

/-! ## Numbers as they are written -/

def magnitudeText (units : Nat) : Text :=
  let d := Decimal.shortest units
  if d.digits = 0 ∨ (-5 ≤ d.scale ∧ d.scale ≤ 15) then
    let (whole, fraction) := d.positional
    whole ++ '.' :: (if fraction.isEmpty then ['0'] else fraction)
  else Decimal.scientific true d

theorem write_finite (negative : Bool) (units : Nat) :
    (Binary64.finite negative units).write JsonNumber.layout =
      Binary64.signed negative (magnitudeText units) := by
  rw [Binary64.write, magnitudeText]
  split <;> rfl

theorem scientific_eq (d : Decimal) :
    Decimal.scientific true d = mantissa (Text.ofNat d.digits) ++ 'e' :: exponentText d.scale := by
  rw [Decimal.scientific]
  rcases Text.ofNat d.digits with _ | ⟨first, _ | ⟨second, more⟩⟩ <;>
    simp [mantissa, exponentText]

theorem exists_number_magnitudeText (negative : Bool) (units : Nat) :
    ∃ x, number negative (magnitudeText units) = .ok (.decimal x, []) := by
  rw [magnitudeText]
  rcases Decimal.shortest_cases units with hZero | ⟨hUnits, hReads⟩
  · rw [hZero]
    have hDigit : ['0'].all isAsciiDigit = true := by decide
    have hNonempty : ['0'] ≠ [] := List.cons_ne_nil _ _
    exact exists_number_positional hDigit hNonempty (by decide) (.inl rfl) hDigit hNonempty
  · have hMagnitude := hReads.magnitude hUnits
    have hScaled := exists_scaled?_shortest hUnits hReads
    generalize Decimal.shortest units = d at hReads hMagnitude hScaled ⊢
    have hPositive : ¬ d.digits = 0 := hReads.pos.ne'
    simp only [hPositive, false_or]
    split
    · rename_i hScale
      obtain ⟨hShort, hLead⟩ := Decimal.positional_whole hReads.pos hScale.2
      obtain ⟨hWhole, hFraction⟩ := d.all_positional
      refine exists_number_positional hWhole d.whole_ne_nil hShort hLead ?_ ?_
      · split
        · rfl
        · exact hFraction
      · split
        · exact List.cons_ne_nil _ _
        · rename_i hNonempty
          simpa using hNonempty
    · rename_i hScale
      have hValue : Nat.ofDigitChars 10 (Text.ofNat d.digits) 0 = d.digits :=
        Nat.ofDigitChars_ten_toDigits
      have hRange : d.digits < Nat.pow 2 64 := Nat.lt_of_le_of_lt hReads.le (by decide)
      have hExponent : 1 - ((Text.ofNat d.digits).length : Int) + d.scale = d.exponent := by
        rw [Decimal.scale]
        omega
      rw [scientific_eq d, number_mantissa (Text.all_ofNat d.digits) Nat.toDigits_ne_nil
        (by rwa [hValue]), hValue, exponentPart_exponentText (by omega) (by omega), hExponent]
      exact exists_decimalOf hScaled negative []

end JsonReader

end DesignParams
