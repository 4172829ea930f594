import DesignParams.Number.Decimal
import DesignParams.Number.Literal
import DesignParams.Proofs.Text.Blank
import Mathlib.Data.List.DropRight

/-!
# The grammar of numeric literals

What is read as a quantity is a numeral with a unit behind it, and white space around them. No
character of a unit is one of a numeral, so that it does not matter how the numeral is searched for,
even if digits of other scripts are found at first.
-/
set_option autoImplicit false

namespace DesignParams

def isQuantityChar (c : Char) : Bool :=
  isAsciiDigit c || c = '-' || c = '.' || Quantity.isUnitChar c

theorem toNat_of_isQuantityChar {c : Char} (h : isQuantityChar c = true) :
    c.toNat = 37 ∨ 45 ≤ c.toNat ∧ c.toNat ≤ 122 := by
  simp only [isQuantityChar, isAsciiDigit, Quantity.isUnitChar, isAsciiLetter, Bool.or_eq_true,
    Bool.and_eq_true, decide_eq_true_eq, Char.le_def, UInt32.le_iff_toNat_le] at h
  rcases h with ((⟨hLow, hHigh⟩ | rfl) | rfl) | (⟨hLow, hHigh⟩ | ⟨hLow, hHigh⟩) | rfl
  · exact .inr ⟨Nat.le_trans (by decide) hLow, Nat.le_trans hHigh (by decide)⟩
  · decide
  · decide
  · exact .inr ⟨Nat.le_trans (by decide) hLow, Nat.le_trans hHigh (by decide)⟩
  · exact .inr ⟨Nat.le_trans (by decide) hLow, Nat.le_trans hHigh (by decide)⟩
  · decide

theorem toNat_lt_of_isQuantityChar {c : Char} (h : isQuantityChar c = true) : c.toNat < 128 := by
  have hRange := toNat_of_isQuantityChar h
  omega

theorem isBlank_of_isQuantityChar {c : Char} (h : isQuantityChar c = true) : isBlank c = false := by
  have hRange := toNat_of_isQuantityChar h
  simp only [isBlank, Bool.or_eq_false_iff, Bool.and_eq_false_iff, decide_eq_false_iff_not]
  omega

theorem isQuantityChar_of_isAsciiDigit {c : Char} (h : isAsciiDigit c = true) :
    isQuantityChar c = true := by
  simp [isQuantityChar, h]

theorem all_quantity_of_digits {s : Text} (h : s.all isAsciiDigit = true) :
    s.all isQuantityChar = true :=
  List.all_eq_true.mpr fun c hc => isQuantityChar_of_isAsciiDigit (List.all_eq_true.mp h c hc)

theorem trim_of_all_quantity {s : Text} (h : s.all isQuantityChar = true) : Text.trim s = s := by
  have hNone (o : Option Char) (ho : ∀ c ∈ o, c ∈ s) : o.any isBlank = false := by
    cases o with
    | none => rfl
    | some c => exact isBlank_of_isQuantityChar (List.all_eq_true.mp h c (ho c rfl))
  rw [Text.trim_eq_self_iff]
  exact ⟨hNone _ fun c hc => List.mem_of_head? hc, hNone _ fun c hc => List.mem_of_getLast? hc⟩

namespace Quantity

theorem isAsciiDigit_of_isUnitChar {c : Char} (h : isUnitChar c = true) :
    isAsciiDigit c = false ∧ c ≠ '.' := by
  have hLate : '9' < c ∨ c = '%' := by
    simp only [isUnitChar, isAsciiLetter, Bool.or_eq_true, Bool.and_eq_true, decide_eq_true_eq] at h
    rcases h with (⟨hLow, -⟩ | ⟨hLow, -⟩) | rfl
    · exact .inl (Std.lt_of_lt_of_le (by decide) hLow)
    · exact .inl (Std.lt_of_lt_of_le (by decide) hLow)
    · exact .inr rfl
  rcases hLate with hLate | rfl
  · constructor
    · simp [isAsciiDigit, hLate]
    · rintro rfl
      exact absurd hLate (by decide)
  · exact ⟨by decide, by decide⟩

theorem digits_append {digits rest : Text} (hDigits : digits.all isAsciiDigit = true)
    (hRest : rest.head?.any isAsciiDigit = false) :
    (digits ++ rest).takeWhile isAsciiDigit = digits ∧
      (digits ++ rest).dropWhile isAsciiDigit = rest := by
  have hAll : ∀ c ∈ digits, isAsciiDigit c = true := fun c hc => List.all_eq_true.mp hDigits c hc
  have hHead : rest.takeWhile isAsciiDigit = [] ∧ rest.dropWhile isAsciiDigit = rest := by
    cases rest with
    | nil => exact ⟨rfl, rfl⟩
    | cons c rest =>
      have hc : ¬ isAsciiDigit c = true := by simpa using hRest
      exact ⟨List.takeWhile_cons_of_neg hc, List.dropWhile_cons_of_neg hc⟩
  rw [List.takeWhile_append_of_pos hAll, List.dropWhile_append_of_pos hAll, hHead.1, hHead.2,
    List.append_nil]
  exact ⟨rfl, rfl⟩

/-! ## Numerals -/

/-- A number as it is written: a minus sign or none, and digits, of which a point may set off the
last ones. -/
structure Numeral where
  negative : Bool
  whole : Text
  /-- The digits behind the point, if there is one. -/
  fraction : Option Text
  all_whole : whole.all isAsciiDigit = true
  all_fraction : ∀ digits ∈ fraction, digits ≠ [] ∧ digits.all isAsciiDigit = true
  has_digit : whole ≠ [] ∨ fraction.isSome = true

namespace Numeral

def unsigned (n : Numeral) : Text :=
  n.whole ++ n.fraction.elim [] ('.' :: ·)

def text (n : Numeral) : Text :=
  Binary64.signed n.negative n.unsigned

def number (n : Numeral) : Binary64 :=
  Binary64.ofDecimal n.negative (digitsValue (n.whole ++ n.fraction.getD []))
    (-((n.fraction.getD []).length : Int))

theorem of_mem_unsigned {n : Numeral} {c : Char} (h : c ∈ n.unsigned) :
    isAsciiDigit c = true ∨ c = '.' := by
  rcases List.mem_append.mp h with h | h
  · exact .inl (List.all_eq_true.mp n.all_whole c h)
  · cases hFraction : n.fraction with
    | none =>
      rw [hFraction] at h
      cases h
    | some digits =>
      rw [hFraction] at h
      rcases List.mem_cons.mp h with rfl | h
      · exact .inr rfl
      · exact .inl (List.all_eq_true.mp (n.all_fraction digits hFraction).2 c h)

theorem of_mem_text {n : Numeral} {c : Char} (h : c ∈ n.text) :
    isAsciiDigit c = true ∨ c = '.' ∨ c = '-' := by
  rw [text, Binary64.signed] at h
  split at h
  · rcases List.mem_cons.mp h with rfl | h
    · exact .inr (.inr rfl)
    · exact (of_mem_unsigned h).imp_right .inl
  · exact (of_mem_unsigned h).imp_right .inl

theorem isUnitChar_of_mem_text {n : Numeral} {c : Char} (h : c ∈ n.text) : isUnitChar c = false := by
  rw [Bool.eq_false_iff]
  intro hUnit
  obtain ⟨hDigit, hPoint⟩ := isAsciiDigit_of_isUnitChar hUnit
  rcases of_mem_text h with hc | rfl | rfl
  · rw [hc] at hDigit
    cases hDigit
  · exact hPoint rfl
  · exact absurd hUnit (by decide)

theorem unsigned_ne_nil (n : Numeral) : n.unsigned ≠ [] := by
  rcases n.has_digit with h | h
  · exact List.append_ne_nil_of_left_ne_nil h _
  · obtain ⟨digits, hDigits⟩ := Option.isSome_iff_exists.mp h
    apply List.append_ne_nil_of_right_ne_nil
    rw [hDigits]
    exact List.cons_ne_nil '.' digits

theorem text_ne_nil (n : Numeral) : n.text ≠ [] := by
  rw [text, Binary64.signed]
  split
  · exact List.cons_ne_nil _ _
  · exact n.unsigned_ne_nil

end Numeral

/-! ## Reading a numeral -/

theorem head?_unit {unit : Text} (h : unit.all isUnitChar = true) :
    unit.head?.any isAsciiDigit = false ∧ ∀ rest, unit ≠ '.' :: rest := by
  cases unit with
  | nil => exact ⟨rfl, by simp⟩
  | cons c unit =>
    rw [List.all_cons, Bool.and_eq_true] at h
    obtain ⟨hDigit, hPoint⟩ := isAsciiDigit_of_isUnitChar h.1
    refine ⟨hDigit, fun rest hRest => ?_⟩
    exact hPoint (List.cons.inj hRest).1

theorem unsigned?_append (n : Numeral) {unit : Text} (h : unit.all isUnitChar = true) :
    unsigned? (n.unsigned ++ unit) = some (n.whole, n.fraction.getD [], unit) := by
  obtain ⟨hUnit, hPoint⟩ := head?_unit h
  rw [Numeral.unsigned, unsigned?]
  cases hFraction : n.fraction with
  | none =>
    have hWhole : n.whole ≠ [] := by simpa [hFraction] using n.has_digit
    obtain ⟨hTake, hDrop⟩ := digits_append n.all_whole hUnit
    rw [Option.elim_none, List.append_nil, Option.getD_none]
    simp only [hTake, hDrop]
    rw [if_neg (by simpa using hWhole)]
  | some digits =>
    obtain ⟨hNonempty, hDigits⟩ := n.all_fraction digits hFraction
    have hDot : ('.' :: (digits ++ unit)).head?.any isAsciiDigit = false := rfl
    obtain ⟨hTake, hDrop⟩ := digits_append n.all_whole hDot
    obtain ⟨hInner, hBehind⟩ := digits_append hDigits hUnit
    rw [Option.elim_some, List.append_assoc, List.cons_append, Option.getD_some]
    simp only [hTake, hDrop, hInner, hBehind]
    rw [if_neg (by simpa using hNonempty)]

theorem exists_of_unsigned? (negative : Bool) {s whole fraction unit : Text}
    (h : unsigned? s = some (whole, fraction, unit)) :
    ∃ n : Numeral, n.negative = negative ∧ n.whole = whole ∧ n.fraction.getD [] = fraction ∧
      s = n.unsigned ++ unit := by
  have hSplit : s.takeWhile isAsciiDigit ++ s.dropWhile isAsciiDigit = s :=
    List.takeWhile_append_dropWhile
  have hWhole : (s.takeWhile isAsciiDigit).all isAsciiDigit = true := List.all_takeWhile
  rw [unsigned?] at h
  simp only at h
  split at h
  · rename_i tail hRest
    split at h
    · cases h
    · rename_i hFraction
      simp only [Option.some.injEq, Prod.mk.injEq] at h
      obtain ⟨rfl, rfl, rfl⟩ := h
      refine ⟨⟨negative, s.takeWhile isAsciiDigit, some (tail.takeWhile isAsciiDigit), hWhole, ?_,
        .inr rfl⟩, rfl, rfl, rfl, ?_⟩
      · rintro digits hDigits
        obtain rfl := Option.some.inj hDigits
        exact ⟨by simpa using hFraction, List.all_takeWhile⟩
      · rw [Numeral.unsigned, Option.elim_some, List.append_assoc, List.cons_append,
          List.takeWhile_append_dropWhile, ← hRest, hSplit]
  · split at h
    · cases h
    · rename_i hNonempty
      simp only [Option.some.injEq, Prod.mk.injEq] at h
      obtain ⟨rfl, rfl, rfl⟩ := h
      refine ⟨⟨negative, s.takeWhile isAsciiDigit, none, hWhole, by simp, .inl ?_⟩, rfl, rfl, rfl, ?_⟩
      · simpa using hNonempty
      · rw [Numeral.unsigned, Option.elim_none, List.append_nil, hSplit]

theorem head?_unsigned_append (n : Numeral) (unit : Text) :
    (n.unsigned ++ unit).head? ≠ some '-' := by
  obtain ⟨c, rest, hCons⟩ := List.exists_cons_of_ne_nil n.unsigned_ne_nil
  have hc : c ∈ n.unsigned := by
    rw [hCons]
    exact List.mem_cons_self
  rw [hCons]
  rintro hDash
  obtain rfl : c = '-' := Option.some.inj hDash
  rcases Numeral.of_mem_unsigned hc with hDigit | hPoint
  · exact absurd hDigit (by decide)
  · exact absurd hPoint (by decide)

theorem parse?_of_trim {s unit : Text} (n : Numeral) (hUnit : unit.all isUnitChar = true)
    (h : Text.trim s = n.text ++ unit) : parse? s = some ⟨n.number, unit⟩ := by
  have hRead := unsigned?_append n hUnit
  rw [parse?, h, Numeral.text, Numeral.number]
  cases n.negative with
  | true =>
    simp only [Binary64.signed, ↓reduceIte, List.cons_append, List.head?_cons, List.drop_succ_cons,
      List.drop_zero, hRead, hUnit, decide_true]
  | false =>
    simp only [Binary64.signed, Bool.false_eq_true, ↓reduceIte, head?_unsigned_append n unit, hRead,
      hUnit, decide_false]

theorem exists_of_parse? {s : Text} {q : Quantity} (h : parse? s = some q) :
    ∃ n : Numeral, q.unit.all isUnitChar = true ∧ Text.trim s = n.text ++ q.unit ∧
      q.number = n.number := by
  rw [parse?] at h
  split at h
  · cases h
  · rename_i whole fraction unit hRead
    split at h
    · rename_i hUnit
      cases h
      obtain ⟨n, hNegative, hWhole, hFraction, hText⟩ :=
        exists_of_unsigned? (decide ((Text.trim s).head? = some '-')) hRead
      refine ⟨n, hUnit, ?_, ?_⟩
      · rw [Numeral.text, hNegative]
        by_cases hDash : (Text.trim s).head? = some '-'
        · obtain ⟨rest, hRest⟩ := List.head?_eq_some_iff.mp hDash
          simp only [hRest, List.head?_cons, ↓reduceIte, List.drop_succ_cons, List.drop_zero] at hText
          rw [hRest, List.head?_cons, decide_eq_true rfl, Binary64.signed, if_pos rfl,
            List.cons_append, hText]
        · simp only [hDash, ↓reduceIte] at hText
          rw [decide_eq_false hDash, Binary64.signed, if_neg Bool.false_ne_true, ← hText]
      · rw [Numeral.number, hNegative, hWhole, hFraction]
    · cases h

theorem all_unit {s : Text} {q : Quantity} (h : parse? s = some q) :
    q.unit.all isUnitChar = true := by
  obtain ⟨-, hUnit, -⟩ := exists_of_parse? h
  exact hUnit

/-! ## What is in no literal -/

theorem all_text_append (n : Numeral) {unit : Text} (hUnit : unit.all isUnitChar = true) :
    (n.text ++ unit).all isQuantityChar = true := by
  apply List.all_eq_true.mpr
  intro c hc
  rcases List.mem_append.mp hc with hc | hc
  · rcases Numeral.of_mem_text hc with hDigit | rfl | rfl
    · exact isQuantityChar_of_isAsciiDigit hDigit
    · decide
    · decide
  · have hChar := List.all_eq_true.mp hUnit c hc
    simp [isQuantityChar, hChar]

theorem trim_text_append (n : Numeral) {unit : Text} (hUnit : unit.all isUnitChar = true) :
    Text.trim (n.text ++ unit) = n.text ++ unit :=
  trim_of_all_quantity (all_text_append n hUnit)

theorem parse?_eq_none_of_mem {s : Text} {c : Char} (hc : c ∈ Text.trim s)
    (h : isQuantityChar c = false) : parse? s = none := by
  rw [Option.eq_none_iff_forall_ne_some]
  intro q hParse
  obtain ⟨n, hUnit, hText, -⟩ := exists_of_parse? hParse
  rw [hText] at hc
  rw [List.all_eq_true.mp (all_text_append n hUnit) c hc] at h
  cases h

theorem isQuantityChar_eq_false {c : Char} (h : isBlank c = true ∨ c = '+' ∨ 128 ≤ c.toNat) :
    isQuantityChar c = false := by
  rw [Bool.eq_false_iff]
  intro hChar
  rcases h with hBlank | rfl | hBeyond
  · rw [isBlank_of_isQuantityChar hChar] at hBlank
    cases hBlank
  · exact absurd hChar (by decide)
  · exact absurd (toNat_lt_of_isQuantityChar hChar) (Nat.not_lt.mpr hBeyond)

theorem rtakeWhile_append {front unit : Text} (hFront : ∀ c ∈ front, isUnitChar c = false)
    (hUnit : unit.all isUnitChar = true) : (front ++ unit).rtakeWhile isUnitChar = unit := by
  have hAll : ∀ c ∈ unit.reverse, isUnitChar c = true := fun c hc =>
    List.all_eq_true.mp hUnit c (List.mem_reverse.mp hc)
  have hNone : front.reverse.takeWhile isUnitChar = [] := by
    cases hLast : front.reverse with
    | nil => rfl
    | cons c rest =>
      have hMem : c ∈ front.reverse := hLast ▸ List.mem_cons_self
      rw [List.takeWhile_cons_of_neg]
      simp [hFront c (List.mem_reverse.mp hMem)]
  rw [List.rtakeWhile, List.reverse_append, List.takeWhile_append_of_pos hAll, hNone,
    List.append_nil, List.reverse_reverse]

theorem parse?_eq_none_of_digit {s front back : Text} {c : Char}
    (hText : Text.trim s = front ++ c :: back) (hc : isUnitChar c = true)
    (hDigit : back.any isAsciiDigit = true) : parse? s = none := by
  rw [Option.eq_none_iff_forall_ne_some]
  intro q hParse
  obtain ⟨n, hUnit, hLiteral, -⟩ := exists_of_parse? hParse
  obtain ⟨d, hd, hDigit⟩ := List.any_eq_true.mp hDigit
  have hBack : d ∈ q.unit := by
    rw [hLiteral] at hText
    rcases List.append_eq_append_iff.mp hText with ⟨more, -, hSplit⟩ | ⟨more, hSplit, hRest⟩
    · rw [hSplit]
      exact List.mem_append_right _ (List.mem_cons_of_mem c hd)
    · cases more with
      | nil =>
        rw [← List.nil_append q.unit, ← hRest]
        exact List.mem_cons_of_mem c hd
      | cons first more =>
        -- The letter would be one of the numeral.
        obtain rfl := (List.cons.inj hRest).1
        have hMem : c ∈ n.text := by
          rw [hSplit]
          exact List.mem_append_right _ List.mem_cons_self
        rw [Numeral.isUnitChar_of_mem_text hMem] at hc
        cases hc
  rw [(isAsciiDigit_of_isUnitChar (List.all_eq_true.mp hUnit d hBack)).1] at hDigit
  cases hDigit

/-! ## Digits of any script -/

/-- A way in which a number is found: a minus sign or none, digits, a point or none, and further
digits, of which there is one at least. -/
structure Match (digit : Char → Bool) where
  sign : Text
  whole : Text
  point : Text
  last : Text
  sign_cases : sign = [] ∨ sign = ['-']
  all_whole : whole.all digit = true
  point_cases : point = [] ∨ point = ['.']
  last_ne_nil : last ≠ []
  all_last : last.all digit = true

namespace Match

variable {digit : Char → Bool}

def text (m : Match digit) : Text :=
  m.sign ++ (m.whole ++ (m.point ++ m.last))

def IsAscii (m : Match digit) : Prop :=
  ∀ c ∈ m.text, c.toNat < 128

instance (m : Match digit) : Decidable m.IsAscii :=
  inferInstanceAs (Decidable (∀ c ∈ m.text, c.toNat < 128))

theorem exists_numeral (hDigit : ∀ c : Char, c.toNat < 128 → digit c = isAsciiDigit c)
    {m : Match digit} (h : m.IsAscii) : ∃ n : Numeral, n.text = m.text := by
  have hAll {s : Text} (hs : s.all digit = true) (hMem : ∀ c ∈ s, c ∈ m.text) :
      s.all isAsciiDigit = true := by
    apply List.all_eq_true.mpr
    intro c hc
    rw [← hDigit c (h c (hMem c hc))]
    exact List.all_eq_true.mp hs c hc
  have hWhole : m.whole.all isAsciiDigit = true := hAll m.all_whole (by simp +contextual [text])
  have hLast : m.last.all isAsciiDigit = true := hAll m.all_last (by simp +contextual [text])
  obtain ⟨negative, hSign⟩ : ∃ negative, ∀ s, Binary64.signed negative s = m.sign ++ s := by
    rcases m.sign_cases with hSign | hSign
    · exact ⟨false, fun s => by rw [hSign]; rfl⟩
    · exact ⟨true, fun s => by rw [hSign]; rfl⟩
  rcases m.point_cases with hPoint | hPoint
  · -- Without a point, it does not matter where the digits are cut in two.
    refine ⟨⟨negative, m.whole ++ m.last, none, ?_, by simp, .inl ?_⟩, ?_⟩
    · rw [List.all_append, hWhole, hLast, Bool.and_self]
    · exact List.append_ne_nil_of_right_ne_nil _ m.last_ne_nil
    · rw [Numeral.text, Numeral.unsigned, hSign, text, hPoint, Option.elim_none, List.append_nil,
        List.nil_append]
  · refine ⟨⟨negative, m.whole, some m.last, hWhole, ?_, .inr rfl⟩, ?_⟩
    · rintro digits hDigits
      obtain rfl := Option.some.inj hDigits
      exact ⟨m.last_ne_nil, hLast⟩
    · rw [Numeral.text, Numeral.unsigned, hSign, text, hPoint, Option.elim_some,
        List.singleton_append]

theorem exists_of_numeral (hDigit : ∀ c : Char, c.toNat < 128 → digit c = isAsciiDigit c)
    (n : Numeral) : ∃ m : Match digit, m.text = n.text := by
  have hAll {s : Text} (hs : s.all isAsciiDigit = true) : s.all digit = true := by
    apply List.all_eq_true.mpr
    intro c hc
    have hc := List.all_eq_true.mp hs c hc
    rwa [hDigit c (toNat_lt_of_isQuantityChar (isQuantityChar_of_isAsciiDigit hc))]
  obtain ⟨sign, hCases, hSign⟩ : ∃ sign, (sign = [] ∨ sign = ['-']) ∧
      ∀ s, Binary64.signed n.negative s = sign ++ s := by
    cases n.negative with
    | true => exact ⟨['-'], .inr rfl, fun _ => rfl⟩
    | false => exact ⟨[], .inl rfl, fun _ => rfl⟩
  cases hFraction : n.fraction with
  | none =>
    have hWhole : n.whole ≠ [] := by simpa [hFraction] using n.has_digit
    refine ⟨⟨sign, [], [], n.whole, hCases, rfl, .inl rfl, hWhole, hAll n.all_whole⟩, ?_⟩
    rw [Numeral.text, Numeral.unsigned, hSign, hFraction, Option.elim_none, List.append_nil]
    rfl
  | some digits =>
    obtain ⟨hNonempty, hDigits⟩ := n.all_fraction digits hFraction
    refine ⟨⟨sign, n.whole, ['.'], digits, hCases, hAll n.all_whole, .inr rfl, hNonempty,
      hAll hDigits⟩, ?_⟩
    rw [Numeral.text, Numeral.unsigned, hSign, hFraction, Option.elim_some]
    rfl

end Match

section Script

variable {digit : Char → Bool} (hDigit : ∀ c : Char, c.toNat < 128 → digit c = isAsciiDigit c)

include hDigit

theorem exists_match_of_parse? {s : Text} {q : Quantity} (h : parse? s = some q) :
    ∃ m : Match digit, q.unit.all isUnitChar = true ∧ Text.trim s = m.text ++ q.unit := by
  obtain ⟨n, hUnit, hText, -⟩ := exists_of_parse? h
  obtain ⟨m, hMatch⟩ := Match.exists_of_numeral hDigit n
  exact ⟨m, hUnit, by rw [hMatch, hText]⟩

/-- In whatever way a number of any digits is found in front of a unit, the text is read with that
unit if the digits are ASCII ones, and not at all otherwise. -/
theorem unit_parse?_of_match {s unit : Text} (m : Match digit) (hUnit : unit.all isUnitChar = true)
    (hText : Text.trim s = m.text ++ unit) :
    (parse? s).map (·.unit) = if m.IsAscii then some unit else none := by
  split
  · rename_i hAscii
    obtain ⟨n, hNumeral⟩ := Match.exists_numeral hDigit hAscii
    rw [← hNumeral] at hText
    rw [parse?_of_trim n hUnit hText]
    rfl
  · rename_i hForeign
    rw [Match.IsAscii] at hForeign
    push Not at hForeign
    obtain ⟨c, hc, hBeyond⟩ := hForeign
    have hMem : c ∈ Text.trim s := by
      rw [hText]
      exact List.mem_append_left _ hc
    rw [parse?_eq_none_of_mem hMem (isQuantityChar_eq_false (.inr (.inr hBeyond)))]
    rfl

end Script

/-! ## The literals that are read -/

/-- Does a reader take exactly the numeric literals, and each with its unit? -/
structure ReadsLiterals (read? : Text → Option Quantity) : Prop where
  /-- A text is read if it is a numeral and a unit, but for white space around them. -/
  isSome_iff : ∀ s, (read? s).isSome = true ↔
    ∃ (n : Numeral) (unit : Text), unit.all isUnitChar = true ∧ Text.trim s = n.text ++ unit
  /-- The number is the one that is written. -/
  eq_some : ∀ s (n : Numeral) (unit : Text), unit.all isUnitChar = true →
    Text.trim s = n.text ++ unit → read? s = some ⟨n.number, unit⟩
  /-- The unit is the longest one that the text ends in. -/
  unit_eq : ∀ s q, read? s = some q → q.unit = (Text.trim s).rtakeWhile isUnitChar
  /-- Exponents are not read: no digit follows a letter. -/
  exponent : ∀ s front c back, Text.trim s = front ++ c :: back → isUnitChar c = true →
    back.any isAsciiDigit = true → read? s = none
  /-- White space between components, a plus sign and characters beyond ASCII, the digits among them
  included, are in no literal. -/
  foreign : ∀ s, ∀ c ∈ Text.trim s, isBlank c = true ∨ c = '+' ∨ 128 ≤ c.toNat → read? s = none
  /-- The unit of one literal can be written at the end of any other one that has none. -/
  append : ∀ s q t x, read? s = some q → read? t = some ⟨x, []⟩ →
    read? (Text.trimEnd t ++ q.unit) = some ⟨x, q.unit⟩

theorem readsLiterals_parse? : ReadsLiterals parse? := by
  constructor
  case isSome_iff =>
    intro s
    rw [Option.isSome_iff_exists]
    constructor
    · rintro ⟨q, hParse⟩
      obtain ⟨n, hUnit, hText, -⟩ := exists_of_parse? hParse
      exact ⟨n, q.unit, hUnit, hText⟩
    · rintro ⟨n, unit, hUnit, hText⟩
      exact ⟨_, parse?_of_trim n hUnit hText⟩
  case eq_some =>
    intro s n unit hUnit hText
    exact parse?_of_trim n hUnit hText
  case unit_eq =>
    intro s q hParse
    obtain ⟨n, hUnit, hText, -⟩ := exists_of_parse? hParse
    rw [hText, rtakeWhile_append (fun c hc => Numeral.isUnitChar_of_mem_text hc) hUnit]
  case exponent =>
    intro s front c back hText hc hDigit
    exact parse?_eq_none_of_digit hText hc hDigit
  case foreign =>
    intro s c hc hForeign
    exact parse?_eq_none_of_mem hc (isQuantityChar_eq_false hForeign)
  case append =>
    intro s q t x hParse hBare
    obtain ⟨n, -, hText, hNumber⟩ := exists_of_parse? hBare
    have hUnit := all_unit hParse
    have hNonempty : Text.trim t ≠ [] := by
      rw [hText]
      exact List.append_ne_nil_of_left_ne_nil n.text_ne_nil _
    have hLiteral : Text.trim (Text.leadingBlank t ++ (n.text ++ q.unit ++ [])) = n.text ++ q.unit :=
      Text.trim_append (Text.all_leadingBlank t) rfl (trim_text_append n hUnit)
    rw [List.append_nil] at hText hLiteral
    rw [Text.trimEnd_eq_append hNonempty, hText, List.append_assoc, show x = n.number from hNumber]
    exact parse?_of_trim n hUnit hLiteral

theorem readsLiterals_parse?_rem :
    let s := "\u00A0-.5rem ".toList
    let t := " 12 ".toList
    parse? s = some ⟨.ofRatio true 1 2, "rem".toList⟩ ∧ parse? t = some ⟨.ofNat 12, []⟩ ∧
      parse? (Text.trimEnd t ++ "rem".toList) = some ⟨.ofNat 12, "rem".toList⟩ := by
  intro s t
  have hUnit : parse? s = some ⟨.ofRatio true 1 2, "rem".toList⟩ := by decide +kernel
  have hBare : parse? t = some ⟨.ofNat 12, []⟩ := by decide +kernel
  exact ⟨hUnit, hBare, readsLiterals_parse?.append s _ t _ hUnit hBare⟩

end Quantity

end DesignParams
