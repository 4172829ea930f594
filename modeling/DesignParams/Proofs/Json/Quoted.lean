import DesignParams.Json.Printer
import DesignParams.Json.Reader

/-!
# Quoted strings

A string that is written with escapes is read back as it was, whatever characters it holds.
-/
set_option autoImplicit false

namespace DesignParams

namespace JsonReader

open Json (escapeChar hexDigit)

/-! ## Control characters -/

theorem hexDigits_of_control (n : Fin 32) :
    let digits := ['0', '0', hexDigit (n / 16), hexDigit (n % 16)]
    Text.byteLength digits = 4 ∧ digits.all isHexDigit = true ∧
      digits.foldl (fun n c => 16 * n + hexValue c) 0 = n := by
  revert n
  decide

theorem codeUnit_control {n : Nat} (h : n < 32) (t : Text) :
    codeUnit ('0' :: '0' :: hexDigit (n / 16) :: hexDigit (n % 16) :: t) = .ok n := by
  obtain ⟨hLength, hAll, hValue⟩ := hexDigits_of_control ⟨n, h⟩
  have hBytes : ¬ Text.byteLength ('0' :: '0' :: hexDigit (n / 16) :: hexDigit (n % 16) :: t) < 4 := by
    have hAppend := Text.byteLength_append ['0', '0', hexDigit (n / 16), hexDigit (n % 16)] t
    rw [hLength] at hAppend
    simp only [List.cons_append, List.nil_append] at hAppend
    omega
  rw [codeUnit, if_neg hBytes]
  simp only [List.take_succ_cons, List.take_zero, List.length_cons, List.length_nil, Nat.zero_add,
    Nat.reduceAdd, true_and]
  rw [if_pos hAll]
  exact congrArg Except.ok hValue

theorem escape_control {c : Char} (h : c.toNat < 32) (t : Text) :
    escape ('u' :: '0' :: '0' :: hexDigit (c.toNat / 16) :: hexDigit (c.toNat % 16) :: t) =
      .ok (c, 5) := by
  have hTrailing : isTrailing c.toNat = false := by
    simp only [isTrailing, Bool.and_eq_false_iff, decide_eq_false_iff_not]
    omega
  have hLeading : isLeading c.toNat = false := by
    simp only [isLeading, Bool.and_eq_false_iff, decide_eq_false_iff_not]
    omega
  have hSimple : simpleEscape? 'u' = none := by decide
  simp only [escape, hSimple, ↓reduceIte, unicodeEscape, codeUnit_control h, bind, Except.bind,
    hTrailing, hLeading, Bool.false_eq_true, Bool.not_false]
  simp [pure, Except.pure, Except.map]

/-! ## Strings -/

variable {t tail rest : Text}

theorem string_escaped {s : Text} {d : Char} {length : Nat} (hEscape : escape s = .ok (d, length))
    (h : string (s.drop length) = .ok (tail, rest)) :
    string ('\\' :: s) = .ok (d :: tail, rest) := by
  have hSlash : ¬ '\\' = '"' ∧ ¬ '\\'.toNat < 32 := by decide
  rw [string, if_neg hSlash.1, if_neg hSlash.2, if_pos rfl]
  simp only [bind, Except.bind, hEscape, h]
  rfl

theorem string_plain {c : Char} (hQuote : c ≠ '"') (hSlash : c ≠ '\\') (hControl : ¬ c.toNat < 32)
    (h : string t = .ok (tail, rest)) : string (c :: t) = .ok (c :: tail, rest) := by
  rw [string, if_neg hQuote, if_neg hControl, if_neg hSlash]
  simp only [bind, Except.bind, h]
  rfl

theorem string_escapeChar (c : Char) (h : string t = .ok (tail, rest)) :
    string (escapeChar c ++ t) = .ok (c :: tail, rest) := by
  have hNamed (letter : Char) (hLetter : simpleEscape? letter = some c) :
      string ('\\' :: letter :: t) = .ok (c :: tail, rest) := by
    have hEscape : escape (letter :: t) = .ok (c, 1) := by
      simp only [escape, hLetter]
    exact string_escaped hEscape h
  rw [escapeChar]
  split
  · rename_i hc
    exact hNamed '"' (by rw [hc]; rfl)
  rename_i hQuote
  split
  · rename_i hc
    exact hNamed '\\' (by rw [hc]; rfl)
  rename_i hSlash
  split
  · rename_i hc
    exact hNamed 'b' (by rw [hc]; rfl)
  split
  · rename_i hc
    exact hNamed 'f' (by rw [hc]; rfl)
  split
  · rename_i hc
    exact hNamed 'n' (by rw [hc]; rfl)
  split
  · rename_i hc
    exact hNamed 'r' (by rw [hc]; rfl)
  split
  · rename_i hc
    exact hNamed 't' (by rw [hc]; rfl)
  split
  · rename_i hControl
    exact string_escaped (escape_control hControl t) h
  · rename_i hControl
    exact string_plain hQuote hSlash hControl h

/-- Every string is read back from its quoted form, whatever follows the closing quote. -/
theorem string_flatMap_escapeChar (s rest : Text) :
    string (s.flatMap escapeChar ++ '"' :: rest) = .ok (s, rest) := by
  induction s with
  | nil => rw [List.flatMap_nil, List.nil_append, string, if_pos rfl]
  | cons c s ih =>
    rw [List.flatMap_cons, List.append_assoc]
    exact string_escapeChar c ih

end JsonReader

end DesignParams
