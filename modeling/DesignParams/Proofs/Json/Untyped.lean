import DesignParams.Proofs.Json.Typed

/-!
# Reading any value

The reader of values tells them apart by their first characters. The members of an object are
entered by their keys, so those of sorted entries stay in order.
-/
set_option autoImplicit false

namespace DesignParams

namespace JsonReader

open Json (prettyAt)

variable {rest : Text}

theorem Numeral.reads_value {written read : JsonNumber} (h : Numeral written.text read) (depth : Nat) :
    Reads (value (depth + 1)) (.number written) (.number read) := by
  intro level s rest hRest hText
  rw [prettyAt] at hText
  rw [value, hText]
  generalize written.text = text at h
  cases h with
  | @plain c t _ digit hNumber =>
    have hAppend := number_append hRest hNumber
    rw [List.nil_append, List.cons_append] at hAppend
    have hNull : c ≠ 'n' := ne_of_isAsciiDigit digit (by decide)
    have hTrue : c ≠ 't' := ne_of_isAsciiDigit digit (by decide)
    have hFalse : c ≠ 'f' := ne_of_isAsciiDigit digit (by decide)
    have hMinus : c ≠ '-' := ne_of_isAsciiDigit digit (by decide)
    simp only [List.cons_append, hNull, hTrue, hFalse, hMinus, digit, ↓reduceIte, hAppend, Except.map]
  | @minus t _ hNumber =>
    have hAppend := number_append hRest hNumber
    rw [List.nil_append] at hAppend
    have hNull : '-' ≠ 'n' := by decide
    have hTrue : '-' ≠ 't' := by decide
    have hFalse : '-' ≠ 'f' := by decide
    simp only [List.cons_append, hNull, hTrue, hFalse, ↓reduceIte, hAppend, Except.map]

theorem reads_value_string (depth : Nat) (text : Text) :
    Reads (value (depth + 1)) (.string text) (.string text) := by
  intro level s rest _ hText
  rw [prettyAt, quoted_append] at hText
  rw [value, hText]
  have hString := string_flatMap_escapeChar text rest
  generalize text.flatMap Json.escapeChar ++ '"' :: rest = t at hString
  change (string t).map _ = _
  rw [hString]
  rfl

theorem reads_value_bool (depth : Nat) (b : Bool) : Reads (value (depth + 1)) (.bool b) (.bool b) := by
  intro level s rest _ hText
  cases b with
  | true =>
    rw [prettyAt] at hText
    rw [value, hText]
    rfl
  | false =>
    rw [prettyAt] at hText
    rw [value, hText]
    rfl

theorem reads_value_infinite (depth : Nat) (negative : Bool) :
    Reads (value (depth + 1)) (.number (.decimal (.infinite negative))) .null := by
  intro level s rest _ hText
  rw [prettyAt, text_infinite] at hText
  rw [value, hText]
  rfl

theorem reads_value_array {depth : Nat} {jsons read : List Json}
    (h : List.Forall₂ (Reads (value (depth + 1))) jsons read) :
    Reads (value (depth + 2)) (.array jsons) (.array read) := by
  intro level s rest _ hText
  obtain ⟨t, hCons, hList⟩ := list_prettyAt h level rest
  rw [hCons] at hText
  rw [value, hText]
  change (list (value (depth + 1)) t).map _ = _
  rw [hList]
  rfl

theorem reads_value_object {depth : Nat} {members : List (Text × Json)} {read : Entries Json}
    (h : Takes (entryField (value (depth + 1))) [] members read) :
    Reads (value (depth + 2)) (.object members) (.object read) := by
  intro level s rest _ hText
  obtain ⟨t, hCons, hObject⟩ :=
    object_prettyAt h (fun entries => .ok (Json.object entries)) rfl level rest
  rw [hCons] at hText
  rw [value, hText]
  exact hObject

/-! ## Values that can be read -/

def Readable (depth : Nat) (json : Json) : Prop :=
  ∃ read, Reads (value depth) json read

theorem readable_string (depth : Nat) (text : Text) : Readable (depth + 1) (.string text) :=
  ⟨_, reads_value_string depth text⟩

theorem readable_array {depth : Nat} {jsons : List Json} (h : ∀ json ∈ jsons, Readable (depth + 1) json) :
    Readable (depth + 2) (.array jsons) := by
  have hItems : ∃ read, List.Forall₂ (Reads (value (depth + 1))) jsons read := by
    induction jsons with
    | nil => exact ⟨[], .nil⟩
    | cons json jsons ih =>
      rw [List.forall_mem_cons] at h
      obtain ⟨item, hItem⟩ := h.1
      obtain ⟨items, hItems⟩ := ih h.2
      exact ⟨item :: items, .cons hItem hItems⟩
  obtain ⟨read, hRead⟩ := hItems
  exact ⟨_, reads_value_array hRead⟩

theorem exists_takes_entries {depth : Nat} {members : List (Text × Json)}
    (h : ∀ member ∈ members, Readable depth member.2) (start : Entries Json) :
    ∃ final, Takes (entryField (value depth)) start members final := by
  induction members generalizing start with
  | nil => exact ⟨start, .nil⟩
  | cons member members ih =>
    rw [List.forall_mem_cons] at h
    obtain ⟨read, hRead⟩ := h.1
    obtain ⟨final, hTail⟩ := ih h.2 (Entries.insert member.1 read start)
    exact ⟨final, .cons rfl (hRead.map fun json => Entries.insert member.1 json start) hTail⟩

theorem readable_object {depth : Nat} {members : List (Text × Json)}
    (h : ∀ member ∈ members, Readable (depth + 1) member.2) : Readable (depth + 2) (.object members) := by
  obtain ⟨final, hTakes⟩ := exists_takes_entries h []
  exact ⟨_, reads_value_object hTakes⟩

end JsonReader

end DesignParams
