import DesignParams.Json.Typed
import DesignParams.Proofs.Json.Pretty

/-!
# Reading values by type

Each reader takes the text of the values of its type: scalars, choices, lists, dictionaries and
records.
-/
set_option autoImplicit false

namespace DesignParams

namespace JsonReader

open Json (prettyAt quoted)

variable {α β σ : Type} {s rest : Text}

theorem ne_of_isAsciiDigit {c d : Char} (h : isAsciiDigit c = true) (hOther : isAsciiDigit d = false) :
    c ≠ d := by
  rintro rfl
  rw [h] at hOther
  cases hOther

/-! ## Scalars -/

theorem reads_text (expected text : Text) : Reads (JsonReader.text expected) (.string text) text := by
  intro level s rest _ hText
  rw [prettyAt, quoted_append] at hText
  rw [JsonReader.text, hText]
  exact string_flatMap_escapeChar text rest

theorem reads_boolean (b : Bool) : Reads boolean (.bool b) b := by
  intro level s rest _ hText
  cases b with
  | true =>
    rw [prettyAt] at hText
    rw [boolean, hText]
    rfl
  | false =>
    rw [prettyAt] at hText
    rw [boolean, hText]
    rfl

theorem reads_numeric {expected : Text} {convert : JsonNumber → Except JsonFault α}
    {written read : JsonNumber} {a : α} (h : Numeral written.text read) (hConvert : convert read = .ok a) :
    Reads (numeric expected convert) (.number written) a := by
  intro level s rest hRest hText
  rw [prettyAt] at hText
  rw [numeric, hText]
  generalize written.text = text at h
  cases h with
  | @plain c t _ digit hNumber =>
    have hAppend := number_append hRest hNumber
    rw [List.nil_append, List.cons_append] at hAppend
    simp only [List.cons_append, ne_of_isAsciiDigit digit (by decide : isAsciiDigit '-' = false), digit,
      ↓reduceIte, hAppend, numeric.accept, hConvert]
  | @minus t _ hNumber =>
    have hAppend := number_append hRest hNumber
    rw [List.nil_append] at hAppend
    simp only [List.cons_append, ↓reduceIte, hAppend, numeric.accept, hConvert]

theorem reads_natural {n : Nat} (h : n < Nat.pow 2 64) : Reads natural (Json.ofNat n) n :=
  reads_numeric (numeral_natural h) rfl

theorem numeral_ofInt {n : Int} (hLow : -(Nat.pow 2 63 : Int) ≤ n) (hHigh : n < (Nat.pow 2 64 : Int)) :
    Numeral (JsonNumber.ofInt n).text (.ofInt n) := by
  cases n with
  | ofNat n => exact numeral_natural (Int.ofNat_lt.mp hHigh)
  | negSucc n =>
    refine numeral_negative (Nat.succ_pos n) ?_
    rw [Int.negSucc_eq] at hLow
    omega

theorem reads_integer {n : Int} (hLow : -(Nat.pow 2 63 : Int) ≤ n) (hHigh : n < (Nat.pow 2 63 : Int)) :
    Reads integer (.number (.ofInt n)) n := by
  have hNumeral : Numeral (JsonNumber.ofInt n).text (.ofInt n) :=
    numeral_ofInt hLow (hHigh.trans (by decide))
  cases n with
  | ofNat n => exact reads_numeric hNumeral (if_pos (Int.ofNat_lt.mp hHigh))
  | negSucc n => exact reads_numeric hNumeral rfl

/-! ## Choices -/

theorem reads_choice {names : List Text} {ofName? : Text → Option α} {name : Text} {a : α}
    (h : ofName? name = some a) : Reads (choice names ofName?) (.string name) a := by
  intro level s rest _ hText
  rw [prettyAt, quoted_append] at hText
  rw [choice, hText]
  simp only [↓reduceIte, string_flatMap_escapeChar]
  change named names ofName? name rest = _
  rw [named, h]

/-! ## Absent values -/

theorem Reads.optional {reader : JsonReader α} {json : Json} {a : α} (h : Reads reader json a)
    (hNull : ∀ level, ¬ (prettyAt level json).head? = some 'n') :
    Reads (optional reader) json (some a) := by
  intro level s rest hRest hText
  have hRead := h.eq_ok level hRest
  obtain ⟨c, t, hCons, -⟩ := exists_prettyAt_cons level json
  have hHead := hNull level
  rw [hCons, List.head?_cons, Option.some_inj] at hHead
  rw [hCons, List.cons_append] at hRead hText
  rw [JsonReader.optional.eq_def, hText]
  split
  · rename_i t' hEq
    cases hEq
    exact absurd rfl hHead
  · rw [hRead]
    rfl

theorem head?_prettyAt_string (text : Text) (level : Nat) :
    ¬ (prettyAt level (.string text)).head? = some 'n' := by
  rw [prettyAt, quoted]
  simp

theorem Numeral.head?_prettyAt {written read : JsonNumber} (h : Numeral written.text read) (level : Nat) :
    ¬ (prettyAt level (.number written)).head? = some 'n' := by
  obtain ⟨c, t, hText, hHead⟩ := h.head
  rw [prettyAt, hText, List.head?_cons, Option.some_inj]
  rintro rfl
  revert hHead
  decide

/-! ## Collections -/

theorem reads_sequence {reader : JsonReader α} {encode : β → Json} (decode : β → α) {items : List β}
    (h : ∀ b ∈ items, Reads reader (encode b) (decode b)) :
    Reads (sequence reader) (.array (items.map encode)) (items.map decode) := by
  intro level s rest _ hText
  have hItems : List.Forall₂ (Reads reader) (items.map encode) (items.map decode) := by
    rw [List.forall₂_map_left_iff, List.forall₂_map_right_iff, List.forall₂_same]
    exact h
  obtain ⟨t, hCons, hList⟩ := list_prettyAt hItems level rest
  rw [hCons] at hText
  rw [sequence, hText]
  exact hList

def entryField (reader : JsonReader α) (entries : Entries α) (key : Text) :
    Except JsonFault (JsonReader (Entries α)) :=
  .ok fun s => (reader s).map fun (a, rest) => (Entries.insert key a entries, rest)

theorem takes_entries {reader : JsonReader α} {encode : β → Json} {decode : β → α}
    {entries : Entries β} (front : Entries α)
    (hRead : ∀ entry ∈ entries, Reads reader (encode entry.2) (decode entry.2))
    (hSorted : Entries.IsSorted (front ++ entries.map fun entry => (entry.1, decode entry.2))) :
    Takes (entryField reader) front (entries.map fun entry => (entry.1, encode entry.2))
      (front ++ entries.map fun entry => (entry.1, decode entry.2)) := by
  induction entries generalizing front with
  | nil =>
    rw [List.map_nil, List.map_nil, List.append_nil]
    exact .nil
  | cons entry entries ih =>
    rw [List.forall_mem_cons] at hRead
    rw [List.map_cons] at hSorted
    have hLast : Entries.insert entry.1 (decode entry.2) front = front ++ [(entry.1, decode entry.2)] := by
      refine Entries.insert_of_last ?_
      intro other hOther
      exact (List.pairwise_append.mp hSorted).2.2 other hOther _ List.mem_cons_self
    have hTail := ih (front ++ [(entry.1, decode entry.2)]) hRead.2 (by simpa using hSorted)
    rw [List.append_assoc, List.singleton_append, ← hLast] at hTail
    exact .cons rfl (hRead.1.map fun a => Entries.insert entry.1 a front) hTail

theorem isSorted_map {decode : β → α} {entries : Entries β} (h : entries.IsSorted) :
    Entries.IsSorted (entries.map fun entry => (entry.1, decode entry.2)) :=
  List.pairwise_map.mpr h

theorem reads_dictionary {reader : JsonReader α} {encode : β → Json} {decode : β → α}
    {entries : Entries β} (hSorted : entries.IsSorted)
    (hRead : ∀ entry ∈ entries, Reads reader (encode entry.2) (decode entry.2)) :
    Reads (dictionary reader) (.object (entries.map fun entry => (entry.1, encode entry.2)))
      (entries.map fun entry => (entry.1, decode entry.2)) := by
  intro level s rest _ hText
  have hTakes := takes_entries [] hRead (isSorted_map hSorted)
  obtain ⟨t, hCons, hObject⟩ := object_prettyAt hTakes .ok rfl level rest
  rw [hCons] at hText
  rw [dictionary, hText]
  exact hObject

/-! ## Records -/

theorem reads_record {title : String} {slots : List (Slot σ)} {start final : σ}
    {finish : σ → Except JsonFault α} {members : List (Text × Json)} {a : α}
    (hTakes : Takes (slotFor slots) start members final) (hFinish : finish final = .ok a) :
    Reads (record title slots start finish) (.object members) a := by
  intro level s rest _ hText
  obtain ⟨t, hCons, hObject⟩ := object_prettyAt hTakes finish hFinish level rest
  rw [hCons] at hText
  rw [record, hText]
  exact hObject

variable {slots : List (Slot σ)} {state final : σ} {json : Json} {reader : JsonReader α}
  {members : List (Text × Json)}

theorem Takes.slot {name : String} {get : σ → Option α} {set : σ → α → σ} {key : Text} {a : α}
    (hField : slotFor slots state key = .ok ((JsonReader.slot name get set reader).fill state))
    (hRead : Reads reader json a) (tail : Takes (slotFor slots) (set state a) members final) :
    Takes (slotFor slots) state ((key, json) :: members) final :=
  .cons hField (hRead.map fun a => set state a) tail

/-- A field that may be left out: `put` enters what was read of it. -/
theorem Takes.optionalSlot {key : String} {encode : α → Json} {a? : Option α}
    (put : σ → Option (Option α) → σ) (hNone : put state none = state)
    (hField : slotFor slots state key.toList =
      .ok fun s => (optional reader s).map fun (a, rest) => (put state (some a), rest))
    (hRead : ∀ a ∈ a?, Reads (optional reader) (encode a) (some a))
    (tail : Takes (slotFor slots) (put state (a?.map some)) members final) :
    Takes (slotFor slots) state (Json.member? key encode a? ++ members) final := by
  cases a? with
  | none =>
    rw [Option.map_none, hNone] at tail
    exact tail
  | some a => exact .cons hField ((hRead a rfl).map fun a => put state (some a)) tail

end JsonReader

end DesignParams
