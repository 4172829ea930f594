import DesignParams.Proofs.Json.Quoted
import DesignParams.Proofs.Json.Written
import DesignParams.Proofs.Text.Entries
import Mathlib.Data.List.Forall2

/-!
# Reading pretty texts

What is read from the text of a value depends on its parts alone: the items of a list are read one
by one, and the members of an object take a state from the first to the last. What follows a value
is left as it is.
-/
set_option autoImplicit false

namespace DesignParams

namespace JsonReader

open Json (escapeChar lineAt prettyAt prettyItems prettyMembers quoted)

variable {α σ : Type} {s t rest : Text}

/-! ## White space -/

theorem skipSpace_cons {c : Char} (h : isSpace c = false) (s : Text) : skipSpace (c :: s) = c :: s :=
  List.dropWhile_cons_of_neg (by simp [h])

theorem skipSpace_lineAt (level : Nat) (s : Text) : skipSpace (lineAt level ++ s) = skipSpace s := by
  have hSpaces : ∀ c ∈ lineAt level, isSpace c = true := by
    intro c hc
    rcases List.mem_cons.mp hc with rfl | hc
    · rfl
    · rw [List.eq_of_mem_replicate hc]
      rfl
  exact List.dropWhile_append_of_pos hSpaces

theorem ends_lineAt (level : Nat) (s : Text) : Ends (lineAt level ++ s) :=
  ends_cons (by decide) _

/-! ## Numerals -/

/-- Does the text stand for the number, with or without a minus sign? -/
inductive Numeral : Text → JsonNumber → Prop
  | plain {c : Char} {t : Text} {n : JsonNumber} (digit : isAsciiDigit c = true)
    (read : number false (c :: t) = .ok (n, [])) : Numeral (c :: t) n
  | minus {t : Text} {n : JsonNumber} (read : number true t = .ok (n, [])) : Numeral ('-' :: t) n

theorem exists_digit_cons {digits : Text} (hAll : digits.all isAsciiDigit = true) (h : digits ≠ []) :
    ∃ c t, digits = c :: t ∧ isAsciiDigit c = true := by
  obtain ⟨c, t, rfl⟩ := List.exists_cons_of_ne_nil h
  rw [List.all_cons, Bool.and_eq_true] at hAll
  exact ⟨c, t, rfl, hAll.1⟩

theorem exists_magnitudeText_cons (units : Nat) :
    ∃ c t, magnitudeText units = c :: t ∧ isAsciiDigit c = true := by
  rw [magnitudeText]
  generalize Decimal.shortest units = d
  simp only
  split
  · obtain ⟨c, t, hWhole, hDigit⟩ := exists_digit_cons d.all_positional.1 d.whole_ne_nil
    rw [hWhole]
    exact ⟨c, _, rfl, hDigit⟩
  · obtain ⟨c, t, hDigits, hDigit⟩ := exists_digit_cons (Text.all_ofNat d.digits) Nat.toDigits_ne_nil
    rw [scientific_eq, hDigits]
    cases t with
    | nil => exact ⟨c, _, rfl, hDigit⟩
    | cons second more => exact ⟨c, _, rfl, hDigit⟩

theorem numeral_signed {negative : Bool} {c : Char} {t : Text} {n : JsonNumber}
    (hDigit : isAsciiDigit c = true) (h : number negative (c :: t) = .ok (n, [])) :
    Numeral (Binary64.signed negative (c :: t)) n := by
  cases negative with
  | true => exact .minus h
  | false => exact .plain hDigit h

theorem numeral_natural {n : Nat} (h : n < Nat.pow 2 64) :
    Numeral (JsonNumber.natural n).text (.natural n) := by
  have hNumber := number_natural h ends_nil
  rw [List.append_nil] at hNumber
  obtain ⟨c, t, hDigits, hDigit⟩ := exists_digit_cons (Text.all_ofNat n) Nat.toDigits_ne_nil
  rw [JsonNumber.text]
  rw [hDigits] at hNumber ⊢
  exact .plain hDigit hNumber

theorem numeral_negative {n : Nat} (hPositive : 0 < n) (h : n ≤ Nat.pow 2 63) :
    Numeral (JsonNumber.negative n).text (.negative n) := by
  have hNumber := number_negative hPositive h ends_nil
  rw [List.append_nil] at hNumber
  exact .minus hNumber

theorem exists_numeral_finite (negative : Bool) (units : Nat) :
    ∃ x, Numeral (JsonNumber.decimal (.finite negative units)).text (.decimal x) := by
  obtain ⟨x, hNumber⟩ := exists_number_magnitudeText negative units
  obtain ⟨c, t, hText, hDigit⟩ := exists_magnitudeText_cons units
  rw [JsonNumber.text, write_finite]
  rw [hText] at hNumber ⊢
  exact ⟨x, numeral_signed hDigit hNumber⟩

theorem Numeral.head {text : Text} {n : JsonNumber} (h : Numeral text n) :
    ∃ c t, text = c :: t ∧ (isAsciiDigit c = true ∨ c = '-') := by
  cases h with
  | plain digit read => exact ⟨_, _, rfl, .inl digit⟩
  | minus read => exact ⟨_, _, rfl, .inr rfl⟩

/-! ## The first character of a value -/

theorem quoted_append (text s : Text) : quoted text ++ s = '"' :: (text.flatMap escapeChar ++ '"' :: s) := by
  rw [quoted, List.cons_append, List.cons_append, List.append_assoc, List.singleton_append]

theorem text_infinite (negative : Bool) :
    (JsonNumber.decimal (.infinite negative)).text = "null".toList := by
  cases negative <;> rfl

/-- Does a text begin like a value, with no space, and not like the end of a list? -/
def Begins (c : Char) : Prop :=
  isSpace c = false ∧ c ≠ ']'

theorem begins_of_isAsciiDigit {c : Char} (h : isAsciiDigit c = true ∨ c = '-') : Begins c := by
  constructor
  · rw [← Bool.not_eq_true]
    intro hSpace
    simp only [isSpace, Bool.or_eq_true, decide_eq_true_eq] at hSpace
    rcases hSpace with ((rfl | rfl) | rfl) | rfl <;> revert h <;> decide
  · rintro rfl
    revert h
    decide

theorem exists_number_text_cons (n : JsonNumber) : ∃ c t, n.text = c :: t ∧ Begins c := by
  cases n with
  | natural n =>
    obtain ⟨c, t, hDigits, hDigit⟩ := exists_digit_cons (Text.all_ofNat n) Nat.toDigits_ne_nil
    exact ⟨c, t, hDigits, begins_of_isAsciiDigit (.inl hDigit)⟩
  | negative n => exact ⟨'-', _, rfl, begins_of_isAsciiDigit (.inr rfl)⟩
  | decimal x =>
    cases x with
    | infinite negative =>
      rw [text_infinite]
      exact ⟨'n', "ull".toList, by decide, by decide, by decide⟩
    | finite negative units =>
      obtain ⟨x, hNumeral⟩ := exists_numeral_finite negative units
      obtain ⟨c, t, hText, hHead⟩ := hNumeral.head
      exact ⟨c, t, hText, begins_of_isAsciiDigit hHead⟩

theorem exists_prettyAt_cons (level : Nat) (json : Json) :
    ∃ c t, prettyAt level json = c :: t ∧ Begins c := by
  cases json with
  | null => exact ⟨'n', "ull".toList, rfl, by decide, by decide⟩
  | bool b =>
    cases b with
    | true => exact ⟨'t', "rue".toList, rfl, by decide, by decide⟩
    | false => exact ⟨'f', "alse".toList, rfl, by decide, by decide⟩
  | number n => exact exists_number_text_cons n
  | string text => exact ⟨'"', _, rfl, by decide, by decide⟩
  | array items =>
    cases items with
    | nil => exact ⟨'[', _, rfl, by decide, by decide⟩
    | cons item items => exact ⟨'[', _, rfl, by decide, by decide⟩
  | object members =>
    cases members with
    | nil => exact ⟨'\x7B', _, rfl, by decide, by decide⟩
    | cons member members => exact ⟨'\x7B', _, rfl, by decide, by decide⟩

theorem skipSpace_prettyAt (level : Nat) (json : Json) (rest : Text) :
    skipSpace (prettyAt level json ++ rest) = prettyAt level json ++ rest := by
  obtain ⟨c, t, hText, hBegins⟩ := exists_prettyAt_cons level json
  rw [hText]
  exact skipSpace_cons hBegins.1 _

/-! ## Readings -/

/-- Is the value read from the text of the JSON value, with what follows left over? -/
def Reads (reader : JsonReader α) (json : Json) (a : α) : Prop :=
  ∀ (level : Nat) (s rest : Text), Ends rest → skipSpace s = prettyAt level json ++ rest →
    reader s = .ok (a, rest)

theorem Reads.eq_ok {reader : JsonReader α} {json : Json} {a : α} (h : Reads reader json a)
    (level : Nat) (hRest : Ends rest) : reader (prettyAt level json ++ rest) = .ok (a, rest) :=
  h level _ rest hRest (skipSpace_prettyAt level json rest)

theorem Reads.run {reader : JsonReader α} {json : Json} {a : α} (h : Reads reader json a) :
    run reader json.pretty = .ok a := by
  have hRead := h.eq_ok 0 ends_nil
  rw [List.append_nil] at hRead
  rw [JsonReader.run, Json.pretty, hRead]
  rfl

theorem Reads.map {β : Type} {reader : JsonReader α} {json : Json} {a : α} (h : Reads reader json a)
    (f : α → β) : Reads (fun s => (reader s).map fun (a, rest) => (f a, rest)) json (f a) := by
  intro level s rest hRest hText
  simp only [h level s rest hRest hText, Except.map]

/-! ## Lists -/

def itemsText (isFirst : Bool) (level : Nat) : List Json → Text
  | [] => []
  | item :: items =>
    (if isFirst then [] else [',']) ++ (lineAt level ++ (prettyAt level item ++ prettyItems level items))

theorem itemsText_false (level : Nat) (items : List Json) :
    itemsText false level items = prettyItems level items := by
  cases items with
  | nil => rfl
  | cons item items => simp [itemsText, prettyItems]

theorem ends_prettyItems (level outer : Nat) (items : List Json) (s : Text) :
    Ends (prettyItems level items ++ (lineAt outer ++ s)) := by
  cases items with
  | nil => exact ends_lineAt outer s
  | cons item items => exact ends_cons (by decide) _

theorem nextItem?_itemsText (isFirst : Bool) (level : Nat) (item : Json) (s : Text) :
    nextItem? isFirst ((if isFirst then [] else [',']) ++ (lineAt level ++ (prettyAt level item ++ s))) =
      .ok (some (prettyAt level item ++ s)) := by
  obtain ⟨c, t, hText, hSpace, hEnd⟩ := exists_prettyAt_cons level item
  rw [hText, List.cons_append]
  have hSkip : skipSpace (lineAt level ++ c :: (t ++ s)) = c :: (t ++ s) := by
    rw [skipSpace_lineAt]
    exact skipSpace_cons hSpace _
  cases isFirst with
  | true =>
    rw [nextItem?]
    simp only [↓reduceIte, List.nil_append, hSkip, hEnd]
  | false =>
    have hComma : isSpace ',' = false := by decide
    have hOther : ¬ ',' = ']' := by decide
    rw [nextItem?]
    simp only [Bool.false_eq_true, ↓reduceIte, List.cons_append, List.nil_append,
      skipSpace_cons hComma, hOther, hSkip, hEnd]

theorem items_of_closed {reader : JsonReader α} {isFirst : Bool} (h : skipSpace s = ']' :: rest) :
    items reader isFirst s = .ok ([], ']' :: rest) := by
  have hNext : nextItem? isFirst s = .ok none := by
    rw [nextItem?, h]
    rfl
  rw [items, hNext]
  simp only [h]

theorem items_itemsText {reader : JsonReader α} {jsons : List Json} {as : List α}
    (h : List.Forall₂ (Reads reader) jsons as) (isFirst : Bool) (level outer : Nat) (rest : Text) :
    items reader isFirst (itemsText isFirst level jsons ++ (lineAt outer ++ ']' :: rest)) =
      .ok (as, ']' :: rest) := by
  induction h generalizing isFirst with
  | nil =>
    refine items_of_closed ?_
    rw [itemsText, List.nil_append, skipSpace_lineAt]
    rfl
  | @cons json a jsons as hRead _ ih =>
    have hNext := nextItem?_itemsText isFirst level json
      (prettyItems level jsons ++ (lineAt outer ++ ']' :: rest))
    have hItem := hRead.eq_ok level (ends_prettyItems level outer jsons (']' :: rest))
    have hRest := ih false
    rw [itemsText_false] at hRest
    simp only [itemsText, List.append_assoc]
    rw [items, hNext]
    simp only [hItem]
    rw [if_pos, hRest]
    · rfl
    · simp only [List.length_append, lineAt, List.length_cons]
      omega

theorem list_prettyAt {reader : JsonReader α} {jsons : List Json} {as : List α}
    (h : List.Forall₂ (Reads reader) jsons as) (level : Nat) (rest : Text) :
    ∃ t, prettyAt level (.array jsons) ++ rest = '[' :: t ∧ list reader t = .ok (as, rest) := by
  cases jsons with
  | nil =>
    cases h
    refine ⟨']' :: rest, rfl, ?_⟩
    have hItems : items reader true (']' :: rest) = .ok ([], ']' :: rest) := items_of_closed rfl
    rw [list, hItems]
    rfl
  | cons json jsons =>
    refine ⟨itemsText true (level + 1) (json :: jsons) ++ (lineAt level ++ ']' :: rest), ?_, ?_⟩
    · simp [prettyAt, itemsText]
    · rw [list, items_itemsText h]
      rfl

/-! ## Objects -/

inductive Takes (field : σ → Text → Except JsonFault (JsonReader σ)) :
    σ → List (Text × Json) → σ → Prop
  | nil {state : σ} : Takes field state [] state
  | cons {state next final : σ} {key : Text} {json : Json} {members : List (Text × Json)}
    {reader : JsonReader σ} (known : field state key = .ok reader) (read : Reads reader json next)
    (tail : Takes field next members final) : Takes field state ((key, json) :: members) final

variable {field : σ → Text → Except JsonFault (JsonReader σ)}

theorem Takes.append {state next final : σ} {front back : List (Text × Json)}
    (hFront : Takes field state front next) (hBack : Takes field next back final) :
    Takes field state (front ++ back) final := by
  induction hFront with
  | nil => exact hBack
  | cons known read _ ih => exact .cons known read (ih hBack)

def membersText (isFirst : Bool) (level : Nat) : List (Text × Json) → Text
  | [] => []
  | (key, json) :: members =>
    (if isFirst then [] else [',']) ++
      (lineAt level ++ (quoted key ++ ':' :: ' ' :: (prettyAt level json ++ prettyMembers level members)))

theorem membersText_false (level : Nat) (members : List (Text × Json)) :
    membersText false level members = prettyMembers level members := by
  cases members with
  | nil => rfl
  | cons member members => simp [membersText, prettyMembers]

theorem ends_prettyMembers (level outer : Nat) (members : List (Text × Json)) (s : Text) :
    Ends (prettyMembers level members ++ (lineAt outer ++ s)) := by
  cases members with
  | nil => exact ends_lineAt outer s
  | cons member members => exact ends_cons (by decide) _

theorem key_quoted (key s : Text) : nextKey?.key (quoted key ++ s) = .ok (some (key, s)) := by
  rw [quoted_append, nextKey?.key, string_flatMap_escapeChar]
  rfl

theorem nextKey?_membersText (isFirst : Bool) (level : Nat) (key s : Text) :
    nextKey? isFirst ((if isFirst then [] else [',']) ++ (lineAt level ++ (quoted key ++ s))) =
      .ok (some (key, s)) := by
  have hQuote : isSpace '"' = false := by decide
  have hOpen : ¬ '"' = '\x7D' := by decide
  have hKey := key_quoted key s
  obtain ⟨t, hText⟩ : ∃ t, quoted key ++ s = '"' :: t := ⟨_, rfl⟩
  rw [hText] at hKey ⊢
  have hSkip : skipSpace (lineAt level ++ '"' :: t) = '"' :: t := by
    rw [skipSpace_lineAt]
    exact skipSpace_cons hQuote t
  cases isFirst with
  | true =>
    rw [nextKey?]
    simp only [↓reduceIte, List.nil_append, hSkip, hOpen]
    exact hKey
  | false =>
    have hComma : isSpace ',' = false := by decide
    have hOther : ¬ ',' = '\x7D' := by decide
    rw [nextKey?]
    simp only [Bool.false_eq_true, ↓reduceIte, List.cons_append, List.nil_append,
      skipSpace_cons hComma, hOther, hSkip, hOpen]
    exact hKey

theorem members_of_closed {isFirst : Bool} {state : σ} (h : skipSpace s = '\x7D' :: rest) :
    members field isFirst state s = .ok (state, '\x7D' :: rest) := by
  have hNext : nextKey? isFirst s = .ok none := by
    rw [nextKey?, h]
    rfl
  rw [members, hNext]
  simp only [h]

theorem members_membersText {state final : σ} {pairs : List (Text × Json)}
    (h : Takes field state pairs final) (isFirst : Bool) (level outer : Nat) (rest : Text) :
    members field isFirst state (membersText isFirst level pairs ++ (lineAt outer ++ '\x7D' :: rest)) =
      .ok (final, '\x7D' :: rest) := by
  induction h generalizing isFirst with
  | nil =>
    refine members_of_closed ?_
    rw [membersText, List.nil_append, skipSpace_lineAt]
    rfl
  | @cons state next final key json pairs reader known read _ ih =>
    have hNext := nextKey?_membersText isFirst level key
      (':' :: ' ' :: (prettyAt level json ++
        (prettyMembers level pairs ++ (lineAt outer ++ '\x7D' :: rest))))
    have hColon (u : Text) : colon (':' :: u) = .ok u := rfl
    have hValue := read level (' ' :: (prettyAt level json ++
        (prettyMembers level pairs ++ (lineAt outer ++ '\x7D' :: rest)))) _
      (ends_prettyMembers level outer pairs ('\x7D' :: rest)) (skipSpace_prettyAt level json _)
    have hRest := ih false
    rw [membersText_false] at hRest
    simp only [membersText, List.append_assoc, List.cons_append]
    rw [members, hNext]
    simp only [known, hColon, hValue]
    rw [if_pos, hRest]
    simp only [List.length_append, lineAt, List.length_cons]
    omega

theorem object_prettyAt {start final : σ} {pairs : List (Text × Json)}
    (h : Takes field start pairs final) (finish : σ → Except JsonFault α) {a : α}
    (hFinish : finish final = .ok a) (level : Nat) (rest : Text) :
    ∃ t, prettyAt level (.object pairs) ++ rest = '\x7B' :: t ∧
      object field start finish t = .ok (a, rest) := by
  cases pairs with
  | nil =>
    cases h
    refine ⟨'\x7D' :: rest, rfl, ?_⟩
    have hMembers : members field true start ('\x7D' :: rest) = .ok (start, '\x7D' :: rest) :=
      members_of_closed rfl
    rw [object, hMembers]
    simp only [hFinish]
    rfl
  | cons pair pairs =>
    obtain ⟨key, json⟩ := pair
    refine ⟨membersText true (level + 1) ((key, json) :: pairs) ++ (lineAt level ++ '\x7D' :: rest),
      ?_, ?_⟩
    · simp [prettyAt, membersText]
    · rw [object, members_membersText h]
      simp only [hFinish]
      rfl

end JsonReader

end DesignParams
