import DesignParams.Proofs.Theme.Blocks

/-!
# Heads of sections

The search for a section stops where a head of it stands: its key, a colon and an opening brace,
with white space around the colon and at most one quote behind the key.
-/
set_option autoImplicit false

namespace DesignParams

def blankCodes : List Nat :=
  [0x9, 0xA, 0xB, 0xC, 0xD, 0x20, 0x85, 0xA0, 0x1680, 0x2000, 0x2001, 0x2002, 0x2003, 0x2004,
    0x2005, 0x2006, 0x2007, 0x2008, 0x2009, 0x200A, 0x2028, 0x2029, 0x202F, 0x205F, 0x3000]

theorem toNat_mem_blankCodes {c : Char} (h : isBlank c = true) : c.toNat ∈ blankCodes := by
  simp only [isBlank, Bool.or_eq_true, Bool.and_eq_true, decide_eq_true_eq] at h
  simp only [blankCodes, List.mem_cons, List.not_mem_nil, or_false]
  omega

theorem isWordChar_of_isBlank {c : Char} (h : isBlank c = true) : isWordChar c = false := by
  have hAll : ∀ n ∈ blankCodes, isWordChar (Char.ofNat n) = false := by decide +kernel
  rw [← Char.ofNat_toNat c]
  exact hAll c.toNat (toNat_mem_blankCodes h)

namespace Section

def IsHead (s : Section) (head : Text) : Prop :=
  ∃ quote ∈ ([[], ['\''], ['"']] : List Text), ∃ lead gap : Text,
    lead.all isBlank = true ∧ gap.all isBlank = true ∧
      head = s.key ++ (quote ++ (lead ++ ':' :: (gap ++ ['\x7B'])))

variable {s : Section} {before : Option Char} {text body : Text}

theorem objectBody?_eq_some_iff :
    objectBody? text = some body ↔ ∃ lead gap : Text, lead.all isBlank = true ∧
      gap.all isBlank = true ∧ text = lead ++ ':' :: (gap ++ '\x7B' :: body) := by
  rw [objectBody?]
  constructor
  · intro h
    split at h
    · rename_i tail hColon
      split at h
      · rename_i found hBrace
        obtain rfl := Option.some.inj h
        refine ⟨Text.leadingBlank text, Text.leadingBlank tail, Text.all_leadingBlank text,
          Text.all_leadingBlank tail, ?_⟩
        rw [← hBrace, Text.leadingBlank_append_trimStart, ← hColon,
          Text.leadingBlank_append_trimStart]
      · cases h
    · cases h
  · rintro ⟨lead, gap, hLead, hGap, rfl⟩
    have hColon : (':' :: (gap ++ '\x7B' :: body)).head?.any isBlank = false := by
      rw [List.head?_cons]
      decide
    have hBrace : ('\x7B' :: body).head?.any isBlank = false := by
      rw [List.head?_cons]
      decide
    rw [Text.trimStart_append hLead hColon]
    simp only [Text.trimStart_append hGap hBrace]

theorem exists_dropQuote (text : Text) :
    ∃ quote ∈ ([[], ['\''], ['"']] : List Text), text = quote ++ dropQuote text := by
  cases text with
  | nil => exact ⟨[], by simp, rfl⟩
  | cons c text =>
    rw [dropQuote]
    split
    · rename_i hQuote
      rcases hQuote with rfl | rfl
      · exact ⟨['\''], by simp, rfl⟩
      · exact ⟨['"'], by simp, rfl⟩
    · exact ⟨[], by simp, rfl⟩

theorem of_quote_append {quote lead : Text} (hQuote : quote ∈ ([[], ['\''], ['"']] : List Text))
    (hLead : lead.all isBlank = true) (rest : Text) :
    (quote ++ (lead ++ ':' :: rest)).head?.any isWordChar = false ∧
      dropQuote (quote ++ (lead ++ ':' :: rest)) = lead ++ ':' :: rest := by
  have hQuotes : isWordChar '\'' = false ∧ isWordChar '"' = false ∧ isWordChar ':' = false := by
    decide
  simp only [List.mem_cons, List.not_mem_nil, or_false] at hQuote
  rcases hQuote with rfl | rfl | rfl
  · rw [List.nil_append]
    cases lead with
    | nil => exact ⟨hQuotes.2.2, rfl⟩
    | cons c lead =>
      rw [List.all_cons, Bool.and_eq_true] at hLead
      refine ⟨isWordChar_of_isBlank hLead.1, ?_⟩
      have hMark : ¬ (c = '\'' ∨ c = '"') := by
        rintro (rfl | rfl)
        · exact absurd hLead.1 (by decide)
        · exact absurd hLead.1 (by decide)
      exact if_neg hMark
  · exact ⟨hQuotes.1, rfl⟩
  · exact ⟨hQuotes.2.1, rfl⟩

/-- A section opens exactly behind its heads, at the start of a word. -/
theorem opening?_eq_some_iff :
    opening? s.key before text = some body ↔
      before.any isWordChar = false ∧ ∃ head, s.IsHead head ∧ text = head ++ body := by
  rw [opening?]
  constructor
  · intro h
    split at h
    · cases h
    · rename_i hBefore
      split at h
      · cases h
      · rename_i rest hRest
        split at h
        · cases h
        · obtain ⟨lead, gap, hLead, hGap, hBody⟩ := objectBody?_eq_some_iff.mp h
          obtain ⟨quote, hQuote, hSplit⟩ := exists_dropQuote rest
          refine ⟨by simpa using hBefore, _, ⟨quote, hQuote, lead, gap, hLead, hGap, rfl⟩, ?_⟩
          rw [Text.append_of_after? hRest, hSplit, hBody]
          simp only [List.append_assoc, List.cons_append, List.nil_append]
  · rintro ⟨hBefore, head, ⟨quote, hQuote, lead, gap, hLead, hGap, rfl⟩, rfl⟩
    obtain ⟨hWord, hDrop⟩ := of_quote_append hQuote hLead (gap ++ '\x7B' :: body)
    have hText : s.key ++ (quote ++ (lead ++ ':' :: (gap ++ ['\x7B']))) ++ body =
        s.key ++ (quote ++ (lead ++ ':' :: (gap ++ '\x7B' :: body))) := by
      simp only [List.append_assoc, List.cons_append, List.nil_append]
    rw [hBefore, hText, Text.after?_append]
    simp only [Bool.false_eq_true, if_false, hWord, hDrop]
    exact objectBody?_eq_some_iff.mpr ⟨lead, gap, hLead, hGap, rfl⟩

instance : DecidablePred s.IsHead := fun head =>
  decidable_of_iff (opening? s.key none head = some []) (by
    rw [opening?_eq_some_iff]
    simp)

theorem IsHead.exists_append {head : Text} (h : s.IsHead head) :
    ∃ lead, head = lead ++ ['\x7B'] := by
  obtain ⟨quote, -, lead, gap, -, -, rfl⟩ := h
  exact ⟨s.key ++ (quote ++ (lead ++ ':' :: gap)), by simp⟩

/-! ## One step of the search -/

theorem blocksFrom_of_none {c : Char} (h : opening? s.key before (c :: text) = none) :
    blocksFrom s.key before (c :: text) = blocksFrom s.key (some c) text := by
  rw [blocksFrom]
  split
  · rfl
  · rename_i hOpen
    rw [h] at hOpen
    cases hOpen

theorem blocksFrom_of_unclosed (h : opening? s.key before text = some body)
    (hBlock : Theme.bracedBlock? ('\x7B' :: body) = none) :
    blocksFrom s.key before text = blocksFrom s.key (some '\x7B') body := by
  cases text with
  | nil => rw [opening?_eq_none (mt List.prefix_nil.mp s.key_ne_nil)] at h; cases h
  | cons c text =>
    rw [blocksFrom]
    split
    · rename_i hOpen
      rw [h] at hOpen
      cases hOpen
    · rename_i hOpen
      obtain rfl := Option.some.inj (h.symm.trans hOpen)
      split
      · rfl
      · rename_i hSome
        rw [hBlock] at hSome
        cases hSome

theorem blocksFrom_of_block {inner rest : Text} (h : opening? s.key before text = some body)
    (hBlock : Theme.bracedBlock? ('\x7B' :: body) = some (inner, rest)) :
    blocksFrom s.key before text =
      if Text.isAllBlank inner then blocksFrom s.key (some '\x7B') body
      else inner :: blocksFrom s.key (some '\x7D') rest := by
  cases text with
  | nil => rw [opening?_eq_none (mt List.prefix_nil.mp s.key_ne_nil)] at h; cases h
  | cons c text =>
    rw [blocksFrom]
    split
    · rename_i hOpen
      rw [h] at hOpen
      cases hOpen
    · rename_i hOpen
      obtain rfl := Option.some.inj (h.symm.trans hOpen)
      split
      · rename_i hNone
        rw [hBlock] at hNone
        cases hNone
      · rename_i hSome
        obtain ⟨rfl, rfl⟩ := Prod.mk.inj (Option.some.inj (hBlock.symm.trans hSome))
        rfl

end Section

end DesignParams
