import DesignParams.Proofs.Rewire.Mention
import DesignParams.Proofs.Stylesheet.Exchange

/-!
# The nodes of a reference

A reference in the place of a value is one block, whatever white space stands in front of it and
whatever trailer behind it. White space beyond ASCII is part of names for the tokenizer, so the
tokens around the reference are not those around the value.
-/
set_option autoImplicit false

namespace DesignParams

namespace Declaration

def isLoose (c : Char) : Bool :=
  isBlank c || c = '!' || isAsciiLetter c

def IsLooseKind (kind : TokenKind) : Prop :=
  kind = .blank ∨ kind = .other ∨ ∃ name, kind = .ident name

theorem loose_cases {c : Char} (h : isLoose c = true) :
    Token.isSpace c = true ∨
      (Token.isSpace c = false ∧ Token.isNameStart c = true ∧ Token.IsPlain c) ∨
      (Token.isSpace c = false ∧ Token.isNameChar c = false ∧ c ≠ '\\' ∧ c ≠ '(' ∧
        ∀ s, Token.Leads ⟨.other, [c]⟩ s) := by
  by_cases hName : isAsciiLetter c = true ∨ Token.isNonAscii c = true
  · right; left
    have hStart : Token.isNameStart c = true := by
      rcases hName with hName | hName <;> simp [Token.isNameStart, hName]
    refine ⟨?_, hStart, ?_, ?_⟩
    · cases hc : Token.isSpace c with
      | false => rfl
      | true =>
        simp only [Token.isSpace, Token.isNewline, Bool.or_eq_true, decide_eq_true_eq] at hc
        rcases hc with (rfl | rfl) | (rfl | rfl) | rfl <;> exact absurd hName (by decide)
    · simp [Token.isNameChar, hStart]
    · rintro rfl
      exact absurd hName (by decide)
  · simp only [not_or, Bool.not_eq_true] at hName
    simp only [isLoose, hName.1, Bool.or_false, Bool.or_eq_true, decide_eq_true_eq] at h
    have hOther : c = '!' ∨ c = '\x0B' ∨ Token.isSpace c = true := by
      rcases h with h | h
      · have hSmall : c.toNat < 128 := by simpa [Token.isNonAscii] using hName.2
        have hCode : c.toNat = 9 ∨ c.toNat = 10 ∨ c.toNat = 11 ∨ c.toNat = 12 ∨ c.toNat = 13 ∨
            c.toNat = 32 := by
          simp only [isBlank, Bool.or_eq_true, Bool.and_eq_true, decide_eq_true_eq] at h
          omega
        have hChar (d : Char) (hd : c.toNat = d.toNat) : c = d := Char.toNat_inj.mp hd
        rcases hCode with hd | hd | hd | hd | hd | hd
        · exact .inr (.inr (by rw [hChar '\t' hd]; rfl))
        · exact .inr (.inr (by rw [hChar '\n' hd]; rfl))
        · exact .inr (.inl (hChar '\x0B' hd))
        · exact .inr (.inr (by rw [hChar '\x0C' hd]; rfl))
        · exact .inr (.inr (by rw [hChar '\r' hd]; rfl))
        · exact .inr (.inr (by rw [hChar ' ' hd]; rfl))
      · exact .inl h
    rcases hOther with rfl | rfl | hSpace
    · exact .inr (.inr ⟨rfl, rfl, by decide, by decide, fun s => Token.leads_iff.mpr ⟨rfl, rfl⟩⟩)
    · exact .inr (.inr ⟨rfl, rfl, by decide, by decide, fun s => Token.leads_iff.mpr ⟨rfl, rfl⟩⟩)
    · exact .inl hSpace

structure IsRun (n : Text) : Prop where
  plain : ∀ c ∈ n, Token.IsPlain c
  start : ∀ c ∈ n.head?, Token.isNameStart c = true

theorem isSpace_eq_false_of_isRun {n rest : Text} (h : IsRun n) (hNonempty : n ≠ []) :
    (n ++ rest).head?.any Token.isSpace = false := by
  cases n with
  | nil => exact absurd rfl hNonempty
  | cons c n =>
    have hStart := h.start c rfl
    cases hc : Token.isSpace c with
    | false => exact hc
    | true =>
      simp only [Token.isSpace, Token.isNewline, Bool.or_eq_true, decide_eq_true_eq] at hc
      rcases hc with (rfl | rfl) | (rfl | rfl) | rfl <;> exact absurd hStart (by decide)

theorem isNameChar_eq_false_of_isSpace {c : Char} (h : Token.isSpace c = true) :
    Token.isNameChar c = false ∧ c ≠ '\\' ∧ c ≠ '(' := by
  simp only [Token.isSpace, Token.isNewline, Bool.or_eq_true, decide_eq_true_eq] at h
  rcases h with (rfl | rfl) | (rfl | rfl) | rfl <;> decide

/-- A loose text is cut into loose tokens and a last run of a name, which may go on behind it. -/
structure LooseCut (s : Text) (tokens : List Token) (n : Text) : Prop where
  split : s = Token.textOf tokens ++ n
  kinds : ∀ t ∈ tokens, IsLooseKind t.kind
  run : IsRun n
  last : n = [] → ∀ c ∈ s.getLast?, Token.isNameChar c = false
  cut : ∀ rest, (n ++ rest).head?.any Token.isSpace = false → Token.CutBefore tokens (n ++ rest)

theorem LooseCut.cons {s n : Text} {tokens : List Token} {t : Token} (h : LooseCut s tokens n)
    (hKind : IsLooseKind t.kind)
    (hLast : s = [] → ∀ c ∈ t.text.getLast?, Token.isNameChar c = false)
    (hLeads : ∀ rest, (s = [] → rest.head?.any Token.isSpace = false) → Token.Leads t (s ++ rest)) :
    LooseCut (t.text ++ s) (t :: tokens) n where
  split := by rw [h.split, Token.textOf_cons, List.append_assoc]
  kinds := List.forall_mem_cons.mpr ⟨hKind, h.kinds⟩
  run := h.run
  last := by
    intro hNil c hc
    by_cases hEmpty : s = []
    · rw [hEmpty, List.append_nil] at hc
      exact hLast hEmpty c hc
    · rw [List.getLast?_append_of_ne_nil t.text hEmpty] at hc
      exact h.last hNil c hc
  cut := by
    intro rest hRest
    rw [Token.cutBefore_cons, ← List.append_assoc, ← h.split]
    refine ⟨hLeads rest fun hEmpty => ?_, h.cut rest hRest⟩
    have hNil : n = [] := (List.append_eq_nil_iff.mp (h.split.symm.trans hEmpty)).2
    rwa [hNil, List.nil_append] at hRest

/-! Each of the lemmas below cuts off the first token: white space, a name, or one character. -/

section First

variable {c : Char} {u n : Text} {tokens : List Token}

theorem LooseCut.behind_blank (hSpace : Token.isSpace c = true)
    (h : LooseCut (u.dropWhile Token.isSpace) tokens n) :
    LooseCut (c :: u) (⟨.blank, c :: u.takeWhile Token.isSpace⟩ :: tokens) n := by
  have hText : c :: u = (c :: u.takeWhile Token.isSpace) ++ u.dropWhile Token.isSpace := by
    rw [List.cons_append, List.takeWhile_append_dropWhile]
  rw [hText]
  refine h.cons (t := ⟨.blank, c :: u.takeWhile Token.isSpace⟩) (.inl rfl) (fun _ d hd => ?_)
    fun rest hRest => ?_
  · have hd' : Token.isSpace d = true := by
      rcases List.mem_cons.mp (List.mem_of_getLast? hd) with rfl | hd
      · exact hSpace
      · exact List.mem_takeWhile_imp hd
    exact (isNameChar_eq_false_of_isSpace hd').1
  · refine Token.leads_blank (List.cons_ne_nil _ _) ?_ ?_
    · rw [List.all_cons, hSpace, List.all_takeWhile]
      rfl
    · have hHead := List.head?_dropWhile_not Token.isSpace u
      cases hDrop : u.dropWhile Token.isSpace with
      | nil => exact hRest hDrop
      | cons d v =>
        rw [hDrop] at hHead
        simpa using hHead

theorem isPlain_of_mem_takeWhile (hPlain : Token.IsPlain c) (hLoose : u.all isLoose = true) :
    ∀ d ∈ c :: u.takeWhile Token.isNameChar, Token.IsPlain d := by
  intro d hd
  rcases List.mem_cons.mp hd with rfl | hd
  · exact hPlain
  · refine ⟨List.mem_takeWhile_imp hd, ?_⟩
    rintro rfl
    have hMem : '\x00' ∈ u := (List.takeWhile_prefix Token.isNameChar).subset hd
    exact absurd (List.all_eq_true.mp hLoose _ hMem) (by decide)

theorem looseCut_name (hStart : Token.isNameStart c = true) (hPlain : Token.IsPlain c)
    (hLoose : u.all isLoose = true) (hDrop : u.dropWhile Token.isNameChar = []) :
    LooseCut (c :: u) [] (c :: u) := by
  have hPlains := isPlain_of_mem_takeWhile hPlain hLoose
  have hSplit := List.takeWhile_append_dropWhile (p := Token.isNameChar) (l := u)
  rw [hDrop, List.append_nil] at hSplit
  rw [hSplit] at hPlains
  refine ⟨rfl, by simp, ⟨hPlains, fun d hd => ?_⟩, by simp, fun _ _ => Token.cutBefore_nil _⟩
  obtain rfl : c = d := Option.some.inj hd
  exact hStart

theorem endsName_of_isLoose {d : Char} (h : isLoose d = true) (hName : Token.isNameChar d = false) :
    d ≠ '\\' ∧ d ≠ '(' := by
  rcases loose_cases h with hSpace | ⟨-, -, hPlain⟩ | ⟨-, -, hSlash, hCall, -⟩
  · exact (isNameChar_eq_false_of_isSpace hSpace).2
  · rw [hPlain.1] at hName
    cases hName
  · exact ⟨hSlash, hCall⟩

theorem LooseCut.behind_name {d : Char} {v : Text} (hStart : Token.isNameStart c = true)
    (hPlain : Token.IsPlain c) (hLoose : u.all isLoose = true)
    (hDrop : u.dropWhile Token.isNameChar = d :: v) (h : LooseCut (d :: v) tokens n) :
    LooseCut (c :: u) (⟨.ident (c :: u.takeWhile Token.isNameChar),
      c :: u.takeWhile Token.isNameChar⟩ :: tokens) n := by
  have hSplit := List.takeWhile_append_dropWhile (p := Token.isNameChar) (l := u)
  have hMem : d ∈ u := by
    rw [← hSplit, hDrop]
    exact List.mem_append_right _ List.mem_cons_self
  have hNot : Token.isNameChar d = false := by
    have hHead := List.head?_dropWhile_not Token.isNameChar u
    rw [hDrop] at hHead
    simpa using hHead
  obtain ⟨hSlash, hCall⟩ := endsName_of_isLoose (List.all_eq_true.mp hLoose d hMem) hNot
  have hText : c :: u = (c :: u.takeWhile Token.isNameChar) ++ d :: v := by
    rw [← hDrop, List.cons_append, hSplit]
  rw [hText]
  refine h.cons (t := ⟨.ident (c :: u.takeWhile Token.isNameChar),
    c :: u.takeWhile Token.isNameChar⟩) (.inr (.inr ⟨_, rfl⟩)) (fun hEmpty => by cases hEmpty)
    fun rest _ => Token.leads_ident hStart (isPlain_of_mem_takeWhile hPlain hLoose) ?_ ?_
  · intro e he
    obtain rfl : d = e := Option.some.inj he
    exact ⟨hNot, hSlash⟩
  · intro he
    exact hCall (Option.some.inj he)

theorem LooseCut.behind_other (hName : Token.isNameChar c = false)
    (hLeads : ∀ s, Token.Leads ⟨.other, [c]⟩ s) (h : LooseCut u tokens n) :
    LooseCut (c :: u) (⟨.other, [c]⟩ :: tokens) n := by
  refine h.cons (t := ⟨.other, [c]⟩) (.inr (.inl rfl)) (fun _ d hd => ?_) fun rest _ => hLeads _
  obtain rfl : c = d := Option.some.inj hd
  exact hName

end First

theorem exists_looseCut (s : Text) (h : s.all isLoose = true) :
    ∃ tokens n, LooseCut s tokens n := by
  induction hLength : s.length using Nat.strongRecOn generalizing s with
  | ind length ih =>
    subst hLength
    cases s with
    | nil =>
      exact ⟨[], [], rfl, by simp, ⟨by simp, by simp⟩, by simp, fun _ _ => Token.cutBefore_nil _⟩
    | cons c u =>
      rw [List.all_cons, Bool.and_eq_true] at h
      -- What stands behind the first token is cut already.
      have hBehind {v : Text} (hv : v <:+ u) : ∃ tokens n, LooseCut v tokens n := by
        refine ih v.length (Nat.lt_succ_of_le hv.length_le) v (List.all_eq_true.mpr fun d hd => ?_) rfl
        exact List.all_eq_true.mp h.2 d (hv.subset hd)
      rcases loose_cases h.1 with hSpace | ⟨-, hStart, hPlain⟩ | ⟨-, hName, -, -, hLeads⟩
      · obtain ⟨tokens, n, hCut⟩ := hBehind (List.dropWhile_suffix Token.isSpace)
        exact ⟨_, n, hCut.behind_blank hSpace⟩
      · have hSuffix : u.dropWhile Token.isNameChar <:+ u := List.dropWhile_suffix Token.isNameChar
        cases hDrop : u.dropWhile Token.isNameChar with
        | nil => exact ⟨[], c :: u, looseCut_name hStart hPlain h.2 hDrop⟩
        | cons d v =>
          obtain ⟨tokens, n, hCut⟩ := hBehind (hDrop ▸ hSuffix)
          exact ⟨_, n, hCut.behind_name hStart hPlain h.2 hDrop⟩
      · obtain ⟨tokens, n, hCut⟩ := hBehind List.suffix_rfl
        exact ⟨_, n, hCut.behind_other hName hLeads⟩

theorem isLoose_of_isBlank {s : Text} (h : s.all isBlank = true) : s.all isLoose = true :=
  List.all_eq_true.mpr fun c hc => by simp [isLoose, List.all_eq_true.mp h c hc]

theorem isAsciiLetter_of_foldCase {c : Char} (h : foldCase c ∈ "important".toList) :
    isAsciiLetter c = true := by
  have hWord : "important".toList.all (fun d => 'a' ≤ d ∧ d ≤ 'z' ∧ d ≠ 'k' ∧ d ≠ 's') = true := by
    decide
  obtain ⟨hLow, hHigh, hk, hs⟩ := of_decide_eq_true (List.all_eq_true.mp hWord _ h)
  rw [foldCase] at hLow hHigh hk hs
  by_cases hKelvin : c = '\u212A'
  · rw [if_pos hKelvin] at hk
    exact absurd rfl hk
  · rw [if_neg hKelvin] at hLow hHigh hs
    by_cases hLong : c = '\u017F'
    · rw [if_pos hLong] at hs
      exact absurd rfl hs
    · rw [if_neg hLong, asciiLower] at hLow hHigh
      split at hLow
      · rename_i hUpper
        simp [isAsciiLetter, hUpper]
      · rename_i hUpper
        rw [if_neg hUpper] at hHigh
        simp [isAsciiLetter, hLow, hHigh]

theorem IsTrailer.all_loose {tail : Text} (h : IsTrailer tail) : tail.all isLoose = true := by
  cases h with
  | blank hBlank => exact isLoose_of_isBlank hBlank
  | @priority before inner word after hBefore hInner hWord hAfter =>
    have hLetters : word.all isLoose = true := by
      refine List.all_eq_true.mpr fun c hc => ?_
      have hMem := List.mem_map_of_mem (f := foldCase) hc
      rw [hWord] at hMem
      simp [isLoose, isAsciiLetter_of_foldCase hMem]
    have hMark : isLoose '!' = true := by decide
    simp only [List.all_append, List.all_cons, isLoose_of_isBlank hBefore, isLoose_of_isBlank hInner,
      isLoose_of_isBlank hAfter, hLetters, hMark, Bool.and_self]

/-- Is there nothing, or a character that ends a value? -/
def IsEnd (rest : Text) : Prop :=
  ∀ c ∈ rest.head?, c = ';' ∨ c = '\x7D'

theorem IsEnd.not_isSpace {rest : Text} (h : IsEnd rest) : rest.head?.any Token.isSpace = false := by
  cases rest with
  | nil => rfl
  | cons c rest => rcases h c rfl with rfl | rfl <;> rfl

theorem IsEnd.endsName {rest : Text} (h : IsEnd rest) :
    Token.EndsName rest ∧ rest.head? ≠ some '(' := by
  constructor
  · intro c hc
    rcases h c hc with rfl | rfl <;> decide
  · intro hc
    rcases h '(' hc with h | h <;> exact absurd h (by decide)

theorem exists_looseTokens {s rest : Text} (h : s.all isLoose = true) (hRest : IsEnd rest) :
    ∃ tokens, Token.textOf tokens = s ∧ (∀ t ∈ tokens, IsLooseKind t.kind) ∧
      Token.CutBefore tokens rest := by
  obtain ⟨tokens, n, hCut⟩ := exists_looseCut s h
  cases n with
  | nil =>
    exact ⟨tokens, by rw [hCut.split, List.append_nil], hCut.kinds, hCut.cut rest hRest.not_isSpace⟩
  | cons c n =>
    have hName : Token.Leads ⟨.ident (c :: n), c :: n⟩ rest :=
      Token.leads_ident (hCut.run.start c rfl) hCut.run.plain hRest.endsName.1 hRest.endsName.2
    refine ⟨tokens ++ [⟨.ident (c :: n), c :: n⟩], by simp [hCut.split], ?_, ?_⟩
    · intro t ht
      rcases List.mem_append.mp ht with ht | ht
      · exact hCut.kinds t ht
      · rw [List.mem_singleton.mp ht]
        exact .inr (.inr ⟨_, rfl⟩)
    · rw [Token.cutBefore_append, Token.cutBefore_cons]
      refine ⟨?_, by simpa using hName, Token.cutBefore_nil _⟩
      have hBefore := hCut.cut rest (isSpace_eq_false_of_isRun hCut.run (List.cons_ne_nil c n))
      simpa using hBefore

/-! ## The nodes of a raw reference -/

theorem formed_loose {tokens : List Token} (h : ∀ t ∈ tokens, IsLooseKind t.kind) :
    Node.Formed false (some .curly) (tokens.map Node.leaf) := by
  refine Node.formed_leaves fun t ht b => ?_
  rcases h t ht with hKind | hKind | ⟨name, hKind⟩ <;> simp [hKind]

/-- The name of the function of a reference runs together with wide white space in front of it. -/
theorem exists_function {lead : Text} (hLead : lead.all isBlank = true) :
    ∃ tokens n, Token.textOf tokens ++ n = lead ++ ['v', 'a', 'r'] ∧
      (∀ t ∈ tokens, IsLooseKind t.kind) ∧
      (∀ rest, Token.CutBefore tokens (n ++ rest)) ∧
      ∀ rest, Token.Leads ⟨.opener .round, n ++ ['(']⟩ rest := by
  have hLoose : (lead ++ ['v', 'a', 'r']).all isLoose = true := by
    rw [List.all_append, isLoose_of_isBlank hLead]
    rfl
  have hLast : (lead ++ ['v', 'a', 'r']).getLast? = some 'r' := by simp
  obtain ⟨tokens, n, hCut⟩ := exists_looseCut _ hLoose
  have hNonempty : n ≠ [] := fun hNil => absurd (hCut.last hNil 'r' hLast) (by decide)
  have hOther : Text.eqIgnoringCase n "url".toList = false := by
    have hEnd : n.getLast? = some 'r' := by
      rw [← hLast, hCut.split, List.getLast?_append_of_ne_nil _ hNonempty]
    cases hEq : Text.eqIgnoringCase n "url".toList with
    | false => rfl
    | true =>
      have hSame := congrArg List.getLast? (eq_of_beq hEq)
      rw [Text.asciiLowered, List.getLast?_map, hEnd] at hSame
      exact absurd hSame (by decide)
  refine ⟨tokens, n, hCut.split.symm, hCut.kinds, fun rest => ?_, fun rest => ?_⟩
  · exact hCut.cut rest (isSpace_eq_false_of_isRun hCut.run hNonempty)
  · obtain ⟨c, n, rfl⟩ := List.exists_cons_of_ne_nil hNonempty
    exact Token.leads_function (hCut.run.start c rfl) hCut.run.plain hOther rest

theorem isPlain_of_isStemChar {c : Char} (h : isStemChar c = true) : Token.IsPlain c := by
  simp only [isStemChar, isSlugChar, Bool.or_eq_true, Bool.and_eq_true, decide_eq_true_eq] at h
  constructor
  · rcases h with (h | h) | h
    · simp [Token.isNameChar, Token.isNameStart, isAsciiLetter, h]
    · simp [Token.isNameChar, h]
    · simp [Token.isNameChar, h]
  · rintro rfl
    exact absurd h (by decide)

theorem isCustom_of_isGenerated {name : Text} (h : IsGenerated name) : Token.IsCustom name := by
  obtain ⟨stem, -, hStem, rfl⟩ := h
  refine ⟨'r', ['i', 'g', '-'] ++ stem, rfl, fun c hc => isPlain_of_isStemChar ?_⟩
  rcases List.mem_append.mp (show c ∈ ['r', 'i', 'g', '-'] ++ stem from hc) with hc | hc
  · have hLead : ['r', 'i', 'g', '-'].all isStemChar = true := by decide
    exact List.all_eq_true.mp hLead c hc
  · exact List.all_eq_true.mp hStem c hc

theorem cutBefore_argument {name : Text} (h : IsGenerated name) (rest : Text) :
    Token.CutBefore [⟨.ident name, name⟩, ⟨.closer .round, [')']⟩] rest := by
  rw [Token.cutBefore_cons, Token.cutBefore_cons]
  refine ⟨Token.leads_customProperty (isCustom_of_isGenerated h) ?_ (by simp), Token.leads_closer .round rest, Token.cutBefore_nil _⟩
  intro c hc
  obtain rfl : ')' = c := Option.some.inj hc
  decide

theorem isSemicolon_eq_false_of_loose {tokens : List Token} (h : ∀ t ∈ tokens, IsLooseKind t.kind) :
    ∀ node ∈ tokens.map Node.leaf, isSemicolon node = false := by
  intro node hNode
  obtain ⟨t, ht, rfl⟩ := List.mem_map.mp hNode
  rcases h t ht with hKind | hKind | ⟨_, hKind⟩ <;> simp [isSemicolon, hKind]

/-- Loose tokens whose text begins with no white space of the tokenizer do not begin with a blank
one. -/
theorem isIgnored_eq_false_of_cutBefore {t : Token} {tokens : List Token} {n : Text}
    (hKind : IsLooseKind t.kind) (hCut : Token.CutBefore (t :: tokens) n)
    (hHead : (Token.textOf (t :: tokens)).head?.any Token.isSpace = false) :
    isIgnored (.leaf t) = false := by
  have hLeads := (Token.cutBefore_cons.mp hCut).1
  obtain ⟨c, u, hc⟩ := List.exists_cons_of_ne_nil hLeads.text_ne_nil
  rcases hKind with hBlank | hOther | ⟨_, hIdent⟩
  · have hSpace : Token.isSpace c = true := by
      have hAll := (hLeads.blank hBlank).1
      rw [hc, List.all_cons, Bool.and_eq_true] at hAll
      exact hAll.1
    have hNot : Token.isSpace c = false := by
      rw [Token.textOf_cons, hc] at hHead
      exact hHead
    rw [hNot] at hSpace
    cases hSpace
  · simp [isIgnored, hOther]
  · simp [isIgnored, hIdent]

def referenceNodes (before : List Token) (n name : Text) (after : List Token) : List Node :=
  before.map Node.leaf ++ .block .round ⟨.opener .round, n ++ ['(']⟩
    [.leaf ⟨.ident name, name⟩] (some ⟨.closer .round, [')']⟩) :: after.map Node.leaf

section ReferenceNodes

variable {before after : List Token} {n name : Text}

theorem isRaw_referenceNodes (hBefore : ∀ t ∈ before, IsLooseKind t.kind)
    (hAfter : ∀ t ∈ after, IsLooseKind t.kind)
    (hFirst : ∀ t ∈ before.head?, isIgnored (.leaf t) = false) :
    IsRaw (referenceNodes before n name after) := by
  constructor
  · cases before with
    | nil => exact ⟨_, _, rfl, rfl⟩
    | cons t before => exact ⟨.leaf t, _, rfl, hFirst t rfl⟩
  · intro node hNode
    rcases List.mem_append.mp hNode with hNode | hNode
    · exact isSemicolon_eq_false_of_loose hBefore node hNode
    · rcases List.mem_cons.mp hNode with rfl | hNode
      · rfl
      · exact isSemicolon_eq_false_of_loose hAfter node hNode

theorem formed_referenceNodes (hBefore : ∀ t ∈ before, IsLooseKind t.kind)
    (hAfter : ∀ t ∈ after, IsLooseKind t.kind) :
    Node.Formed false (some .curly) (referenceNodes before n name after) := by
  have hName : Node.Formed false (some .round) [.leaf ⟨.ident name, name⟩] :=
    .leaf (by simp) (by simp) .nil
  exact (formed_loose hBefore).append (.block rfl rfl hName (formed_loose hAfter))

theorem tokensOfAll_referenceNodes :
    Node.tokensOfAll (referenceNodes before n name after) =
      before ++ (⟨.opener .round, n ++ ['(']⟩ ::
        ([⟨.ident name, name⟩, ⟨.closer .round, [')']⟩] ++ after)) := by
  rw [referenceNodes, Node.tokensOfAll_append, Node.tokensOfAll_leaves, Node.tokensOfAll,
    Node.tokensOfAll_leaves]
  simp [Node.tokens, Node.tokensOfAll]

end ReferenceNodes

/-- A reference between white space and a trailer can be read as the nodes of a raw value. -/
theorem exists_rawReference {lead name tail rest : Text} (hLead : lead.all isBlank = true)
    (hHead : lead.head?.any Token.isSpace = false) (hName : IsGenerated name) (hTail : IsTrailer tail)
    (hRest : IsEnd rest) :
    ∃ raw, IsRaw raw ∧ Node.Formed false (some .curly) raw ∧
      Node.textOfAll raw = lead ++ (Rewire.referenceTo name ++ tail) ∧
      Token.CutBefore (Node.tokensOfAll raw) rest := by
  obtain ⟨before, n, hSplit, hKinds, hCut, hFunction⟩ := exists_function hLead
  obtain ⟨after, hAfter, hAfterKinds, hAfterCut⟩ := exists_looseTokens hTail.all_loose hRest
  have hStart : (Token.textOf before ++ n).head?.any Token.isSpace = false := by
    rw [hSplit]
    cases lead with
    | nil => rfl
    | cons c lead => exact hHead
  refine ⟨referenceNodes before n name after,
    isRaw_referenceNodes hKinds hAfterKinds fun t ht => ?_,
    formed_referenceNodes hKinds hAfterKinds, ?_, ?_⟩
  · obtain ⟨tokens, rfl⟩ := List.head?_eq_some_iff.mp ht
    refine isIgnored_eq_false_of_cutBefore (hKinds t List.mem_cons_self) (hCut []) ?_
    have hText := (Token.cutBefore_cons.mp (hCut [])).1.text_ne_nil
    obtain ⟨c, u, hc⟩ := List.exists_cons_of_ne_nil hText
    rw [Token.textOf_cons, hc] at hStart ⊢
    exact hStart
  · have hText : Token.textOf before ++ (n ++ '(' :: (name ++ ')' :: tail)) =
        lead ++ (Rewire.referenceTo name ++ tail) := by
      rw [← List.append_assoc, hSplit, Rewire.referenceTo_eq]
      simp
    rw [Node.textOfAll_eq_textOf, tokensOfAll_referenceNodes, Token.textOf_append, Token.textOf_cons,
      Token.textOf_append, hAfter, ← hText]
    simp [Token.textOf_cons]
  · rw [tokensOfAll_referenceNodes, Token.cutBefore_append, Token.cutBefore_cons,
      Token.cutBefore_append]
    refine ⟨?_, hFunction _, cutBefore_argument hName _, hAfterCut⟩
    rw [Token.textOf_cons, List.append_assoc, List.append_assoc]
    exact hCut _

end Declaration

end DesignParams
