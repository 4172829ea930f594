import DesignParams.Proofs.Stylesheet.Cut

/-!
# Tokens by kind

What a token's kind says about its text, and which texts lead as tokens of a kind whatever follows:
punctuation, white space up to its last character, comments that are closed, generated names.
-/
set_option autoImplicit false

namespace DesignParams

def Bracket.opening : Bracket → Char
  | .round => '('
  | .square => '['
  | .curly => '\x7B'

def Bracket.closing : Bracket → Char
  | .round => ')'
  | .square => ']'
  | .curly => '\x7D'

namespace Token

/-- The kinds of names, numbers, strings and all the rest that has no structure of its own; a name
may open a function. -/
inductive IsWord : TokenKind → Prop
  | other : IsWord .other
  | marker : IsWord .marker
  | ident (name : Text) : IsWord (.ident name)
  | atKeyword (name : Text) : IsWord (.atKeyword name)
  | function : IsWord (.opener .round)

theorem isWord_ite {p : Prop} [Decidable p] {a b : TokenKind × Nat} (ha : IsWord a.1)
    (hb : IsWord b.1) : IsWord (if p then a else b).1 := by
  split
  · exact ha
  · exact hb

theorem isWord_named (s : Text) : IsWord (named s).1 := by
  rw [named_eq]
  split
  · split
    · split
      · exact .other
      · exact .function
    · exact .function
  · exact .ident _

theorem first_cases (c : Char) (s : Text) :
    (isSpace c = true ∧ first c s = (.blank, (s.takeWhile isSpace).length + 1)) ∨
    (∃ rest, c = '/' ∧ s = '*' :: rest ∧ first c s = (.comment, commentLength rest + 2)) ∨
    (c = ':' ∧ first c s = (.colon, 1)) ∨
    (c = ';' ∧ first c s = (.semicolon, 1)) ∨
    (∃ b : Bracket, c = b.opening ∧ first c s = (.opener b, 1)) ∨
    (∃ b : Bracket, c = b.closing ∧ first c s = (.closer b, 1)) ∨
    IsWord (first c s).1 := by
  by_cases hSpace : isSpace c = true
  · left
    simp only [first, hSpace, ↓reduceIte, and_self]
  by_cases hPunctuation : c = ':' ∨ c = ';'
  · rcases hPunctuation with rfl | rfl
    · right; right; left
      exact ⟨rfl, rfl⟩
    · right; right; right; left
      exact ⟨rfl, rfl⟩
  by_cases hBracket : c = '(' ∨ c = ')' ∨ c = '[' ∨ c = ']' ∨ c = '\x7B' ∨ c = '\x7D'
  · rcases hBracket with rfl | rfl | rfl | rfl | rfl | rfl
    · exact .inr (.inr (.inr (.inr (.inl ⟨.round, rfl, rfl⟩))))
    · exact .inr (.inr (.inr (.inr (.inr (.inl ⟨.round, rfl, rfl⟩)))))
    · exact .inr (.inr (.inr (.inr (.inl ⟨.square, rfl, rfl⟩))))
    · exact .inr (.inr (.inr (.inr (.inr (.inl ⟨.square, rfl, rfl⟩)))))
    · exact .inr (.inr (.inr (.inr (.inl ⟨.curly, rfl, rfl⟩))))
    · exact .inr (.inr (.inr (.inr (.inr (.inl ⟨.curly, rfl, rfl⟩)))))
  by_cases hSlash : c = '/'
  · subst hSlash
    cases s with
    | nil => exact .inr (.inr (.inr (.inr (.inr (.inr .other)))))
    | cons d s =>
      by_cases hStar : d = '*'
      · subst hStar
        right; left
        exact ⟨s, rfl, rfl, rfl⟩
      · right; right; right; right; right; right
        simp [first, isSpace, isNewline, startsNumber, startsWithDigit, isAsciiDigit, hStar, IsWord.other]
  simp only [not_or] at hPunctuation hBracket
  right; right; right; right; right; right
  simp only [first, hSpace, hBracket, hPunctuation, hSlash, Bool.false_eq_true, ↓reduceIte]
  refine isWord_ite .other (isWord_ite (isWord_ite .other .other) ?_)
  refine isWord_ite (isWord_ite .other .other) (isWord_ite ?_ (isWord_ite .other ?_))
  · exact isWord_ite .other (isWord_ite .marker (isWord_ite (isWord_named _) .other))
  · refine isWord_ite (isWord_ite .marker .other) (isWord_ite ?_ ?_)
    · exact isWord_ite (.atKeyword _) .other
    · exact isWord_ite (isWord_named _) .other

/-! ## Texts of a kind -/

variable {t : Token} {r : Text}

theorem Leads.exists_first (h : Leads t r) :
    ∃ c u, t.text = c :: u ∧ (first c (u ++ r)).1 = t.kind ∧
      (u ++ r).take ((first c (u ++ r)).2 - 1) = u := by
  have hText := h.text_ne_nil
  obtain ⟨kind, text⟩ := t
  cases text with
  | nil => exact absurd rfl hText
  | cons c u => exact ⟨c, u, rfl, leads_iff.mp h⟩

theorem Leads.blank (h : Leads t r) (hKind : t.kind = .blank) :
    t.text.all isSpace = true ∧ r.head?.any isSpace = false := by
  obtain ⟨c, u, hText, hFirst, hTake⟩ := h.exists_first
  rw [hKind] at hFirst
  obtain ⟨hSpace, hEq⟩ : isSpace c = true ∧
      first c (u ++ r) = (.blank, ((u ++ r).takeWhile isSpace).length + 1) := by
    rcases first_cases c (u ++ r) with h | ⟨_, _, _, h⟩ | ⟨_, h⟩ | ⟨_, h⟩ | ⟨_, _, h⟩ | ⟨_, _, h⟩ | h
    · exact h
    all_goals first | (rw [h] at hFirst; cases hFirst) | (rw [hFirst] at h; cases h)
  rw [hEq, Nat.add_sub_cancel, ← List.prefix_iff_eq_take.mp (List.takeWhile_prefix isSpace)] at hTake
  have hAll : u.all isSpace = true := by
    rw [← hTake]
    exact List.all_takeWhile
  refine ⟨by rw [hText, List.all_cons, hSpace, hAll, Bool.and_self], ?_⟩
  rw [List.takeWhile_append_of_pos (List.all_eq_true.mp hAll)] at hTake
  have hNone : r.takeWhile isSpace = [] := List.append_right_eq_self.mp hTake
  cases r with
  | nil => rfl
  | cons d r =>
    rw [List.takeWhile_cons] at hNone
    simpa using hNone

theorem leads_blank {w : Text} (hNonempty : w ≠ []) (hAll : w.all isSpace = true)
    (hRest : r.head?.any isSpace = false) : Leads ⟨.blank, w⟩ r := by
  cases w with
  | nil => exact absurd rfl hNonempty
  | cons c u =>
    rw [List.all_cons, Bool.and_eq_true] at hAll
    have hNone : r.takeWhile isSpace = [] := by
      cases r with
      | nil => rfl
      | cons d r =>
        rw [List.takeWhile_cons, if_neg]
        simpa using hRest
    rw [leads_iff]
    simp only [first, hAll.1, ↓reduceIte, true_and]
    rw [List.takeWhile_append_of_pos (List.all_eq_true.mp hAll.2), hNone, List.append_nil,
      Nat.add_sub_cancel, List.take_left]

/-- A comment that ends before its text does is closed, so that nothing behind it matters. -/
theorem commentLength_of_closed {u r : Text} (h : commentLength (u ++ r) = u.length) (hr : r ≠ []) :
    u.getLast? = some '/' ∧ ∀ r', commentLength (u ++ r') = u.length := by
  induction u with
  | nil =>
    cases r with
    | nil => exact absurd rfl hr
    | cons c r =>
      rw [List.nil_append, commentLength_cons, List.length_nil] at h
      split at h <;> omega
  | cons c u ih =>
    rw [List.cons_append, commentLength_cons, List.length_cons] at h
    split at h
    · rename_i hEnd
      obtain ⟨d, rfl⟩ : ∃ d, u = [d] := List.length_eq_one_iff.mp (by omega)
      obtain ⟨rfl, hSlash⟩ := hEnd
      obtain rfl : d = '/' := of_decide_eq_true hSlash
      exact ⟨rfl, fun _ => rfl⟩
    · rename_i hEnd
      obtain ⟨hLast, hRest⟩ := ih (by omega)
      have hNonempty : u ≠ [] := by
        rintro rfl
        cases hLast
      refine ⟨by rw [List.getLast?_cons_of_ne_nil hNonempty, hLast], fun r' => ?_⟩
      rw [List.cons_append, commentLength_cons, hRest r', List.length_cons, if_neg]
      rintro ⟨hc, hSlash⟩
      apply hEnd
      refine ⟨hc, ?_⟩
      cases u with
      | nil => exact absurd rfl hNonempty
      | cons d u => exact hSlash

theorem Leads.comment (h : Leads t r) (hKind : t.kind = .comment) (hr : r ≠ []) :
    t.text.getLast? = some '/' ∧ ∀ r', Leads t r' := by
  obtain ⟨c, u, hText, hFirst, hTake⟩ := h.exists_first
  rw [hKind] at hFirst
  obtain ⟨rest, rfl, hStar, hEq⟩ : ∃ rest, c = '/' ∧ u ++ r = '*' :: rest ∧
      first c (u ++ r) = (.comment, commentLength rest + 2) := by
    rcases first_cases c (u ++ r) with ⟨_, h⟩ | h | ⟨_, h⟩ | ⟨_, h⟩ | ⟨_, _, h⟩ | ⟨_, _, h⟩ | h
    · rw [h] at hFirst
      cases hFirst
    · exact h
    all_goals first | (rw [h] at hFirst; cases hFirst) | (rw [hFirst] at h; cases h)
  rw [hEq] at hTake
  cases u with
  | nil =>
    rw [List.nil_append] at hStar hTake
    rw [hStar] at hTake
    cases hTake
  | cons d u =>
    rw [List.cons_append, List.cons.injEq] at hStar
    obtain ⟨rfl, rfl⟩ := hStar
    have hLength := congrArg List.length hTake
    have hPositive := List.length_pos_iff.mpr hr
    simp only [List.cons_append, List.length_take, List.length_cons, List.length_append] at hLength
    obtain ⟨hLast, hAny⟩ := commentLength_of_closed (by omega : commentLength (u ++ r) = u.length) hr
    have hNonempty : u ≠ [] := by
      rintro rfl
      cases hLast
    refine ⟨by rw [hText, List.getLast?_cons_cons, List.getLast?_cons_of_ne_nil hNonempty, hLast], ?_⟩
    intro r'
    obtain ⟨kind, text⟩ := t
    subst hText hKind
    rw [leads_iff]
    rw [List.cons_append, first_comment, hAny r']
    exact ⟨rfl, by simp⟩

/-! ## Punctuation -/

theorem leads_colon (r : Text) : Leads ⟨.colon, [':']⟩ r := leads_iff.mpr ⟨rfl, rfl⟩

theorem leads_semicolon (r : Text) : Leads ⟨.semicolon, [';']⟩ r := leads_iff.mpr ⟨rfl, rfl⟩

theorem leads_opener (b : Bracket) (r : Text) : Leads ⟨.opener b, [b.opening]⟩ r := by
  cases b <;> exact leads_iff.mpr ⟨rfl, rfl⟩

theorem leads_closer (b : Bracket) (r : Text) : Leads ⟨.closer b, [b.closing]⟩ r := by
  cases b <;> exact leads_iff.mpr ⟨rfl, rfl⟩

def IsPunctuated (t : Token) : Prop :=
  match t.kind with
  | .colon => t.text = [':']
  | .semicolon => t.text = [';']
  | .closer b => t.text = [b.closing]
  | .opener .curly => t.text = ['\x7B']
  | _ => True

theorem Leads.isPunctuated (h : Leads t r) : IsPunctuated t := by
  obtain ⟨c, u, hText, hFirst, hTake⟩ := h.exists_first
  have hSingle {kind : TokenKind} (hEq : first c (u ++ r) = (kind, 1)) : t = ⟨kind, [c]⟩ := by
    rw [hEq] at hFirst hTake
    obtain ⟨kind', text⟩ := t
    subst hText hFirst
    rw [← hTake]
    simp
  rcases first_cases c (u ++ r) with ⟨_, h⟩ | ⟨_, _, _, h⟩ | ⟨rfl, h⟩ | ⟨rfl, h⟩ | ⟨b, rfl, h⟩ | ⟨b, rfl, h⟩ | h
  · rw [h] at hFirst
    rw [IsPunctuated, ← hFirst]
    trivial
  · rw [h] at hFirst
    rw [IsPunctuated, ← hFirst]
    trivial
  · rw [hSingle h]
    rfl
  · rw [hSingle h]
    rfl
  · rw [hSingle h]
    cases b <;> first | rfl | trivial
  · rw [hSingle h]
    rfl
  · rw [hFirst] at h
    rw [IsPunctuated]
    generalize t.kind = kind at h
    cases h <;> trivial

/-! ## Names -/

def IsPlain (c : Char) : Prop :=
  isNameChar c = true ∧ c ≠ '\x00'

def EndsName (r : Text) : Prop :=
  ∀ c ∈ r.head?, isNameChar c = false ∧ c ≠ '\\'

theorem name_append {n r : Text} (hName : ∀ c ∈ n, IsPlain c) (hRest : EndsName r) :
    name (n ++ r) = (n, n.length) := by
  induction n with
  | nil =>
    cases r with
    | nil => rw [List.nil_append, name, List.length_nil]
    | cons c r =>
      obtain ⟨hc, hSlash⟩ := hRest c rfl
      exact name_eq_nil hc (fun h => absurd h hSlash)
  | cons c n ih =>
    obtain ⟨hc, hNul⟩ := hName c List.mem_cons_self
    rw [List.cons_append, name_cons hc, ih (fun d hd => hName d (List.mem_cons_of_mem c hd)),
      if_neg hNul, List.length_cons]

theorem drop_length_append (n r : Text) : (n ++ r).drop n.length = r := List.drop_left

theorem named_ident {n r : Text} (hName : ∀ c ∈ n, IsPlain c) (hRest : EndsName r)
    (hCall : r.head? ≠ some '(') : named (n ++ r) = (.ident n, n.length) := by
  rw [named_eq, name_append hName hRest]
  simp only
  rw [drop_length_append, if_neg]
  cases r with
  | nil => simp
  | cons d r => simpa using hCall

theorem named_function {n : Text} (hName : ∀ c ∈ n, IsPlain c)
    (hOther : Text.eqIgnoringCase n "url".toList = false) (r : Text) :
    named (n ++ '(' :: r) = (.opener .round, n.length + 1) := by
  have hRest : EndsName ('(' :: r) := by
    intro c hc
    obtain rfl : '(' = c := Option.some.inj hc
    decide
  rw [named_eq, name_append hName hRest]
  simp only
  rw [drop_length_append, if_pos (by simp), hOther]
  rfl

theorem first_of_isNameStart {c : Char} (h : isNameStart c = true) (s : Text) :
    first c s = named (c :: s) := by
  have hOther {d : Char} (hd : isNameStart d = false) : c ≠ d := by
    rintro rfl
    rw [h] at hd
    cases hd
  have hSpace : isSpace c = false := by
    cases hc : isSpace c with
    | false => rfl
    | true =>
      simp only [isSpace, isNewline, Bool.or_eq_true, decide_eq_true_eq] at hc
      rcases hc with (rfl | rfl) | (rfl | rfl) | rfl <;> exact absurd h (by decide)
  have hDigit : isAsciiDigit c = false := by
    cases hc : isAsciiDigit c with
    | false => rfl
    | true =>
      simp only [isAsciiDigit, Bool.and_eq_true, decide_eq_true_eq] at hc
      have hLow : 48 ≤ c.toNat := hc.1
      have hHigh : c.toNat ≤ 57 := hc.2
      simp only [isNameStart, isAsciiLetter, isNonAscii, Bool.or_eq_true, Bool.and_eq_true,
        decide_eq_true_eq] at h
      rcases h with (((h | h) | rfl) | rfl) | h
      · have hLetter : 97 ≤ c.toNat := h.1
        omega
      · have hLetter : 65 ≤ c.toNat := h.1
        omega
      · exact absurd hHigh (by decide)
      · exact absurd hLow (by decide)
      · omega
  have hNumber : startsNumber (c :: s) = false := by
    rw [startsNumber_cons]
    simp [hOther (show isNameStart '.' = false by decide), hDigit]
  have hStarts : startsName (c :: s) = true := by
    rw [startsName_cons, if_neg (hOther (show isNameStart '-' = false by decide)),
      if_neg (hOther (show isNameStart '\\' = false by decide)), h]
  have hMarks : ∀ d ∈ ['"', '\'', '#', '(', ')', '[', ']', '\x7B', '\x7D', ':', ';', '+', '-', '/', '<', '@'],
      c ≠ d := by
    intro d hd
    have hAll : ['"', '\'', '#', '(', ')', '[', ']', '\x7B', '\x7D', ':', ';', '+', '-', '/', '<',
        '@'].all (isNameStart · = false) = true := by decide
    exact hOther (of_decide_eq_true (List.all_eq_true.mp hAll d hd))
  simp only [List.mem_cons, List.not_mem_nil, or_false, forall_eq_or_imp, forall_eq] at hMarks
  simp only [first, hSpace, hMarks, hNumber, hStarts, Bool.false_eq_true, or_self, ↓reduceIte]

theorem leads_ident {c : Char} {n r : Text} (hStart : isNameStart c = true)
    (hName : ∀ d ∈ c :: n, IsPlain d) (hRest : EndsName r) (hCall : r.head? ≠ some '(') :
    Leads ⟨.ident (c :: n), c :: n⟩ r := by
  have hNamed := named_ident hName hRest hCall
  rw [List.cons_append] at hNamed
  rw [leads_iff, first_of_isNameStart hStart, hNamed]
  refine ⟨rfl, ?_⟩
  rw [List.length_cons, Nat.add_sub_cancel]
  exact List.take_left

theorem leads_function {c : Char} {n : Text} (hStart : isNameStart c = true)
    (hName : ∀ d ∈ c :: n, IsPlain d)
    (hOther : Text.eqIgnoringCase (c :: n) "url".toList = false) (r : Text) :
    Leads ⟨.opener .round, c :: n ++ ['(']⟩ r := by
  have hNamed := named_function hName hOther r
  rw [List.cons_append] at hNamed
  rw [List.cons_append, leads_iff, List.append_assoc, List.singleton_append,
    first_of_isNameStart hStart, hNamed]
  refine ⟨rfl, ?_⟩
  have hLength : (c :: n).length + 1 - 1 = (n ++ ['(']).length := by simp
  have hTake : ((n ++ ['(']) ++ r).take (n ++ ['(']).length = n ++ ['('] := List.take_left
  rw [List.append_assoc] at hTake
  rw [hLength]
  exact hTake

def IsCustom (name : Text) : Prop :=
  ∃ c n, name = '-' :: '-' :: c :: n ∧ ∀ d ∈ c :: n, IsPlain d

theorem leads_customProperty {name r : Text} (h : IsCustom name) (hRest : EndsName r)
    (hCall : r.head? ≠ some '(') : Leads ⟨.ident name, name⟩ r := by
  obtain ⟨c, n, rfl, hName⟩ := h
  have hDash : IsPlain '-' := ⟨by decide, by decide⟩
  have hAll : ∀ d ∈ '-' :: '-' :: c :: n, IsPlain d := by
    simp only [List.mem_cons, forall_eq_or_imp]
    exact ⟨hDash, hDash, hName c List.mem_cons_self, fun d hd => hName d (List.mem_cons_of_mem c hd)⟩
  have hNamed := named_ident hAll hRest hCall
  have hArrow : c ≠ '>' := by
    rintro rfl
    exact absurd (hName '>' List.mem_cons_self).1 (by decide)
  have hFirst : first '-' ('-' :: c :: n ++ r) = named ('-' :: ('-' :: c :: n ++ r)) := by
    have hMarker : Text.startsWith ('-' :: c :: (n ++ r)) ['-', '>'] = false := by
      simp [Text.startsWith, Text.after?, hArrow.symm]
    simp [first_dash, hMarker, startsNumber, startsWithDigit, isAsciiDigit, startsName]
  rw [List.cons_append] at hNamed
  rw [leads_iff, hFirst, hNamed]
  refine ⟨rfl, ?_⟩
  rw [List.length_cons, Nat.add_sub_cancel]
  exact List.take_left

end Token

end DesignParams
