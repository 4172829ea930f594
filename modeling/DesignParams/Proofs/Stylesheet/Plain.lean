import DesignParams.Proofs.Stylesheet.Kind
import DesignParams.Proofs.Stylesheet.Sheet
import DesignParams.Proofs.Stylesheet.Tree
import Mathlib.Data.List.TakeWhile

/-!
# Tokens of plain texts

The characters of selectors, preludes and values are cut into white space, names, colons and tokens
without structure. No such token reaches past a bracket or a semicolon, but that a name in front of
an opening bracket takes it along.
-/
set_option autoImplicit false

namespace DesignParams

namespace Sheet

open Token (isSpace isNameChar isNameStart)

def IsWall (w : Char) : Prop :=
  w = '(' ∨ w = ')' ∨ w = ';' ∨ w = '\x7B'

inductive IsPiece : TokenKind → Prop
  | blank : IsPiece .blank
  | colon : IsPiece .colon
  | other : IsPiece .other
  | ident (name : Text) : IsPiece (.ident name)

theorem isPreludeChar_cases {c : Char} (h : isPreludeChar c = true) :
    isAsciiLetter c = true ∨ isAsciiDigit c = true ∨ isSpace c = true ∨
      c = '.' ∨ c = '#' ∨ c = '%' ∨ c = ',' ∨ c = '-' ∨ c = ':' := by
  simp only [isPreludeChar, isValueChar, Bool.or_eq_true, List.contains_iff_mem, List.mem_cons,
    List.not_mem_nil, or_false, decide_eq_true_eq] at h
  tauto

theorem ne_of_isPreludeChar {c d : Char} (h : isPreludeChar c = true)
    (hd : isPreludeChar d = false) : c ≠ d := by
  rintro rfl
  rw [h] at hd
  cases hd

theorem IsWall.isSpace {w : Char} (h : IsWall w) : isSpace w = false := by
  rcases h with rfl | rfl | rfl | rfl <;> decide

theorem IsWall.isNameChar {w : Char} (h : IsWall w) : isNameChar w = false := by
  rcases h with rfl | rfl | rfl | rfl <;> decide

theorem IsWall.isAsciiDigit {w : Char} (h : IsWall w) : isAsciiDigit w = false := by
  rcases h with rfl | rfl | rfl | rfl <;> decide

theorem IsWall.ne {w : Char} (h : IsWall w) :
    w ≠ '\\' ∧ w ≠ '-' ∧ w ≠ '+' ∧ w ≠ '.' ∧ w ≠ '%' ∧ w ≠ 'e' ∧ w ≠ 'E' ∧ w ≠ '>' := by
  rcases h with rfl | rfl | rfl | rfl <;> decide

theorem length_takeWhile_wall {p : Char → Bool} {w : Char} (hp : p w = false) (v rest : Text) :
    ((v ++ w :: rest).takeWhile p).length ≤ v.length := by
  rw [Token.takeWhile_stop hp]
  exact (List.takeWhile_sublist p).length_le

/-! ## What the readers reach -/

section Wall

variable {w : Char} (hw : IsWall w) (v : Text) (hv : v.all isPreludeChar = true) (rest : Text)

include hw

theorem digitsLength_wall : Token.digitsLength (v ++ w :: rest) = Token.digitsLength v := by
  rw [Token.digitsLength, Token.takeWhile_stop hw.isAsciiDigit]
  rfl

theorem fractionLength_wall : Token.fractionLength (v ++ w :: rest) ≤ v.length := by
  cases v with
  | nil =>
    rw [List.nil_append, Token.fractionLength.eq_2 _ (by simp [hw.ne])]
    exact Nat.le_refl 0
  | cons c v =>
    by_cases hDot : c = '.'
    · subst hDot
      have hDigits := Token.digitsLength_le v
      rw [List.cons_append, Token.fractionLength, digitsLength_wall hw, List.length_cons]
      split <;> omega
    · rw [List.cons_append, Token.fractionLength.eq_2 _ (by simp [hDot])]
      exact Nat.zero_le _

theorem exponentLength_wall : Token.exponentLength (v ++ w :: rest) ≤ v.length := by
  cases v with
  | nil => simp [Token.exponentLength, hw.ne]
  | cons e v =>
    cases v with
    | nil => simp [Token.exponentLength, hw.isAsciiDigit, hw.ne]
    | cons c v =>
      have hDigits := Token.digitsLength_le (c :: v)
      have hSigned := Token.digitsLength_le v
      have hAll := digitsLength_wall hw (c :: v) rest
      rw [List.cons_append] at hAll
      simp only [List.cons_append, Token.exponentLength, hAll, digitsLength_wall hw,
        List.length_cons] at hDigits ⊢
      split
      · split
        · omega
        · split <;> omega
      · omega

include hv

theorem name_wall : Token.name (v ++ w :: rest) =
    (v.takeWhile isNameChar, (v.takeWhile isNameChar).length) := by
  have hSplit := List.takeWhile_append_dropWhile (p := isNameChar) (l := v)
  have hName : ∀ c ∈ v.takeWhile isNameChar, Token.IsPlain c := by
    intro c hc
    refine ⟨List.mem_takeWhile_imp hc, ?_⟩
    have hMem := (List.takeWhile_prefix isNameChar).subset hc
    exact ne_of_isPreludeChar (List.all_eq_true.mp hv c hMem) (by decide)
  have hEnd : Token.EndsName (v.dropWhile isNameChar ++ w :: rest) := by
    intro c hc
    cases hDrop : v.dropWhile isNameChar with
    | nil =>
      rw [hDrop] at hc
      obtain rfl : w = c := Option.some.inj hc
      exact ⟨hw.isNameChar, hw.ne.1⟩
    | cons d u =>
      rw [hDrop] at hc
      obtain rfl : d = c := Option.some.inj hc
      have hMem : d ∈ v := by
        rw [← hSplit, hDrop]
        exact List.mem_append_right _ List.mem_cons_self
      have hHead := List.head?_dropWhile_not isNameChar v
      rw [hDrop] at hHead
      exact ⟨by simpa using hHead,
        ne_of_isPreludeChar (List.all_eq_true.mp hv d hMem) (by decide)⟩
  have h := Token.name_append hName hEnd
  rwa [← List.append_assoc, hSplit] at h

theorem length_name_wall : (Token.name (v ++ w :: rest)).2 ≤ v.length := by
  rw [name_wall hw v hv]
  exact (List.takeWhile_sublist isNameChar).length_le

theorem unitLength_wall : Token.unitLength (v ++ w :: rest) ≤ v.length := by
  cases v with
  | nil =>
    have hName := length_name_wall hw [] hv rest
    rw [List.nil_append] at hName ⊢
    rw [Token.unitLength.eq_2 _ (by simp [hw.ne])]
    split
    · exact hName
    · exact Nat.le_refl 0
  | cons c v =>
    by_cases hPercent : c = '%'
    · subst hPercent
      simp [Token.unitLength]
    · have hName := length_name_wall hw (c :: v) hv rest
      rw [List.cons_append] at hName ⊢
      rw [Token.unitLength.eq_2 _ (by simp [hPercent])]
      split
      · exact hName
      · exact Nat.zero_le _

theorem numberLength_wall : Token.numberLength (v ++ w :: rest) ≤ v.length := by
  -- Each part of the number is followed by what is left of the plain text, and then by the wall.
  have hDrop {n : Nat} (hn : n ≤ v.length) :
      (v ++ w :: rest).drop n = v.drop n ++ w :: rest ∧ (v.drop n).length = v.length - n :=
    ⟨List.drop_append_of_le_length hn, List.length_drop⟩
  have hWhole := Token.digitsLength_le v
  obtain ⟨hRest, hLength⟩ := hDrop hWhole
  have hFraction := fractionLength_wall hw (v.drop (Token.digitsLength v)) rest
  rw [Token.numberLength, digitsLength_wall hw, hRest]
  generalize Token.digitsLength v = whole at *
  generalize Token.fractionLength (v.drop whole ++ w :: rest) = fraction at *
  obtain ⟨hRest', hLength'⟩ := hDrop (show whole + fraction ≤ v.length by omega)
  have hExponent := exponentLength_wall hw (v.drop (whole + fraction)) rest
  rw [hRest']
  generalize Token.exponentLength (v.drop (whole + fraction) ++ w :: rest) = exponent at *
  obtain ⟨hRest'', hLength''⟩ := hDrop (show whole + fraction + exponent ≤ v.length by omega)
  have hAll : (v.drop (whole + fraction + exponent)).all isPreludeChar = true :=
    List.all_eq_true.mpr fun c hc => List.all_eq_true.mp hv c (List.mem_of_mem_drop hc)
  have hUnit := unitLength_wall hw (v.drop (whole + fraction + exponent)) hAll rest
  rw [hRest'']
  omega

end Wall

/-! ## The first token -/

section First

variable {w : Char} (hw : IsWall w) {u : Text} (hu : u.all isPreludeChar = true)
  (hAddress : w = '(' → ∀ n, n <:+ u → Text.eqIgnoringCase n "url".toList = false) (rest : Text)

include hw hu hAddress

/-- A token that does not reach past the plain text, or all of it with the bracket behind. -/
inductive Within (w : Char) (u : Text) : TokenKind × Nat → Prop
  | piece {kind : TokenKind} {length : Nat} (h : IsPiece kind) (hLength : length ≤ u.length) :
      Within w u (kind, length)
  | function (h : w = '(') : Within w u (.opener .round, u.length + 1)

theorem within_named : Within w u (Token.named (u ++ w :: rest)) := by
  have hSplit := List.takeWhile_append_dropWhile (p := isNameChar) (l := u)
  have hDrop : (u ++ w :: rest).drop (u.takeWhile isNameChar).length =
      u.dropWhile isNameChar ++ w :: rest := by
    rw [show u ++ w :: rest = u.takeWhile isNameChar ++ (u.dropWhile isNameChar ++ w :: rest) by
      rw [← List.append_assoc, hSplit], Token.drop_length_append]
  have hLength := congrArg List.length hSplit
  rw [List.length_append] at hLength
  rw [Token.named_eq, name_wall hw u hu]
  simp only [hDrop]
  cases hBehind : u.dropWhile isNameChar with
  | nil =>
    rw [hBehind, List.append_nil] at hSplit
    rw [hSplit]
    by_cases hOpen : w = '('
    · simp only [hOpen, List.nil_append, List.head?_cons, Option.any_some, decide_true, if_true,
        hAddress hOpen u List.suffix_rfl, Bool.false_eq_true, if_false]
      exact .function rfl
    · simp only [List.nil_append, List.head?_cons, Option.any_some, hOpen, decide_false,
        Bool.false_eq_true, if_false]
      exact .piece (.ident u) (Nat.le_refl _)
  | cons d v =>
    have hMem : d ∈ u := by
      rw [← hSplit, hBehind]
      exact List.mem_append_right _ List.mem_cons_self
    have hOpen : d ≠ '(' := ne_of_isPreludeChar (List.all_eq_true.mp hu d hMem) (by decide)
    simp only [List.cons_append, List.head?_cons, Option.any_some, hOpen, decide_false,
      Bool.false_eq_true, if_false]
    exact .piece (.ident _) (by omega)

end First

theorem first_of_isAsciiDigit {c : Char} (h : isAsciiDigit c = true) (s : Text) :
    Token.first c s = (.other, Token.numberLength (c :: s)) := by
  have hOther {d : Char} (hd : isAsciiDigit d = false) : c ≠ d := by
    rintro rfl
    rw [h] at hd
    cases hd
  have hSpace : isSpace c = false := by
    simp [isSpace, Token.isNewline, hOther (show isAsciiDigit ' ' = false by decide),
      hOther (show isAsciiDigit '\t' = false by decide),
      hOther (show isAsciiDigit '\n' = false by decide),
      hOther (show isAsciiDigit '\r' = false by decide),
      hOther (show isAsciiDigit '\x0C' = false by decide)]
  have hNumber : Token.startsNumber (c :: s) = true := by
    rw [Token.startsNumber_cons, if_neg (hOther (show isAsciiDigit '.' = false by decide)), h]
  have hMarks : ∀ d ∈ ['"', '\'', '#', '(', ')', '[', ']', '\x7B', '\x7D', ':', ';', '+', '-'],
      c ≠ d := by
    intro d hd
    have hAll : ['"', '\'', '#', '(', ')', '[', ']', '\x7B', '\x7D', ':', ';', '+', '-'].all
        (isAsciiDigit · = false) = true := by decide
    exact hOther (of_decide_eq_true (List.all_eq_true.mp hAll d hd))
  simp only [List.mem_cons, List.not_mem_nil, or_false, forall_eq_or_imp, forall_eq] at hMarks
  simp only [Token.first, hSpace, hMarks, hNumber, Bool.false_eq_true, or_self, if_false, if_true]

theorem startsWith_arrow {w : Char} (hw : IsWall w) {v : Text} (hv : v.all isPreludeChar = true)
    (rest : Text) : Text.startsWith (v ++ w :: rest) ['-', '>'] = false := by
  have hNot {d : Char} (hd : isPreludeChar d = true) : d ≠ '>' := ne_of_isPreludeChar hd (by decide)
  cases v with
  | nil => simp [Text.startsWith, Text.after?, hw.ne.2.1.symm]
  | cons c v =>
    rw [List.all_cons, Bool.and_eq_true] at hv
    cases v with
    | nil => simp [Text.startsWith, Text.after?, hw.ne.2.2.2.2.2.2.2.symm]
    | cons d v =>
      rw [List.all_cons, Bool.and_eq_true] at hv
      simp [Text.startsWith, Text.after?, (hNot hv.2.1).symm]

theorem within_first {w : Char} (hw : IsWall w) {c : Char} {v : Text}
    (hu : (c :: v).all isPreludeChar = true)
    (hAddress : w = '(' → ∀ n, n <:+ c :: v → Text.eqIgnoringCase n "url".toList = false)
    (rest : Text) : Within w (c :: v) (Token.first c (v ++ w :: rest)) := by
  have hv : v.all isPreludeChar = true := by
    rw [List.all_cons, Bool.and_eq_true] at hu
    exact hu.2
  have hOne {kind : TokenKind} (h : IsPiece kind) : Within w (c :: v) (kind, 1) :=
    .piece h (by simp)
  have hNumber := numberLength_wall hw (c :: v) hu rest
  have hNamed := within_named hw hu hAddress rest
  rw [List.cons_append] at hNumber hNamed
  -- Only a letter or a dash begins a name; every other character begins a token of its own kind.
  rcases isPreludeChar_cases (List.all_eq_true.mp hu c List.mem_cons_self) with
    hLetter | hDigit | hSpace | rfl | rfl | rfl | rfl | rfl | rfl
  · rw [Token.first_of_isNameStart (by simp [isNameStart, hLetter])]
    exact hNamed
  · rw [first_of_isAsciiDigit hDigit]
    exact .piece .other hNumber
  · simp only [Token.first, hSpace, if_true]
    exact .piece .blank (Nat.succ_le_succ (length_takeWhile_wall hw.isSpace v rest))
  · have hFirst : Token.first '.' (v ++ w :: rest) =
        if Token.startsNumber ('.' :: (v ++ w :: rest)) then
          (.other, Token.numberLength ('.' :: (v ++ w :: rest))) else (.other, 1) := rfl
    rw [hFirst]
    split
    · exact .piece .other hNumber
    · exact hOne .other
  · rw [Token.first_hash]
    split
    · exact .piece .other (Nat.succ_le_succ (length_name_wall hw v hv rest))
    · exact hOne .other
  · exact hOne .other
  · exact hOne .other
  · rw [Token.first_dash, startsWith_arrow hw hv, if_neg (show ¬ false = true by decide)]
    split
    · exact .piece .other (Nat.succ_le_succ (numberLength_wall hw v hv rest))
    · split
      · exact hNamed
      · exact hOne .other
  · exact hOne .colon

/-! ## The tokens of a plain text -/

/-- Pieces that a text is cut into in front of a rest. -/
structure Pieces (s : Text) (tokens : List Token) (rest : Text) : Prop where
  text : Token.textOf tokens = s
  kinds : ∀ t ∈ tokens, IsPiece t.kind
  cut : Token.CutBefore tokens rest

/-- Pieces, and an opening bracket with the name in front of it, that a text is cut into in front of
the bracket and a rest. -/
structure OpenPieces (s : Text) (tokens : List Token) (opener : Token) (rest : Text) : Prop where
  opens : opener.kind = .opener .round
  text : Token.textOf tokens ++ opener.text = s ++ ['(']
  kinds : ∀ t ∈ tokens, IsPiece t.kind
  cut : Token.CutBefore (tokens ++ [opener]) rest

theorem Pieces.cons {s rest : Text} {tokens : List Token} {t : Token} (h : Pieces s tokens rest)
    (hKind : IsPiece t.kind) (hLeads : Token.Leads t (s ++ rest)) :
    Pieces (t.text ++ s) (t :: tokens) rest := by
  refine ⟨by rw [Token.textOf_cons, h.text], List.forall_mem_cons.mpr ⟨hKind, h.kinds⟩, ?_⟩
  rw [Token.cutBefore_cons, h.text]
  exact ⟨hLeads, h.cut⟩

theorem OpenPieces.cons {s rest : Text} {tokens : List Token} {opener t : Token}
    (h : OpenPieces s tokens opener rest) (hKind : IsPiece t.kind)
    (hLeads : Token.Leads t (s ++ '(' :: rest)) :
    OpenPieces (t.text ++ s) (t :: tokens) opener rest := by
  refine ⟨h.opens, ?_, List.forall_mem_cons.mpr ⟨hKind, h.kinds⟩, ?_⟩
  · rw [Token.textOf_cons, List.append_assoc, h.text, List.append_assoc]
  · rw [List.cons_append, Token.cutBefore_cons, Token.textOf_append, Token.textOf_cons,
      Token.textOf_nil, List.append_nil, h.text, List.append_assoc]
    exact ⟨hLeads, h.cut⟩

theorem openPieces_nil (rest : Text) : OpenPieces [] [] ⟨.opener .round, ['(']⟩ rest :=
  ⟨rfl, rfl, by simp,
    Token.cutBefore_cons.mpr ⟨Token.leads_opener .round rest, Token.cutBefore_nil rest⟩⟩

/-- A plain text is cut into pieces; in front of an opening bracket the last one opens a block. -/
theorem exists_pieces {w : Char} (hw : IsWall w) (u : Text) (hu : u.all isPreludeChar = true)
    (hAddress : w = '(' → ∀ n, n <:+ u → Text.eqIgnoringCase n "url".toList = false) (rest : Text) :
    (w ≠ '(' → ∃ tokens, Pieces u tokens (w :: rest)) ∧
      (w = '(' → ∃ tokens opener, OpenPieces u tokens opener rest) := by
  induction hLength : u.length using Nat.strongRecOn generalizing u with
  | ind n ih =>
    subst hLength
    cases u with
    | nil => exact ⟨fun _ => ⟨[], rfl, by simp, Token.cutBefore_nil _⟩, fun _ => ⟨[], _, openPieces_nil rest⟩⟩
    | cons c v =>
      have hLeads := Token.leads_first c (v ++ w :: rest)
      have hFirst := within_first hw hu hAddress rest
      generalize Token.first c (v ++ w :: rest) = first at hLeads hFirst
      cases hFirst with
      | @piece kind length hKind hFits =>
        have hInside : length - 1 ≤ v.length := by
          rw [List.length_cons] at hFits
          omega
        rw [List.take_append_of_le_length hInside, List.drop_append_of_le_length hInside] at hLeads
        have hSuffix : v.drop (length - 1) <:+ c :: v :=
          (List.drop_suffix _ v).trans (List.suffix_cons c v)
        have hJoined : c :: v.take (length - 1) ++ v.drop (length - 1) = c :: v := by
          rw [List.cons_append, List.take_append_drop]
        obtain ⟨hPlain, hOpen⟩ := ih _ (by rw [List.length_drop, List.length_cons]; omega)
          (v.drop (length - 1))
          (List.all_eq_true.mpr fun d hd => List.all_eq_true.mp hu d (hSuffix.subset hd))
          (fun hw n hn => hAddress hw n (hn.trans hSuffix)) rfl
        rw [← hJoined]
        constructor
        · intro hNot
          obtain ⟨tokens, h⟩ := hPlain hNot
          exact ⟨_, h.cons hKind hLeads⟩
        · rintro rfl
          obtain ⟨tokens, opener, h⟩ := hOpen rfl
          exact ⟨_, opener, h.cons hKind hLeads⟩
      | function hIs =>
        -- The name takes the bracket along, so that no piece is left.
        subst hIs
        have hJoined : v ++ '(' :: rest = (v ++ ['(']) ++ rest := by simp
        have hLength : (c :: v).length + 1 - 1 = (v ++ ['(']).length := by simp
        rw [hJoined, hLength, List.take_left, List.drop_left] at hLeads
        refine ⟨fun hNot => absurd rfl hNot, fun _ => ⟨[], ⟨.opener .round, c :: v ++ ['(']⟩, ?_⟩⟩
        exact ⟨rfl, rfl, by simp, Token.cutBefore_cons.mpr ⟨hLeads, Token.cutBefore_nil _⟩⟩

theorem exists_plainPieces {w : Char} (hw : IsWall w) (hClosed : w ≠ '(') {u : Text}
    (hu : u.all isPreludeChar = true) (rest : Text) : ∃ tokens, Pieces u tokens (w :: rest) :=
  (exists_pieces hw u hu (fun hOpen => absurd hOpen hClosed) rest).1 hClosed

theorem exists_openPieces {u : Text} (hu : u.all isPreludeChar = true)
    (hAddress : ∀ n, n <:+ u → Text.eqIgnoringCase n "url".toList = false) (rest : Text) :
    ∃ tokens opener, OpenPieces u tokens opener rest :=
  (exists_pieces (.inl rfl) u hu (fun _ => hAddress) rest).2 rfl

end Sheet

end DesignParams
