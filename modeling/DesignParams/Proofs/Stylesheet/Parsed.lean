import DesignParams.Proofs.Stylesheet.Plain

/-!
# Nodes of the parts of a sheet

The parts of a sheet are gathered into nodes one by one: white space and comments, texts with round
brackets, the headers of at-rules. What stands behind a part may be anything that cannot run
together with its last token.
-/
set_option autoImplicit false

namespace DesignParams

namespace Node

/-- Nodes that a text is gathered into in front of a rest, whatever bracket is open around it. -/
structure Parsed (s : Text) (nodes : List Node) (rest : Text) : Prop where
  formed : ∀ inside, Formed false inside nodes
  text : textOfAll nodes = s
  cut : Token.CutBefore (tokensOfAll nodes) rest

theorem parsed_nil (rest : Text) : Parsed [] [] rest :=
  ⟨fun _ => .nil, rfl, Token.cutBefore_nil rest⟩

theorem Parsed.append {s t rest : Text} {nodes nodes' : List Node}
    (h : Parsed s nodes (t ++ rest)) (h' : Parsed t nodes' rest) :
    Parsed (s ++ t) (nodes ++ nodes') rest := by
  refine ⟨fun inside => (h.formed inside).append (h'.formed inside), ?_, ?_⟩
  · rw [textOfAll_append, h.text, h'.text]
  · rw [tokensOfAll_append, Token.cutBefore_append, ← textOfAll_eq_textOf, h'.text]
    exact ⟨h.cut, h'.cut⟩

theorem parsed_leaves {tokens : List Token} {s rest : Text} (hText : Token.textOf tokens = s)
    (hKinds : ∀ t ∈ tokens, ∀ b, t.kind ≠ .opener b ∧ t.kind ≠ .closer b)
    (hCut : Token.CutBefore tokens rest) : Parsed s (tokens.map .leaf) rest :=
  ⟨fun _ => formed_leaves hKinds, by rw [textOfAll_leaves, hText], by rwa [tokensOfAll_leaves]⟩

theorem parsed_leaf {t : Token} {rest : Text}
    (hKind : ∀ b, t.kind ≠ .opener b ∧ t.kind ≠ .closer b) (h : Token.Leads t rest) :
    Parsed t.text [.leaf t] rest :=
  parsed_leaves (by simp) (by simpa using hKind)
    (Token.cutBefore_cons.mpr ⟨h, Token.cutBefore_nil rest⟩)

theorem parsed_block {bracket : Bracket} {opener : Token} {s rest : Text} {nodes : List Node}
    (hKind : opener.kind = .opener bracket)
    (hOpener : Token.Leads opener (s ++ bracket.closing :: rest))
    (h : Parsed s nodes (bracket.closing :: rest)) :
    Parsed (opener.text ++ (s ++ [bracket.closing]))
      [.block bracket opener nodes (some ⟨.closer bracket, [bracket.closing]⟩)] rest := by
  refine ⟨fun _ => .block hKind rfl (h.formed _) .nil, ?_, ?_⟩
  · rw [textOfAll, text_block, h.text]
    simp [textOfAll]
  · have hTokens : tokensOfAll [.block bracket opener nodes
        (some ⟨.closer bracket, [bracket.closing]⟩)] =
          opener :: (tokensOfAll nodes ++ [⟨.closer bracket, [bracket.closing]⟩]) := by
      simp [tokensOfAll, tokens]
    rw [hTokens, Token.cutBefore_cons, Token.cutBefore_append, Token.cutBefore_cons,
      Token.textOf_append, ← textOfAll_eq_textOf, h.text]
    simp only [Token.textOf_cons, Token.textOf_nil, List.append_nil, List.append_assoc,
      List.singleton_append, List.nil_append]
    exact ⟨hOpener, h.cut, Token.leads_closer bracket rest, Token.cutBefore_nil rest⟩

theorem ofText_of_parsed {s : Text} {nodes : List Node} (h : Parsed s nodes []) :
    ofText s = nodes := by
  have hCut := h.cut
  rw [Token.CutBefore, ← textOfAll_eq_textOf, h.text, List.append_nil, Token.tokenize_nil,
    List.append_nil] at hCut
  exact ofText_eq (h.formed none).mono hCut

end Node

namespace Sheet

open Node (Parsed parsed_nil parsed_leaf parsed_leaves parsed_block)

/-! ## Texts with round brackets -/

/-- Nodes of a selector, a prelude or a value: pieces of plain text, and round brackets. -/
inductive IsInner : Node → Prop
  | leaf {t : Token} (h : IsPiece t.kind) : IsInner (.leaf t)
  | block (opener : Token) (body : List Node) (closer : Option Token) :
      IsInner (.block .round opener body closer)

theorem IsPiece.not_bracket {kind : TokenKind} (h : IsPiece kind) (b : Bracket) :
    kind ≠ .opener b ∧ kind ≠ .closer b := by
  cases h <;> simp

theorem IsInner.not_isSemicolon {node : Node} (h : IsInner node) :
    Declaration.isSemicolon node = false := by
  cases h with
  | @leaf t h =>
    obtain ⟨kind, text⟩ := t
    cases h <;> rfl
  | block => rfl

theorem isInner_leaves {tokens : List Token} (h : ∀ t ∈ tokens, IsPiece t.kind) :
    ∀ node ∈ tokens.map Node.leaf, IsInner node := by
  intro node hNode
  obtain ⟨t, ht, rfl⟩ := List.mem_map.mp hNode
  exact .leaf (h t ht)

theorem LacksAddress.of_infix {s part : Text} (h : LacksAddress s) (hPart : part <:+: s) :
    LacksAddress part :=
  fun hAddress => h (hAddress.trans (hPart.map asciiLower))

theorem LacksAddress.not_url {s before rest n : Text} (h : LacksAddress s)
    (hSplit : s = before ++ '(' :: rest) (hName : n <:+ before) :
    Text.eqIgnoringCase n "url".toList = false := by
  cases hEq : Text.eqIgnoringCase n "url".toList with
  | false => rfl
  | true =>
    exfalso
    obtain ⟨front, rfl⟩ := hName
    have hLower : Text.asciiLowered (n ++ ['(']) = "url(".toList := by
      rw [Text.asciiLowered, List.map_append, ← Text.asciiLowered, eq_of_beq hEq]
      decide
    have hPart : n ++ ['('] <:+: s := ⟨front, rest, by rw [hSplit]; simp⟩
    exact h.of_infix hPart (hLower ▸ List.infix_rfl)

theorem Pieces.parsed {s rest : Text} {tokens : List Token} (h : Pieces s tokens rest) :
    Parsed s (tokens.map .leaf) rest :=
  parsed_leaves h.text (fun t ht => (h.kinds t ht).not_bracket) h.cut

theorem OpenPieces.parsed {before inside rest : Text} {tokens : List Token} {opener : Token}
    {inner : List Node} (h : OpenPieces before tokens opener (inside ++ ')' :: rest))
    (hInner : Parsed inside inner (')' :: rest)) :
    Parsed (before ++ '(' :: (inside ++ [')']))
      (tokens.map .leaf ++ [.block .round opener inner (some ⟨.closer .round, [')']⟩)]) rest := by
  have hCut := h.cut
  rw [Token.cutBefore_append, Token.cutBefore_cons, Token.textOf_nil, List.nil_append] at hCut
  have hFront : Parsed (Token.textOf tokens) (tokens.map .leaf)
      (opener.text ++ (inside ++ [')']) ++ rest) := by
    refine parsed_leaves rfl (fun t ht => (h.kinds t ht).not_bracket) ?_
    simpa using hCut.1
  have hSame : Token.textOf tokens ++ (opener.text ++ (inside ++ [')'])) =
      before ++ '(' :: (inside ++ [')']) := by
    rw [← List.append_assoc, h.text]
    simp
  exact hSame ▸ hFront.append (parsed_block h.opens hCut.2.1 hInner)

theorem exists_balanced {s : Text} (h : IsBalanced isPreludeChar s) (hAddress : LacksAddress s)
    {w : Char} (hw : IsWall w) (hClosed : w ≠ '(') (rest : Text) :
    ∃ nodes, Parsed s nodes (w :: rest) ∧ ∀ node ∈ nodes, IsInner node := by
  induction h generalizing w rest with
  | plain hAll =>
    obtain ⟨tokens, hPieces⟩ := exists_plainPieces hw hClosed hAll rest
    exact ⟨tokens.map .leaf, hPieces.parsed, isInner_leaves hPieces.kinds⟩
  | @parens before inside after hBefore _ _ ihInside ihAfter =>
    -- The closing bracket is the wall of what stands inside, and the one behind that of the rest.
    obtain ⟨tokens, opener, hPieces⟩ := exists_openPieces hBefore
      (fun _ hn => hAddress.not_url rfl hn) (inside ++ ')' :: (after ++ w :: rest))
    obtain ⟨inner, hInner, -⟩ := ihInside (hAddress.of_infix ⟨before ++ ['('], ')' :: after, by simp⟩)
      (.inr (.inl rfl)) (by decide) (after ++ w :: rest)
    obtain ⟨behind, hBehind, hBehindInner⟩ :=
      ihAfter (hAddress.of_infix ⟨before ++ '(' :: (inside ++ [')']), [], by simp⟩) hw hClosed rest
    have hAll := (hPieces.parsed hInner).append hBehind
    have hSame : before ++ '(' :: (inside ++ [')']) ++ after =
        before ++ '(' :: (inside ++ ')' :: after) := by simp
    refine ⟨_, hSame ▸ hAll, ?_⟩
    simp only [List.forall_mem_append, List.forall_mem_singleton]
    exact ⟨⟨isInner_leaves hPieces.kinds, .block _ _ _⟩, hBehindInner⟩

/-! ## White space and comments -/

theorem commentLength_append {u : Text} (h : ¬ ['*', '/'] <:+: u) (rest : Text) :
    Token.commentLength (u ++ '*' :: '/' :: rest) = u.length + 2 := by
  induction u with
  | nil => rfl
  | cons c u ih =>
    have hTail : ¬ ['*', '/'] <:+: u := fun hIn => h (hIn.trans (List.suffix_cons c u).isInfix)
    have hOpen : ¬ (c = '*' ∧ (u ++ '*' :: '/' :: rest).head?.any (· = '/') = true) := by
      rintro ⟨rfl, hSlash⟩
      cases u with
      | nil => simp at hSlash
      | cons d u =>
        obtain rfl : d = '/' := by simpa using hSlash
        exact h ⟨[], u, rfl⟩
    rw [List.cons_append, Token.commentLength_cons, if_neg hOpen, ih hTail, List.length_cons]

theorem leads_comment (c : Comment) (rest : Text) : Token.Leads ⟨.comment, c.print⟩ rest := by
  have hText : '*' :: (c.text ++ ['*', '/']) ++ rest = '*' :: (c.text ++ '*' :: '/' :: rest) := by simp
  rw [Comment.print, Token.leads_iff, hText, Token.first_comment, commentLength_append c.not_infix,
    ← hText]
  have hLength : c.text.length + 2 + 2 - 1 = ('*' :: (c.text ++ ['*', '/'])).length := by simp
  rw [hLength]
  exact ⟨rfl, List.take_left⟩

theorem exists_blank (b : Blank) {rest : Text} (hRest : rest.head?.any Token.isSpace = false) :
    ∃ nodes, Parsed b.text nodes rest ∧ ∀ node ∈ nodes, Declaration.isIgnored node = true := by
  by_cases hEmpty : b.text = []
  · rw [hEmpty]
    exact ⟨[], parsed_nil rest, by simp⟩
  · refine ⟨[.leaf ⟨.blank, b.text⟩], ?_, by simp [Declaration.isIgnored]⟩
    exact parsed_leaf (by simp) (Token.leads_blank hEmpty b.all hRest)

theorem exists_trivia (t : Trivia) {rest : Text} (hRest : rest.head?.any Token.isSpace = false) :
    ∃ nodes, Parsed t.print nodes rest ∧ ∀ node ∈ nodes, Declaration.isIgnored node = true := by
  obtain ⟨lead, more⟩ := t
  rw [Trivia.print]
  -- The induction is on the comments, each with the white space in front of it.
  induction more generalizing lead with
  | nil =>
    rw [printComments, List.append_nil]
    exact exists_blank lead hRest
  | cons first more ih =>
    obtain ⟨c, b⟩ := first
    obtain ⟨nodes, hNodes, hIgnored⟩ := ih b
    have hComment : Parsed c.print [.leaf ⟨.comment, c.print⟩] (b.text ++ printComments more ++ rest) :=
      parsed_leaf (by simp) (leads_comment c _)
    obtain ⟨front, hFront, hFrontIgnored⟩ :=
      @exists_blank lead (c.print ++ (b.text ++ printComments more) ++ rest) rfl
    refine ⟨front ++ (.leaf ⟨.comment, c.print⟩ :: nodes), ?_, ?_⟩
    · rw [printComments, List.append_assoc c.print]
      exact hFront.append (hComment.append hNodes)
    · simp only [List.forall_mem_append, List.forall_mem_cons]
      exact ⟨hFrontIgnored, rfl, hIgnored⟩

/-! ## Names -/

theorem isNameStart_of_isAsciiLetter {c : Char} (h : isAsciiLetter c = true) :
    Token.isNameStart c = true := by
  simp [Token.isNameStart, h]

theorem isPlain_of_isAsciiLetter {c : Char} (h : isAsciiLetter c = true) : Token.IsPlain c := by
  refine ⟨by simp [Token.isNameChar, isNameStart_of_isAsciiLetter h], ?_⟩
  rintro rfl
  exact absurd h (by decide)

theorem isPlain_of_isAsciiDigit {c : Char} (h : isAsciiDigit c = true) : Token.IsPlain c := by
  refine ⟨by simp [Token.isNameChar, h], ?_⟩
  rintro rfl
  exact absurd h (by decide)

theorem isPlain_dash : Token.IsPlain '-' :=
  ⟨by decide, by decide⟩

theorem parsed_property (p : Property) {rest : Text} (hRest : Token.EndsName rest)
    (hCall : rest.head? ≠ some '(') : Parsed p.text [.leaf ⟨.ident p.text, p.text⟩] rest := by
  obtain ⟨text, hStart, hAll⟩ := p
  obtain ⟨c, n, rfl⟩ : ∃ c n, text = c :: n := by
    refine List.exists_cons_of_ne_nil ?_
    rintro rfl
    cases hStart
  have hPlain : ∀ d ∈ c :: n, Token.IsPlain d := by
    intro d hd
    have h := List.all_eq_true.mp hAll d hd
    simp only [Bool.or_eq_true, decide_eq_true_eq] at h
    rcases h with (h | h) | rfl
    · exact isPlain_of_isAsciiLetter h
    · exact isPlain_of_isAsciiDigit h
    · exact isPlain_dash
  exact parsed_leaf (by simp)
    (Token.leads_ident (isNameStart_of_isAsciiLetter hStart) hPlain hRest hCall)

theorem AtName.startsName (name : AtName) (rest : Text) :
    Token.startsName (name.text ++ rest) = true := by
  obtain ⟨text, hStart, -, -⟩ := name
  rcases hStart with hLetter | ⟨hDash, hLetter⟩
  · obtain ⟨c, hHead, hc⟩ := Option.any_eq_true _ _ |>.mp hLetter
    obtain ⟨n, rfl⟩ := List.head?_eq_some_iff.mp hHead
    have hDash : c ≠ '-' := by
      rintro rfl
      exact absurd hc (by decide)
    have hSlash : c ≠ '\\' := by
      rintro rfl
      exact absurd hc (by decide)
    rw [List.cons_append, Token.startsName_cons, if_neg hDash, if_neg hSlash]
    exact isNameStart_of_isAsciiLetter hc
  · obtain ⟨n, rfl⟩ := List.head?_eq_some_iff.mp hDash
    obtain ⟨c, hHead, hc⟩ := Option.any_eq_true _ _ |>.mp hLetter
    obtain ⟨m, rfl⟩ := List.head?_eq_some_iff.mp (show n.head? = some c from hHead)
    rw [List.cons_append, Token.startsName_cons, if_pos rfl]
    simp [isNameStart_of_isAsciiLetter hc]

theorem parsed_atKeyword (name : AtName) {rest : Text} (hRest : Token.EndsName rest) :
    Parsed ('@' :: name.text) [.leaf ⟨.atKeyword name.text, '@' :: name.text⟩] rest := by
  have hPlain : ∀ d ∈ name.text, Token.IsPlain d := by
    intro d hd
    have h := List.all_eq_true.mp name.all d hd
    simp only [Bool.or_eq_true, decide_eq_true_eq] at h
    rcases h with h | rfl
    · exact isPlain_of_isAsciiLetter h
    · exact isPlain_dash
  refine parsed_leaf (by simp) (Token.leads_iff.mpr ?_)
  rw [Token.first_at, if_pos (name.startsName rest), Token.name_append hPlain hRest]
  exact ⟨rfl, List.take_left⟩

end Sheet

end DesignParams
