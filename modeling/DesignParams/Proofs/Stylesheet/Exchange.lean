import DesignParams.Proofs.Stylesheet.Kind
import DesignParams.Proofs.Stylesheet.Tree
import DesignParams.Proofs.Stylesheet.Walk

/-!
# Exchanging a value

The nodes of one value can be exchanged for the nodes of another, and the stylesheet is read as
before but for that value: what stands in front is read at the same offsets, what stands behind has
the same selectors, properties and values. The brackets around the value stay as they are.
-/
set_option autoImplicit false

namespace DesignParams

namespace Declaration

def content (d : Declaration) : Text × Text × Text :=
  (d.selector, d.property, d.value)

theorem nil_of_singleton_eq {a d : Declaration} {earlier later : List Declaration}
    (h : [a] = earlier ++ d :: later) : earlier = [] ∧ later = [] := by
  cases earlier with
  | nil => exact ⟨rfl, (List.cons.inj h).2.symm⟩
  | cons e earlier =>
    have hTail := (List.cons.inj h).2
    simp at hTail

theorem found_or_more {found more earlier later : List Declaration} {d : Declaration}
    (h : earlier ++ d :: later = found ++ more) :
    (∃ earlier', earlier = found ++ earlier' ∧ more = earlier' ++ d :: later) ∨
      ∃ later', found = earlier ++ d :: later' ∧ later = later' ++ more := by
  rcases List.append_eq_append_iff.mp h with ⟨u, rfl, hu⟩ | ⟨u, rfl, hu⟩
  · cases u with
    | nil => exact .inl ⟨[], by simp, hu.symm⟩
    | cons e u =>
      obtain ⟨rfl, rfl⟩ := List.cons.inj hu
      exact .inr ⟨u, rfl, rfl⟩
  · exact .inl ⟨u, rfl, hu⟩

/-! ## Reading at another offset -/

theorem ofRaw_eq_nil_or (property selector : Text) (start : Nat) (raw : Text) :
    ofRaw property selector start raw = [] ∨ ∃ d, ofRaw property selector start raw = [d] := by
  rw [ofRaw]
  simp only
  split
  · exact .inl rfl
  · exact .inr ⟨_, rfl⟩

theorem of_ofRaw_eq_singleton {property selector raw : Text} {start : Nat} {d : Declaration}
    (h : ofRaw property selector start raw = [d]) :
    d.value = dropPriority (Text.trim raw) ∧ d.value ≠ [] ∧
      d.start = start + Text.byteLength (Text.leadingBlank raw) ∧
      d.stop = d.start + Text.byteLength d.value ∧
      d.property = Text.asciiLowered property ∧ d.selector = selector := by
  rw [ofRaw] at h
  simp only at h
  split at h
  · cases h
  · rename_i hNonempty
    obtain rfl := (List.cons.inj h).1
    exact ⟨rfl, by simpa using hNonempty, rfl, rfl, rfl, rfl⟩

theorem content_ofRaw (property selector raw : Text) (start start' : Nat) :
    (ofRaw property selector start raw).map content =
      (ofRaw property selector start' raw).map content := by
  simp only [ofRaw]
  split
  · rfl
  · rfl

theorem content_ofBody {state : BodyState} (hState : state.IsBetween) (nodes : List Node) :
    ∀ (selector : Text) (offset offset' : Nat),
      (ofBody selector state offset nodes).map content =
        (ofBody selector state offset' nodes).map content := by
  refine body_induction (motive := fun state nodes => ∀ selector offset offset',
    (ofBody selector state offset nodes).map content =
      (ofBody selector state offset' nodes).map content) ?_ ?_ ?_ ?_ state hState nodes
  · intro state hState selector offset offset'
    rw [ofBody_nil hState, ofBody_nil hState]
  · intro state node next nodes hPass ih selector offset offset'
    rw [ofBody_pass hPass, ofBody_pass hPass]
    exact ih selector _ _
  · intro property nodes hRaw selector offset offset'
    rw [ofBody_raw hRaw, ofBody_raw hRaw]
    exact content_ofRaw property selector _ offset offset'
  · intro property nodes semicolon rest hRaw hSemicolon ih selector offset offset'
    rw [ofBody_raw_semicolon hRaw hSemicolon, ofBody_raw_semicolon hRaw hSemicolon,
      List.map_append, List.map_append, content_ofRaw property selector _ offset offset',
      ih selector _ (offset' + _ + _)]

theorem content_ofRules (nodes : List Node) :
    ∀ (context : List Text) (state : RuleState) (offset offset' : Nat)
      (declarations : List Declaration),
      ofRules context state offset nodes = some declarations →
      ∃ others, ofRules context state offset' nodes = some others ∧
        others.map content = declarations.map content := by
  induction nodes using rules_induction with
  | nil =>
    intro context state offset offset' declarations hRead
    refine ⟨declarations, ?_, rfl⟩
    rw [← hRead]
    cases state <;> rfl
  | cons node nodes ihBody ihNodes =>
    intro context state offset offset' declarations hRead
    obtain ⟨found, next, more, hFound, hMore, rfl⟩ := ofRules_cons_eq_some_iff.mp hRead
    obtain ⟨more', hMore', hMoreContent⟩ :=
      ihNodes context next _ (offset' + node.byteLength) more hMore
    have hNode : ∃ found', ofNode context state offset' node = some (found', next) ∧
        found'.map content = found.map content := by
      cases nodeReading hFound with
      | nothing step => exact ⟨[], step offset', rfl⟩
      | body step => exact ⟨_, step offset' _, content_ofBody (.outside .idle) _ _ _ _⟩
      | @rules opener nodes closer _ inner _ hInner step =>
        obtain ⟨found', hFound', hContent⟩ :=
          ihBody _ _ _ _ rfl _ _ _ (offset' + Text.byteLength opener.text) _ hInner
        exact ⟨found', by rw [step offset' nodes, hFound']; rfl, hContent⟩
    obtain ⟨found', hFound', hContent⟩ := hNode
    refine ⟨found' ++ more', ofRules_cons_eq_some_iff.mpr ⟨found', next, more', hFound', hMore', rfl⟩, ?_⟩
    rw [List.map_append, List.map_append, hContent, hMoreContent]

/-! ## The place of a value -/

theorem IsRaw.not_isSpace {raw : List Node} {unclosed : Bool} {r : Text} (h : IsRaw raw)
    (hFormed : Node.Formed unclosed (some .curly) raw)
    (hCut : Token.CutBefore (Node.tokensOfAll raw) r) :
    ∃ c s, Node.textOfAll raw = c :: s ∧ Token.isSpace c = false := by
  obtain ⟨node, rest, rfl, hIgnored⟩ := h.head
  have hFirst : ∃ t tokens, node.tokens = t :: tokens ∧ t.kind ≠ .blank := by
    cases node with
    | leaf t =>
      simp only [isIgnored, Bool.decide_or, Bool.or_eq_false_iff, decide_eq_false_iff_not] at hIgnored
      exact ⟨t, [], rfl, hIgnored.1⟩
    | block bracket opener body closer =>
      refine ⟨opener, _, rfl, ?_⟩
      cases hFormed with
      | block opens => simp [opens]
      | unclosed opens => simp [opens]
  obtain ⟨t, tokens, hTokens, hKind⟩ := hFirst
  rw [Node.tokensOfAll, hTokens, List.cons_append, Token.cutBefore_cons] at hCut
  obtain ⟨c, u, hText, hRead, -⟩ := hCut.1.exists_first
  refine ⟨c, u ++ (Token.textOf tokens ++ Node.textOfAll rest), ?_, ?_⟩
  · rw [Node.textOfAll, Node.text_eq_textOf, hTokens, Token.textOf_cons, hText]
    simp
  · cases hSpace : Token.isSpace c with
    | false => rfl
    | true =>
      simp only [Token.first, hSpace, ↓reduceIte] at hRead
      exact absurd hRead.symm hKind

/-- A raw value begins with no white space of the tokenizer, and neither does the white space in
front of its text. -/
theorem IsRaw.head?_leadingBlank {raw : List Node} {unclosed : Bool} {r : Text} (h : IsRaw raw)
    (hFormed : Node.Formed unclosed (some .curly) raw)
    (hCut : Token.CutBefore (Node.tokensOfAll raw) r) :
    (Text.leadingBlank (Node.textOfAll raw)).head?.any Token.isSpace = false := by
  obtain ⟨c, s, hFirst, hSpace⟩ := h.not_isSpace hFormed hCut
  have hJoined := Text.leadingBlank_append_trimStart (Node.textOfAll raw)
  cases hBlank : Text.leadingBlank (Node.textOfAll raw) with
  | nil => rfl
  | cons b lead =>
    rw [hBlank, hFirst] at hJoined
    rw [(List.cons.inj hJoined).1]
    exact hSpace

def AfterColon (tokens : List Token) : Prop :=
  ∃ front colon ignored, tokens = front ++ colon :: ignored ∧ colon.kind = .colon ∧
    ∀ t ∈ ignored, t.kind = .blank ∨ t.kind = .comment

def EndsValue (tokens : List Token) : Prop :=
  ∀ t ∈ tokens.head?, t.kind = .semicolon ∨ t.kind = .closer .curly

theorem AfterColon.prepend {tokens : List Token} (h : AfterColon tokens) (before : List Token) :
    AfterColon (before ++ tokens) := by
  obtain ⟨front, colon, ignored, rfl, hColon, hIgnored⟩ := h
  exact ⟨before ++ front, colon, ignored, (List.append_assoc _ _ _).symm, hColon, hIgnored⟩

theorem EndsValue.append {tokens more : List Token} (h : EndsValue tokens) (hMore : EndsValue more) :
    EndsValue (tokens ++ more) := by
  cases tokens with
  | nil => exact hMore
  | cons token tokens => exact h

theorem endsValue_nil : EndsValue [] := fun _ h => by cases h

/-- A way to read nodes: which are formed, what their tokens are, and their declarations. -/
structure Reading where
  formed : List Node → Prop
  tokens : List Node → List Token
  read : List Node → Option (List Declaration)

/-- The value of the declaration `d` between others can be exchanged for another one. -/
inductive Exchangeable (reading : Reading) (offset : Nat) (nodes : List Node)
    (earlier : List Declaration) (d : Declaration) (later : List Declaration) : Prop
  | intro (before : List Token) (raw : List Node) (after : List Token) (property selector : Text)
      (split : reading.tokens nodes = before ++ (Node.tokensOfAll raw ++ after))
      (isRaw : IsRaw raw) (formed : ∃ unclosed, Node.Formed unclosed (some .curly) raw)
      (behind : AfterColon before) (ends : EndsValue after)
      (value : ofRaw property selector (offset + Text.byteLength (Token.textOf before))
        (Node.textOfAll raw) = [d])
      (exchange : ∀ raw' d', IsRaw raw' → Node.Formed false (some .curly) raw' →
        ofRaw property selector (offset + Text.byteLength (Token.textOf before))
          (Node.textOfAll raw') = [d'] →
        ∃ nodes' later', reading.formed nodes' ∧
          reading.tokens nodes' = before ++ (Node.tokensOfAll raw' ++ after) ∧
          reading.read nodes' = some (earlier ++ d' :: later') ∧
          later'.map content = later.map content)

/-- A value that can be exchanged where it stands can be exchanged within what stands around. -/
theorem Exchangeable.lift {inner outer : Reading} {offset outerOffset : Nat} {nodes : List Node}
    {earlier later : List Declaration} {d : Declaration}
    (h : Exchangeable inner offset nodes earlier d later) (wrap : List Node → List Node)
    (front back : List Token) (first last : List Declaration)
    (hOffset : offset = outerOffset + Text.byteLength (Token.textOf front))
    (hTokens : ∀ n, outer.tokens (wrap n) = front ++ (inner.tokens n ++ back))
    (hFormed : ∀ n, inner.formed n → outer.formed (wrap n)) (hBack : EndsValue back)
    (hRead : ∀ n declarations, inner.read n = some declarations →
      ∃ last', outer.read (wrap n) = some (first ++ (declarations ++ last')) ∧
        last'.map content = last.map content) :
    Exchangeable outer outerOffset (wrap nodes) (first ++ earlier) d (later ++ last) := by
  obtain ⟨before, raw, after, property, selector, split, isRaw, formed, behind, ends, value,
    exchange⟩ := h
  have hStart : offset + Text.byteLength (Token.textOf before) =
      outerOffset + Text.byteLength (Token.textOf (front ++ before)) := by
    rw [hOffset, Token.textOf_append, Text.byteLength_append, Nat.add_assoc]
  rw [hStart] at value exchange
  refine .intro (front ++ before) raw (after ++ back) property selector ?_ isRaw formed
    (behind.prepend front) (ends.append hBack) value fun raw' d' hRaw' hFormed' hValue' => ?_
  · rw [hTokens, split]
    simp only [List.append_assoc]
  · obtain ⟨nodes', later', hNodes', hTokens', hRead', hContent⟩ := exchange raw' d' hRaw' hFormed' hValue'
    obtain ⟨last', hOuter, hLast⟩ := hRead nodes' _ hRead'
    refine ⟨wrap nodes', later' ++ last', hFormed nodes' hNodes', ?_, ?_, ?_⟩
    · rw [hTokens, hTokens']
      simp only [List.append_assoc]
    · rw [hOuter]
      simp only [List.append_assoc, List.cons_append]
    · rw [List.map_append, List.map_append, hContent, hLast]

/-! ## Values of a body -/

def bodyReading (unclosed : Bool) (selector : Text) (state : BodyState) (offset : Nat)
    (front : List Token) : Reading where
  formed := Node.Formed unclosed (some .curly)
  tokens nodes := front ++ Node.tokensOfAll nodes
  read nodes := some (ofBody selector state (offset + Text.byteLength (Token.textOf front)) nodes)

theorem kind_of_isSemicolon {node : Node} (h : isSemicolon node = true) :
    ∃ token, node = .leaf token ∧ token.kind = .semicolon := by
  cases node with
  | block => cases h
  | leaf token => exact ⟨token, rfl, of_decide_eq_true h⟩

theorem Passes.afterColon {state : BodyState} {node : Node} {property : Text} {front : List Token}
    (h : Passes state node (.atValue property))
    (hFront : ∀ property, state = .atValue property → AfterColon front) :
    AfterColon (front ++ node.tokens) := by
  cases h with
  | outside _ after _ => cases after
  | @colon _ token hKind => exact ⟨front, token, [], rfl, hKind, fun _ h => by cases h⟩
  | ignored hIgnored =>
    cases node with
    | block => cases hIgnored
    | leaf token =>
      obtain ⟨start, colon, ignored, rfl, hColon, hAll⟩ := hFront property rfl
      refine ⟨start, colon, ignored ++ [token], by simp [Node.tokens], hColon, fun t ht => ?_⟩
      rcases List.mem_append.mp ht with ht | ht
      · exact hAll t ht
      · rw [List.mem_singleton.mp ht]
        exact of_decide_eq_true hIgnored

/-- The declaration is the one of a value in front, or it comes behind it. -/
theorem value_or_later {property selector raw : Text} {start : Nat} {d : Declaration}
    {earlier later rest : List Declaration}
    (h : ofRaw property selector start raw ++ rest = earlier ++ d :: later) :
    (earlier = [] ∧ ofRaw property selector start raw = [d] ∧ later = rest) ∨
      ∃ earlier', earlier = ofRaw property selector start raw ++ earlier' ∧
        rest = earlier' ++ d :: later := by
  rcases ofRaw_eq_nil_or property selector start raw with hNone | ⟨a, hOne⟩
  · rw [hNone] at h ⊢
    exact .inr ⟨earlier, rfl, h⟩
  · rw [hOne] at h ⊢
    cases earlier with
    | nil =>
      obtain ⟨rfl, rfl⟩ := List.cons.inj h
      exact .inl ⟨rfl, rfl, rfl⟩
    | cons e earlier =>
      obtain ⟨rfl, hRest⟩ := List.cons.inj h
      exact .inr ⟨earlier, rfl, hRest⟩

section Body

variable {unclosed : Bool} {selector : Text} {offset : Nat} {front : List Token}
  {nodes : List Node} {earlier later : List Declaration} {d : Declaration}

theorem offset_behind_node (offset : Nat) (front : List Token) (node : Node) :
    offset + Text.byteLength (Token.textOf front) + node.byteLength =
      offset + Text.byteLength (Token.textOf (front ++ node.tokens)) := by
  rw [Token.textOf_append, Text.byteLength_append, ← Node.text_eq_textOf, Nat.add_assoc]
  rfl

theorem offset_behind_semicolon (offset : Nat) (front : List Token) (nodes : List Node)
    (token : Token) :
    offset + Text.byteLength (Token.textOf front) + Text.byteLength (Node.textOfAll nodes) +
        Node.byteLength (.leaf token) =
      offset + Text.byteLength (Token.textOf (front ++ (Node.tokensOfAll nodes ++ [token]))) := by
  rw [Token.textOf_append, Token.textOf_append, Text.byteLength_append, Text.byteLength_append,
    ← Node.textOfAll_eq_textOf]
  simp [Node.byteLength, Node.text, Nat.add_assoc]

/-- A value behind a node that is passed over. -/
theorem Exchangeable.pass {state next : BodyState} {node : Node} (hPass : Passes state node next)
    (hNode : Node.Formed false (some .curly) [node])
    (h : Exchangeable (bodyReading unclosed selector next offset (front ++ node.tokens)) offset nodes
      earlier d later) :
    Exchangeable (bodyReading unclosed selector state offset front) offset (node :: nodes) earlier d
      later := by
  have hOuter : Exchangeable (bodyReading unclosed selector state offset front) offset
      (node :: nodes) ([] ++ earlier) d (later ++ []) := by
    refine h.lift (node :: ·) [] [] [] [] rfl (fun n => ?_) (fun n hn => hNode.append hn)
      endsValue_nil fun n declarations hDeclarations => ⟨[], ?_, rfl⟩
    · simp [bodyReading, Node.tokensOfAll]
    · simp only [bodyReading] at hDeclarations ⊢
      rw [ofBody_pass hPass, offset_behind_node, hDeclarations, List.nil_append, List.append_nil]
  simpa using hOuter

/-- The last value of a body. -/
theorem exchangeable_raw {property : Text} (hFront : AfterColon front) (hRaw : IsRaw nodes)
    (hFormed : Node.Formed unclosed (some .curly) nodes)
    (hValue : ofRaw property selector (offset + Text.byteLength (Token.textOf front))
      (Node.textOfAll nodes) = [d]) :
    Exchangeable (bodyReading unclosed selector (.atValue property) offset front) offset nodes []
      d [] := by
  refine .intro front nodes [] property selector (by simp [bodyReading]) hRaw ⟨unclosed, hFormed⟩
    hFront endsValue_nil hValue fun raw' d' hRaw' hFormed' hValue' => ?_
  refine ⟨raw', [], hFormed'.mono, by simp [bodyReading], ?_, rfl⟩
  simp only [bodyReading]
  rw [ofBody_raw hRaw', hValue', List.nil_append]

/-- A value in front of its semicolon. -/
theorem exchangeable_raw_semicolon {property : Text} {token : Token} {rest : List Node}
    (hFront : AfterColon front) (hRaw : IsRaw nodes) (hKind : token.kind = .semicolon)
    (hFormed : Node.Formed unclosed (some .curly) (nodes ++ .leaf token :: rest))
    (hValue : ofRaw property selector (offset + Text.byteLength (Token.textOf front))
      (Node.textOfAll nodes) = [d]) :
    Exchangeable (bodyReading unclosed selector (.atValue property) offset front) offset
      (nodes ++ .leaf token :: rest) [] d
      (ofBody selector .idle (offset + Text.byteLength (Token.textOf front) +
        Text.byteLength (Node.textOfAll nodes) + Node.byteLength (.leaf token)) rest) := by
  have hSemicolon : isSemicolon (.leaf token) = true := decide_eq_true hKind
  obtain ⟨-, hRest, hClosed⟩ := hFormed.of_append
  refine .intro front nodes (token :: Node.tokensOfAll rest) property selector
    (by simp [bodyReading, Node.tokensOfAll, Node.tokens]) hRaw
    ⟨false, hClosed (List.cons_ne_nil _ _)⟩ hFront (fun t ht => ?_) hValue
    fun raw' d' hRaw' hFormed' hValue' => ?_
  · obtain rfl : token = t := Option.some.inj ht
    exact .inl hKind
  · refine ⟨raw' ++ .leaf token :: rest, ofBody selector .idle (offset +
        Text.byteLength (Token.textOf front) + Text.byteLength (Node.textOfAll raw') +
        Node.byteLength (.leaf token)) rest, hFormed'.append hRest,
      by simp [bodyReading, Node.tokensOfAll, Node.tokens], ?_,
      content_ofBody (.outside .idle) rest selector _ _⟩
    simp only [bodyReading]
    rw [ofBody_raw_semicolon hRaw' hSemicolon, hValue', List.nil_append, List.singleton_append]

/-- A value behind the semicolon of another one. -/
theorem Exchangeable.behind_semicolon {property : Text} {token : Token} {rest : List Node}
    (hRaw : IsRaw nodes) (hKind : token.kind = .semicolon)
    (hNodes : Node.Formed false (some .curly) nodes)
    (h : Exchangeable (bodyReading unclosed selector .idle offset
      (front ++ (Node.tokensOfAll nodes ++ [token]))) offset rest earlier d later) :
    Exchangeable (bodyReading unclosed selector (.atValue property) offset front) offset
      (nodes ++ .leaf token :: rest) (ofRaw property selector
        (offset + Text.byteLength (Token.textOf front)) (Node.textOfAll nodes) ++ earlier) d
      later := by
  have hSemicolon : isSemicolon (.leaf token) = true := decide_eq_true hKind
  have hToken : Node.Formed false (some .curly) [.leaf token] :=
    .leaf (by simp [hKind]) (by simp [hKind]) .nil
  have hOuter : Exchangeable (bodyReading unclosed selector (.atValue property) offset front)
      offset (nodes ++ .leaf token :: rest) (ofRaw property selector
        (offset + Text.byteLength (Token.textOf front)) (Node.textOfAll nodes) ++ earlier) d
      (later ++ []) := by
    refine h.lift (nodes ++ .leaf token :: ·) [] [] _ [] rfl (fun n => ?_)
      (fun n hn => hNodes.append (hToken.append hn)) endsValue_nil
      fun n declarations hDeclarations => ⟨[], ?_, rfl⟩
    · simp [bodyReading, Node.tokensOfAll, Node.tokens]
    · simp only [bodyReading, Option.some.injEq] at hDeclarations ⊢
      rw [ofBody_raw_semicolon hRaw hSemicolon, offset_behind_semicolon, hDeclarations,
        List.append_nil]
  rwa [List.append_nil] at hOuter

theorem exchangeable_ofBody {state : BodyState} (hState : state.IsBetween) (nodes : List Node) :
    ∀ (unclosed : Bool) (selector : Text) (offset : Nat) (front : List Token)
      (earlier : List Declaration) (d : Declaration) (later : List Declaration),
      (∀ property, state = .atValue property → AfterColon front) →
      Node.Formed unclosed (some .curly) nodes →
      ofBody selector state (offset + Text.byteLength (Token.textOf front)) nodes =
        earlier ++ d :: later →
      Exchangeable (bodyReading unclosed selector state offset front) offset nodes earlier d later := by
  refine body_induction (motive := fun state nodes => ∀ unclosed selector offset front earlier d later,
    (∀ property, state = .atValue property → AfterColon front) →
    Node.Formed unclosed (some .curly) nodes →
    ofBody selector state (offset + Text.byteLength (Token.textOf front)) nodes =
      earlier ++ d :: later →
    Exchangeable (bodyReading unclosed selector state offset front) offset nodes earlier d later)
    ?_ ?_ ?_ ?_ state hState nodes
  · intro state hState unclosed selector offset front earlier d later _ _ hRead
    rw [ofBody_nil hState] at hRead
    simp at hRead
  · intro state node next nodes hPass ih unclosed selector offset front earlier d later hFront hFormed
      hRead
    have hNonempty : nodes ≠ [] := by
      rintro rfl
      rw [ofBody_pass hPass, ofBody_nil hPass.isBetween] at hRead
      simp at hRead
    have hSplit : Node.Formed unclosed (some .curly) ([node] ++ nodes) := hFormed
    obtain ⟨-, hNodes, hClosed⟩ := hSplit.of_append
    rw [ofBody_pass hPass, offset_behind_node] at hRead
    exact (ih unclosed selector offset (front ++ node.tokens) earlier d later
      (fun property hNext => by subst hNext; exact hPass.afterColon hFront) hNodes hRead).pass hPass
      (hClosed hNonempty)
  · intro property nodes hRaw unclosed selector offset front earlier d later hFront hFormed hRead
    rw [ofBody_raw hRaw] at hRead
    obtain ⟨rfl, rfl⟩ : earlier = [] ∧ later = [] := by
      rcases ofRaw_eq_nil_or property selector (offset + Text.byteLength (Token.textOf front))
        (Node.textOfAll nodes) with hNone | ⟨d', hOne⟩
      · rw [hNone] at hRead
        simp at hRead
      · rw [hOne] at hRead
        exact nil_of_singleton_eq hRead
    exact exchangeable_raw (hFront property rfl) hRaw hFormed hRead
  · intro property nodes semicolon rest hRaw hSemicolon ih unclosed selector offset front earlier d
      later hFront hFormed hRead
    obtain ⟨token, rfl, hKind⟩ := kind_of_isSemicolon hSemicolon
    rw [ofBody_raw_semicolon hRaw hSemicolon] at hRead
    -- Either the value is the one of `d`, or it is the value of an earlier declaration or of none.
    rcases value_or_later hRead with ⟨rfl, hValue, rfl⟩ | ⟨earlier', rfl, hLater⟩
    · exact exchangeable_raw_semicolon (hFront property rfl) hRaw hKind hFormed hValue
    · obtain ⟨-, hRest, hClosed⟩ := hFormed.of_append
      have hSplit : Node.Formed unclosed (some .curly) ([.leaf token] ++ rest) := hRest
      obtain ⟨-, hBehind, -⟩ := hSplit.of_append
      rw [offset_behind_semicolon] at hLater
      exact (ih unclosed selector offset (front ++ (Node.tokensOfAll nodes ++ [token])) earlier' d
        later (fun _ h => by cases h) hBehind hLater).behind_semicolon hRaw hKind
        (hClosed (List.cons_ne_nil _ _))

end Body

/-! ## Values of rules -/

def rulesReading (unclosed : Bool) (inside : Option Bracket) (context : List Text)
    (state : RuleState) (offset : Nat) : Reading where
  formed := Node.Formed unclosed inside
  tokens := Node.tokensOfAll
  read := ofRules context state offset

/-- A formed body can take the place of the body of a block that nodes begin with. What follows the
body ends a value. -/
theorem exists_body {unclosed : Bool} {inside : Option Bracket} {opener : Token} {body : List Node}
    {closer : Option Token} {nodes : List Node}
    (h : Node.Formed unclosed inside (.block .curly opener body closer :: nodes)) :
    ∃ u, Node.Formed u (some .curly) body ∧
      (∀ body', Node.Formed u (some .curly) body' →
        Node.Formed unclosed inside (.block .curly opener body' closer :: nodes)) ∧
      EndsValue (closer.toList ++ Node.tokensOfAll nodes) := by
  cases h with
  | block opens closes inner rest =>
    refine ⟨false, inner, fun body' hBody => .block opens closes hBody rest, fun t ht => ?_⟩
    obtain rfl := Option.some.inj ht
    exact .inr closes
  | unclosed opens inner =>
    exact ⟨true, inner, fun body' hBody => .unclosed opens hBody, endsValue_nil⟩

section Rules

variable {unclosed : Bool} {inside : Option Bracket} {context : List Text} {state next : RuleState}
  {offset : Nat} {nodes : List Node} {earlier later found more : List Declaration} {d : Declaration}

/-- A value behind the first node. -/
theorem Exchangeable.behind_node {node : Node} (hNode : Node.Formed false inside [node])
    (hFound : ofNode context state offset node = some (found, next))
    (h : Exchangeable (rulesReading unclosed inside context next (offset + node.byteLength))
      (offset + node.byteLength) nodes earlier d later) :
    Exchangeable (rulesReading unclosed inside context state offset) offset (node :: nodes)
      (found ++ earlier) d later := by
  have hOuter : Exchangeable (rulesReading unclosed inside context state offset) offset
      (node :: nodes) (found ++ earlier) d (later ++ []) := by
    refine h.lift (node :: ·) node.tokens [] found [] ?_ (fun n => ?_) (fun n hn => hNode.append hn)
      endsValue_nil fun n declarations hDeclarations => ⟨[], ?_, rfl⟩
    · rw [Node.byteLength, Node.text_eq_textOf]
    · simp [rulesReading, Node.tokensOfAll]
    · rw [List.append_nil]
      exact ofRules_cons_eq_some_iff.mpr ⟨found, next, declarations, hFound, hDeclarations, rfl⟩
  rwa [List.append_nil] at hOuter

/-- A value in the block that the first node is. -/
theorem Exchangeable.in_block {opener : Token} {body : List Node} {closer : Option Token}
    {reading : Reading}
    (hFormed : Node.Formed unclosed inside (.block .curly opener body closer :: nodes))
    (hTokens : reading.tokens = Node.tokensOfAll)
    (hBody : ∀ n, reading.formed n →
      Node.Formed unclosed inside (.block .curly opener n closer :: nodes))
    (hNode : ∀ n declarations, reading.read n = some declarations →
      ofNode context state offset (.block .curly opener n closer) = some (declarations, next))
    (hMore : ofRules context next (offset + Node.byteLength (.block .curly opener body closer))
      nodes = some more)
    (h : Exchangeable reading (offset + Text.byteLength opener.text) body earlier d later) :
    Exchangeable (rulesReading unclosed inside context state offset) offset
      (.block .curly opener body closer :: nodes) earlier d (later ++ more) := by
  obtain ⟨u, -, -, hEnds⟩ := exists_body hFormed
  refine h.lift (fun n => .block .curly opener n closer :: nodes) [opener]
    (closer.toList ++ Node.tokensOfAll nodes) [] more (by simp) (fun n => ?_) hBody hEnds
    fun n declarations hDeclarations => ?_
  · simp [rulesReading, Node.tokensOfAll, Node.tokens, hTokens]
  · obtain ⟨more', hMore', hContent⟩ := content_ofRules nodes context next _
      (offset + Node.byteLength (.block .curly opener n closer)) more hMore
    refine ⟨more', ?_, hContent⟩
    exact ofRules_cons_eq_some_iff.mpr
      ⟨declarations, next, more', hNode n declarations hDeclarations, hMore', rfl⟩

theorem exchangeable_ofRules (nodes : List Node) :
    ∀ (unclosed : Bool) (inside : Option Bracket) (context : List Text) (state : RuleState)
      (offset : Nat) (earlier : List Declaration) (d : Declaration) (later : List Declaration),
      Node.Formed unclosed inside nodes →
      ofRules context state offset nodes = some (earlier ++ d :: later) →
      Exchangeable (rulesReading unclosed inside context state offset) offset nodes earlier d later := by
  induction nodes using rules_induction with
  | nil =>
    intro unclosed inside context state offset earlier d later _ hRead
    cases state <;> simp [ofRules] at hRead
  | cons node nodes ihBody ihNodes =>
    intro unclosed inside context state offset earlier d later hFormed hRead
    obtain ⟨found, next, more, hFound, hMore, hAll⟩ := ofRules_cons_eq_some_iff.mp hRead
    rcases found_or_more hAll with ⟨earlier', rfl, rfl⟩ | ⟨later', rfl, rfl⟩
    · have hNonempty : nodes ≠ [] := by
        rintro rfl
        cases next <;> simp [ofRules] at hMore
      have hSplit : Node.Formed unclosed inside ([node] ++ nodes) := hFormed
      obtain ⟨-, hNodes, hClosed⟩ := hSplit.of_append
      exact (ihNodes unclosed inside context next (offset + node.byteLength) earlier' d later hNodes
        hMore).behind_node (hClosed hNonempty) hFound
    · generalize hEq : earlier ++ d :: later' = found at hFound
      cases nodeReading hFound with
      | nothing => simp at hEq
      | @body opener body closer _ selector step =>
        obtain ⟨u, hBody, hForm, -⟩ := exists_body hFormed
        have hInner := exchangeable_ofBody (.outside .idle) body u selector
          (offset + Text.byteLength opener.text) [] earlier d later' (fun _ h => by cases h) hBody
          hEq.symm
        refine hInner.in_block hFormed rfl hForm (fun n declarations hDeclarations => ?_) hMore
        rw [step offset n]
        simp only [bodyReading, Option.some.injEq] at hDeclarations
        rw [← hDeclarations]
        rfl
      | @rules opener body closer _ inner _ hRules step =>
        obtain ⟨u, hBody, hForm, -⟩ := exists_body hFormed
        have hInner := ihBody _ _ _ _ rfl u (some .curly) inner (.between true)
          (offset + Text.byteLength opener.text) earlier d later' hBody (by rw [hEq]; exact hRules)
        refine hInner.in_block hFormed rfl hForm (fun n declarations hDeclarations => ?_) hMore
        rw [step offset n]
        simp only [rulesReading] at hDeclarations
        rw [hDeclarations]
        rfl

end Rules

end Declaration

end DesignParams
