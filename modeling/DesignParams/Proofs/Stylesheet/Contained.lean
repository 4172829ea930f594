import DesignParams.Proofs.Stylesheet.Exchange
import DesignParams.Proofs.Stylesheet.Span

/-!
# Self-contained values

A value is self-contained when a rule of the root that gives it to one property says just that. Its
nodes then stand by themselves: they close what they open, and no semicolon ends them early.
-/
set_option autoImplicit false

namespace DesignParams

namespace Token

def rootTokens : List Token :=
  [⟨.colon, [':']⟩, ⟨.ident ['r', 'o', 'o', 't'], ['r', 'o', 'o', 't']⟩, ⟨.blank, [' ']⟩,
    ⟨.opener .curly, ['\x7B']⟩]

def propertyTokens (name : Text) : List Token :=
  [⟨.blank, ['\n', ' ', ' ']⟩, ⟨.ident name, name⟩, ⟨.colon, [':']⟩]

theorem cutBefore_rootTokens (r : Text) : CutBefore rootTokens r := by
  simp only [rootTokens, cutBefore_cons]
  refine ⟨leads_colon _, ?_, ?_, leads_opener .curly r, cutBefore_nil r⟩
  · refine leads_ident (by decide) ?_ ?_ (by simp)
    · simp only [List.mem_cons, List.not_mem_nil, or_false, forall_eq_or_imp, forall_eq]
      exact ⟨⟨by decide, by decide⟩, ⟨by decide, by decide⟩, ⟨by decide, by decide⟩,
        ⟨by decide, by decide⟩⟩
    · intro c hc
      obtain rfl : ' ' = c := Option.some.inj hc
      decide
  · exact leads_blank (List.cons_ne_nil _ _) rfl rfl

theorem cutBefore_propertyTokens {name : Text} (h : IsCustom name) (r : Text) :
    CutBefore (propertyTokens name) r := by
  obtain ⟨s, hName⟩ : ∃ s, name = '-' :: s := by
    obtain ⟨c, n, rfl, -⟩ := h
    exact ⟨_, rfl⟩
  simp only [propertyTokens, cutBefore_cons]
  refine ⟨leads_blank (List.cons_ne_nil _ _) rfl (by rw [hName]; rfl), ?_, leads_colon r, cutBefore_nil r⟩
  refine leads_customProperty h ?_ (by simp)
  intro d hd
  obtain rfl : ':' = d := Option.some.inj hd
  decide

end Token

namespace Declaration

def rootNodes (body : List Node) (closer : Option Token) : List Node :=
  [.leaf ⟨.colon, [':']⟩, .leaf ⟨.ident ['r', 'o', 'o', 't'], ['r', 'o', 'o', 't']⟩,
    .leaf ⟨.blank, [' ']⟩, .block .curly ⟨.opener .curly, ['\x7B']⟩ body closer]

theorem tokensOfAll_rootNodes (body : List Node) (closer : Option Token) :
    Node.tokensOfAll (rootNodes body closer) =
      Token.rootTokens ++ (Node.tokensOfAll body ++ closer.toList) := by
  simp [rootNodes, Token.rootTokens, Node.tokensOfAll, Node.tokens]

theorem ofRules_leaf (context : List Text) (state : RuleState) (offset : Nat) (t : Token)
    (nodes : List Node) :
    ofRules context state offset (.leaf t :: nodes) =
      ofRules context (state.onToken t) (offset + Text.byteLength t.text) nodes := by
  rw [ofRules, ofNode]
  simp [Node.byteLength, Node.text]

theorem ofRules_rootNodes (isFirst : Bool) (offset : Nat) (body : List Node) (closer : Option Token)
    (nodes : List Node) :
    ∃ start stop, ofRules [] (.between isFirst) offset (rootNodes body closer ++ nodes) =
      (ofRules [] (.between false) stop nodes).map
        (ofBody [':', 'r', 'o', 'o', 't'] .idle start body ++ ·) := by
  have hState : (((RuleState.between isFirst).onToken ⟨.colon, [':']⟩).onToken
      ⟨.ident ['r', 'o', 'o', 't'], ['r', 'o', 'o', 't']⟩).onToken ⟨.blank, [' ']⟩ =
        .inStyleRule [':', 'r', 'o', 'o', 't', ' '] := rfl
  have hSelector : inContext [] (normalizePrelude [':', 'r', 'o', 'o', 't', ' ']) =
      [':', 'r', 'o', 'o', 't'] := by
    decide +kernel
  simp only [rootNodes, List.cons_append, List.nil_append]
  rw [ofRules_leaf, ofRules_leaf, ofRules_leaf, hState, ofRules, ofNode, if_pos rfl]
  simp only [hSelector]
  exact ⟨_, _, rfl⟩

theorem ofBody_propertyTokens (selector name : Text) (offset : Nat) (nodes : List Node) :
    ∃ start, ofBody selector .idle offset ((Token.propertyTokens name).map Node.leaf ++ nodes) =
      ofBody selector (.atValue name) start nodes :=
  ⟨_, by simp only [Token.propertyTokens, List.map_cons, List.map_nil, List.cons_append,
    List.nil_append, ofBody, isIgnored, isSemicolon]; rfl⟩

/-! ## The only value behind a colon -/

theorem Laid.colon_mem {offset : Nat} {s : Text} {d : Declaration} (h : Laid offset s [d]) :
    ∃ gap behind, s = gap ++ (d.value ++ behind) ∧ ':' ∈ gap := by
  cases h with
  | @cons _ gap rest _ _ lead => exact ⟨gap, rest, rfl, lead.colon⟩

/-- Where the only value behind a colon can stand: there, or behind a colon of its own. -/
inductive OnlyValue (selector property : Text) (d : Declaration) : List Node → Prop
  | first {ignored : List Token} {raw after : List Node} {start : Nat}
      (ignores : ∀ t ∈ ignored, t.kind = .blank ∨ t.kind = .comment) (isRaw : IsRaw raw)
      (value : ofRaw property selector start (Node.textOfAll raw) = [d]) :
      OnlyValue selector property d (ignored.map Node.leaf ++ (raw ++ after))
  | later {nodes : List Node} {gap behind : Text}
      (text : Node.textOfAll nodes = gap ++ (d.value ++ behind)) (colon : ':' ∈ gap) :
      OnlyValue selector property d nodes

theorem onlyValue_of_idle {selector property : Text} {d : Declaration} {nodes : List Node}
    {offset : Nat} {rest : Text} (before : List Node)
    (hCut : Token.CutBefore (Node.tokensOfAll nodes) rest)
    (h : ofBody selector .idle offset nodes = [d]) :
    OnlyValue selector property d (before ++ nodes) := by
  have hLaid := laid_ofBody (.outside .idle) nodes selector offset [] rest (fun _ h => by cases h) hCut
  rw [Text.byteLength_nil, Nat.add_zero, h, List.nil_append] at hLaid
  obtain ⟨gap, behind, hText, hColon⟩ := hLaid.colon_mem
  have hAll : Node.textOfAll (before ++ nodes) =
      (Node.textOfAll before ++ gap) ++ (d.value ++ behind) := by
    rw [Node.textOfAll_append, hText, List.append_assoc]
  exact .later hAll (List.mem_append_right _ hColon)

theorem onlyValue_of_atValue {selector property : Text} {d : Declaration} (nodes : List Node)
    (offset : Nat) (rest : Text) (hCut : Token.CutBefore (Node.tokensOfAll nodes) rest)
    (h : ofBody selector (.atValue property) offset nodes = [d]) :
    OnlyValue selector property d nodes := by
  refine body_induction (motive := fun state nodes => ∀ offset, state = .atValue property →
    Token.CutBefore (Node.tokensOfAll nodes) rest → ofBody selector state offset nodes = [d] →
    OnlyValue selector property d nodes)
    ?_ ?_ ?_ ?_ (.atValue property) (.atValue property) nodes offset rfl hCut h
  · intro state hState offset _ _ hRead
    rw [ofBody_nil hState] at hRead
    cases hRead
  · intro state node next nodes hPass ih offset hState hCut hRead
    subst hState
    rw [ofBody_pass hPass] at hRead
    obtain ⟨-, hNodes⟩ := cutBefore_node hCut
    cases hPass with
    | outside before => cases before
    | semicolon => exact onlyValue_of_idle [node] hNodes hRead
    | ignored hIgnored =>
      cases node with
      | block => cases hIgnored
      | leaf t =>
        cases ih _ rfl hNodes hRead with
        | @first ignored raw after start ignores isRaw value =>
          have hIgnores : ∀ s ∈ t :: ignored, s.kind = .blank ∨ s.kind = .comment :=
            List.forall_mem_cons.mpr ⟨of_decide_eq_true hIgnored, ignores⟩
          exact .first hIgnores isRaw value
        | @later _ gap behind text colon =>
          have hAll : Node.textOfAll (.leaf t :: nodes) = (t.text ++ gap) ++ (d.value ++ behind) := by
            rw [Node.textOfAll, text, List.append_assoc]
            rfl
          exact .later hAll (List.mem_append_right _ colon)
  · intro property' nodes hRaw offset hState _ hRead
    obtain rfl := BodyState.atValue.inj hState
    rw [ofBody_raw hRaw] at hRead
    have hFirst := @OnlyValue.first selector property' d [] nodes [] offset (by simp) hRaw hRead
    simpa using hFirst
  · intro property' nodes semicolon more hRaw hSemicolon _ offset hState hCut hRead
    obtain rfl := BodyState.atValue.inj hState
    rw [ofBody_raw_semicolon hRaw hSemicolon] at hRead
    rcases @value_or_later _ _ _ _ _ [] [] _ hRead with ⟨-, hValue, -⟩ | ⟨earlier, hNil, hRest⟩
    · exact @OnlyValue.first _ _ d [] nodes (semicolon :: more) _ (by simp) hRaw hValue
    · obtain ⟨-, rfl⟩ := List.append_eq_nil_iff.mp hNil.symm
      rw [Node.tokensOfAll_append, Token.cutBefore_append] at hCut
      rw [← List.singleton_append, ← List.append_assoc]
      exact onlyValue_of_idle _ (cutBefore_node hCut.2).2 hRest

/-! ## Self-contained values -/

/-- Is the text, given to one property of the root, the value of just that property? -/
def SelfContained (v : Text) : Prop :=
  (structural? (":root \x7B\n  --x: ".toList ++ (v ++ ";\n\x7D".toList))).map
    (·.map fun d => (d.property, d.value)) = some [("--x".toList, v)]

instance (v : Text) : Decidable (SelfContained v) :=
  inferInstanceAs (Decidable (_ = _))

theorem leads_of_mem {tokens : List Token} {t : Token} {r : Text} (h : Token.CutBefore tokens r)
    (hr : r ≠ []) (ht : t ∈ tokens) : ∃ r', r' ≠ [] ∧ Token.Leads t r' := by
  induction tokens with
  | nil => cases ht
  | cons s tokens ih =>
    rw [Token.cutBefore_cons] at h
    rcases List.mem_cons.mp ht with rfl | ht
    · exact ⟨_, by simp [hr], h.1⟩
    · exact ih h.2 ht

theorem all_isBlank_of_ignored {ignored : List Token} {r : Text}
    (hKinds : ∀ t ∈ ignored, t.kind = .blank ∨ t.kind = .comment) (h : Token.CutBefore ignored r)
    (hr : r ≠ []) (hSlash : '/' ∉ Token.textOf ignored) :
    (Token.textOf ignored).all isBlank = true := by
  refine List.all_eq_true.mpr fun c hc => ?_
  obtain ⟨t, ht, hc⟩ := List.mem_flatMap.mp hc
  obtain ⟨r', hr', hLeads⟩ := leads_of_mem h hr ht
  rcases hKinds t ht with hKind | hKind
  · exact isBlank_of_isSpace (List.all_eq_true.mp (hLeads.blank hKind).1 c hc)
  · have hLast := List.mem_of_getLast? (hLeads.comment hKind hr').1
    exact absurd (List.mem_flatMap.mpr ⟨t, ht, hLast⟩) hSlash

/-- Nothing that a value is followed by stands in front of it as well. -/
theorem not_mem_of_eq {c : Char} {v gap behind : Text} (hOther : c ∉ [' ', ';', '\n', '\x7D'])
    (h : gap ++ (v ++ behind) = ' ' :: (v ++ [';', '\n', '\x7D'])) : c ∉ gap := by
  have hCount := congrArg (List.count c) h
  have hRest : List.count c [';', '\n', '\x7D'] = 0 :=
    List.count_eq_zero.mpr fun hMem => hOther (List.mem_cons_of_mem _ hMem)
  have hSpace : c ≠ ' ' := fun hc => hOther (hc ▸ List.mem_cons_self)
  rw [List.count_append, List.count_append, List.count_cons_of_ne hSpace.symm, List.count_append,
    hRest] at hCount
  rw [← List.count_eq_zero]
  omega

theorem head?_value {raw v : Text} (hValue : v = dropPriority (Text.trim raw)) (hNonempty : v ≠ []) :
    v.head?.any isBlank = false := by
  obtain ⟨tail, -, hRaw⟩ := exists_trailer raw
  have hJoined := Text.leadingBlank_append_trimStart raw
  rw [← hValue] at hRaw
  have hTrim : Text.trimStart raw = v ++ tail := List.append_cancel_left (hJoined.trans hRaw)
  have hHead := Text.head?_trimStart raw
  rw [hTrim] at hHead
  cases v with
  | nil => exact absurd rfl hNonempty
  | cons c v => exact hHead

theorem IsTrailer.eq_nil {tail behind : Text} (h : IsTrailer tail)
    (hSemicolon : (tail ++ behind).head? = some ';') : tail = [] := by
  cases tail with
  | nil => rfl
  | cons c tail =>
    obtain rfl : c = ';' := Option.some.inj hSemicolon
    generalize hAll : ';' :: tail = all at h
    cases h with
    | blank hBlank =>
      rw [← hAll, List.all_cons, Bool.and_eq_true] at hBlank
      exact absurd hBlank.1 (by decide)
    | @priority before inner word after hBefore =>
      cases before with
      | nil =>
        cases hAll
      | cons d before =>
        obtain rfl : ';' = d := (List.cons.inj hAll).1
        rw [List.all_cons, Bool.and_eq_true] at hBefore
        exact absurd hBefore.1 (by decide)

/-- White space in front of a value, and the space that stands there, are the same. -/
theorem eq_space_of_append {lead v behind rest : Text} (hLead : lead.all isBlank = true)
    (hNonempty : v ≠ []) (hHead : v.head?.any isBlank = false)
    (h : lead ++ (v ++ behind) = ' ' :: (v ++ rest)) : lead = [' '] ∧ behind = rest := by
  have hAny (s : Text) : (v ++ s).head?.any isBlank = false := by
    cases v with
    | nil => exact absurd rfl hNonempty
    | cons c v => exact hHead
  have hSpace : lead = [' '] := by
    rw [← Text.leadingBlank_append hLead (hAny behind), h]
    exact @Text.leadingBlank_append [' '] _ rfl (hAny rest)
  rw [hSpace] at h
  exact ⟨hSpace, List.append_cancel_left (List.cons.inj h).2⟩

/-- Tokens in front of a value that are passed over, and the white space it begins with. -/
theorem IsRaw.all_isBlank_lead {raw : List Node} (h : IsRaw raw) {ignored behind : List Token}
    {unclosed : Bool} {rest : Text} (hKinds : ∀ t ∈ ignored, t.kind = .blank ∨ t.kind = .comment)
    (hFormed : Node.Formed unclosed (some .curly) raw)
    (hIgnored : Token.CutBefore ignored
      (Token.textOf (Node.tokensOfAll raw ++ behind) ++ rest))
    (hCut : Token.CutBefore (Node.tokensOfAll raw) (Token.textOf behind ++ rest))
    (hSlash : '/' ∉ Token.textOf ignored) :
    (Token.textOf ignored ++ Text.leadingBlank (Node.textOfAll raw)).all isBlank = true := by
  obtain ⟨c, s, hFirst, -⟩ := h.not_isSpace hFormed hCut
  have hBehind : Token.textOf (Node.tokensOfAll raw ++ behind) ++ rest ≠ [] := by
    rw [Token.textOf_append, ← Node.textOfAll_eq_textOf, hFirst]
    exact List.cons_ne_nil _ _
  rw [List.all_append, all_isBlank_of_ignored hKinds hIgnored hBehind hSlash,
    Text.all_leadingBlank, Bool.and_self]

/-- A value begins with no space: the space in front of it is a token of its own. -/
theorem IsRaw.leadingBlank_eq_nil {raw : List Node} (h : IsRaw raw) {unclosed : Bool}
    {lead rest : Text} (hFormed : Node.Formed unclosed (some .curly) raw)
    (hCut : Token.CutBefore (Node.tokensOfAll raw) rest)
    (hLead : lead ++ Text.leadingBlank (Node.textOfAll raw) = [' ']) :
    Text.leadingBlank (Node.textOfAll raw) = [] := by
  have hSpace := h.head?_leadingBlank hFormed hCut
  cases hLeading : Text.leadingBlank (Node.textOfAll raw) with
  | nil => rfl
  | cons b more =>
    have hMem : b ∈ [' '] := by
      rw [← hLead, hLeading]
      exact List.mem_append_right _ List.mem_cons_self
    rw [hLeading, List.mem_singleton.mp hMem] at hSpace
    cases hSpace

structure Contained (v : Text) (raw : List Node) : Prop where
  isRaw : IsRaw raw
  formed : Node.Formed false (some .curly) raw
  text : Node.textOfAll raw = v
  cut : ∀ r, Token.CutBefore (Node.tokensOfAll raw) (';' :: r)
  nonempty : v ≠ []
  value : dropPriority (Text.trim v) = v

/-- The only value behind a colon, when what stands around it is a space and the end of a rule. -/
theorem contained_of_first {property selector v : Text} {start : Nat} {d : Declaration}
    {ignored : List Token} {raw after : List Node} {unclosed : Bool} {rest : Text}
    (hKinds : ∀ t ∈ ignored, t.kind = .blank ∨ t.kind = .comment) (hRaw : IsRaw raw)
    (hValue : ofRaw property selector start (Node.textOfAll raw) = [d]) (hd : d.value = v)
    (hFormed : Node.Formed unclosed (some .curly) (raw ++ after))
    (hClosed : rest ≠ [] → unclosed = false)
    (hCut : Token.CutBefore (ignored ++ (Node.tokensOfAll raw ++ Node.tokensOfAll after)) rest)
    (hText : Token.textOf ignored ++ (Node.textOfAll raw ++ (Node.textOfAll after ++ rest)) =
      ' ' :: (v ++ [';', '\n', '\x7D'])) : Contained v raw := by
  subst hd
  obtain ⟨hd, hNonempty, -⟩ := of_ofRaw_eq_singleton hValue
  obtain ⟨tail, hTail, hRawText⟩ := exists_trailer (Node.textOfAll raw)
  rw [← hd] at hRawText
  obtain ⟨hRawFormed, -, hRawClosed⟩ := hFormed.of_append
  rw [Token.cutBefore_append, Token.cutBefore_append] at hCut
  obtain ⟨hIgnoredCut, hRawCut, -⟩ := hCut
  have hGap : (Token.textOf ignored ++ Text.leadingBlank (Node.textOfAll raw)) ++
      (d.value ++ (tail ++ (Node.textOfAll after ++ rest))) =
        ' ' :: (d.value ++ [';', '\n', '\x7D']) := by
    rw [← hText]
    conv_rhs => rw [hRawText]
    simp only [List.append_assoc]
  -- What stands in front of the value is white space, and so it is the one space.
  have hSlash := not_mem_of_eq (c := '/') (by decide) hGap
  rw [List.mem_append, not_or] at hSlash
  have hBlank := hRaw.all_isBlank_lead hKinds hRawFormed hIgnoredCut hRawCut hSlash.1
  obtain ⟨hLead, hBehind⟩ := eq_space_of_append hBlank hNonempty (head?_value hd hNonempty) hGap
  have hTailNil : tail = [] := hTail.eq_nil (by rw [hBehind]; rfl)
  rw [hTailNil, List.nil_append] at hBehind
  have hLeadNil := hRaw.leadingBlank_eq_nil hRawFormed hRawCut hLead
  rw [hLeadNil, hTailNil, List.append_nil, List.nil_append] at hRawText
  refine ⟨hRaw, ?_, hRawText, fun r => ?_, hNonempty, ?_⟩
  · by_cases hAfter : after = []
    · rw [hAfter] at hBehind
      rw [hClosed (by rw [show rest = _ from hBehind]; simp)] at hRawFormed
      exact hRawFormed
    · exact hRawClosed hAfter
  · rw [← Node.textOfAll_eq_textOf, hBehind] at hRawCut
    exact Token.CutBefore.of_stop (s := []) (.inr (.inl rfl)) hRawCut r
  · rw [hRawText] at hd
    exact hd.symm

theorem kind_rootTokens :
    ∀ t ∈ Token.rootTokens.take 3, ∀ b, t.kind ≠ .opener b ∧ t.kind ≠ .closer b := by
  simp [Token.rootTokens]

theorem kind_propertyTokens (name : Text) :
    ∀ t ∈ Token.propertyTokens name, ∀ b, t.kind ≠ .opener b ∧ t.kind ≠ .closer b := by
  simp [Token.propertyTokens]

theorem exists_rootNodes {name s : Text} (hName : Token.IsCustom name) :
    ∃ nodes unclosed closer rest,
      Node.ofText (Token.textOf Token.rootTokens ++ (Token.textOf (Token.propertyTokens name) ++ s)) =
        rootNodes ((Token.propertyTokens name).map Node.leaf ++ nodes) closer ++ rest ∧
      Node.Formed unclosed (some .curly) nodes ∧
      (closer.toList ++ Node.tokensOfAll rest ≠ [] → unclosed = false) ∧
      Token.tokenize s = Node.tokensOfAll nodes ++ (closer.toList ++ Node.tokensOfAll rest) := by
  have hTokens : Node.tokensOfAll (Node.ofText (Token.textOf Token.rootTokens ++
      (Token.textOf (Token.propertyTokens name) ++ s))) ++ [] =
        Token.rootTokens.take 3 ++ (⟨.opener .curly, ['\x7B']⟩ ::
          (Token.propertyTokens name ++ Token.tokenize s)) := by
    rw [Node.tokensOfAll_ofText, Token.cutBefore_rootTokens, Token.cutBefore_propertyTokens hName,
      List.append_nil]
    rfl
  obtain ⟨nodes, hNodes, hFormed, hRest⟩ := Node.Formed.leaves_append (fun s hs => by cases hs)
    kind_rootTokens (Node.formed_ofTokens _) hTokens
  rw [List.append_nil] at hRest
  obtain ⟨unclosed, body, closer, rest, rfl, hBody, hInner, hCloses, hClosed⟩ := hFormed.block_cons hRest rfl
  obtain ⟨values, rfl, hValues, hTail⟩ := Node.Formed.leaves_append
    (fun s hs => ⟨.curly, hCloses s hs⟩) (kind_propertyTokens name) hBody hInner
  exact ⟨values, unclosed, closer, rest, hNodes, hValues, hClosed, hTail.symm⟩

theorem isCustom_x : Token.IsCustom ['-', '-', 'x'] := by
  refine ⟨'x', [], rfl, fun c hc => ?_⟩
  rw [List.mem_singleton.mp hc]
  exact ⟨by decide, by decide⟩

theorem text_around (v : Text) :
    ":root \x7B\n  --x: ".toList ++ (v ++ ";\n\x7D".toList) =
      Token.textOf Token.rootTokens ++ (Token.textOf (Token.propertyTokens ['-', '-', 'x']) ++
        ' ' :: (v ++ [';', '\n', '\x7D'])) := by
  have hLead : ":root \x7B\n  --x: ".toList =
      [':', 'r', 'o', 'o', 't', ' ', '\x7B', '\n', ' ', ' ', '-', '-', 'x', ':', ' '] := by decide
  have hEnd : ";\n\x7D".toList = [';', '\n', '\x7D'] := by decide
  rw [hLead, hEnd]
  rfl

theorem SelfContained.exists_contained {v : Text} (h : SelfContained v) : ∃ raw, Contained v raw := by
  obtain ⟨all, hRead, hAll⟩ := Option.map_eq_some_iff.mp h
  obtain ⟨declarations, hRules, rfl⟩ := Option.map_eq_some_iff.mp hRead
  obtain ⟨d, rfl⟩ : ∃ d, declarations = [d] := by
    have hLength := congrArg List.length hAll
    rw [located, List.length_map, List.length_map] at hLength
    exact List.length_eq_one_iff.mp hLength
  have hd : d.value = v := (Prod.mk.inj (List.cons.inj hAll).1).2
  obtain ⟨nodes, unclosed, closer, rest, hNodes, hFormed, hClosed, hTokens⟩ :=
    @exists_rootNodes _ (' ' :: (v ++ [';', '\n', '\x7D'])) isCustom_x
  obtain ⟨hText, hCut, hBehind⟩ := Token.cutBefore_of_tokenize hTokens
  obtain ⟨-, -, hRest⟩ := Token.cutBefore_of_tokenize hBehind
  -- The declaration is in the block or in a rule behind it.
  obtain ⟨start, stop, hRoot⟩ := ofRules_rootNodes true 0
    ((Token.propertyTokens ['-', '-', 'x']).map Node.leaf ++ nodes) closer rest
  rw [text_around, hNodes, hRoot] at hRules
  obtain ⟨more, hMore, hJoined⟩ := Option.map_eq_some_iff.mp hRules
  obtain ⟨start', hBody⟩ := ofBody_propertyTokens [':', 'r', 'o', 'o', 't'] ['-', '-', 'x'] start nodes
  rw [hBody] at hJoined
  rw [Token.textOf_append, ← Node.textOfAll_eq_textOf, ← Node.textOfAll_eq_textOf] at hText
  have hNoColon {front gap behind : Text} (hEq : front ++ (gap ++ (d.value ++ behind)) =
      ' ' :: (v ++ [';', '\n', '\x7D'])) (hColon : ':' ∈ gap) : False := by
    rw [hd, ← List.append_assoc] at hEq
    exact not_mem_of_eq (c := ':') (by decide) hEq (List.mem_append_right front hColon)
  rcases List.append_eq_singleton_iff.mp hJoined with ⟨-, rfl⟩ | ⟨hOnly, -⟩
  · have hCutRest : Token.CutBefore (Node.tokensOfAll rest) [] := by
      rw [Token.CutBefore, List.append_nil, hRest, Token.tokenize_nil, List.append_nil]
    obtain ⟨gap, behind, hGap, hColon⟩ :=
      (laid_ofRules rest [] (.between false) stop [] [d] hCutRest hMore).colon_mem
    rw [hGap, ← List.append_assoc] at hText
    exact (hNoColon hText.symm hColon).elim
  · cases onlyValue_of_atValue nodes start' _ hCut hOnly with
    | @first ignored raw after _ ignores isRaw value =>
      rw [Node.textOfAll_append, Node.textOfAll_append, Node.textOfAll_leaves] at hText
      rw [Node.tokensOfAll_append, Node.tokensOfAll_append, Node.tokensOfAll_leaves] at hCut
      refine ⟨raw, contained_of_first ignores isRaw value hd hFormed.of_append.2.1 ?_ hCut ?_⟩
      · intro hNonempty
        refine hClosed fun hNil => hNonempty ?_
        rw [hNil]
        rfl
      · rw [hText, Token.textOf_append, ← Node.textOfAll_eq_textOf]
        simp only [List.append_assoc]
    | @later _ gap behind text colon =>
      rw [text, List.append_assoc, List.append_assoc] at hText
      exact (@hNoColon [] gap _ hText.symm colon).elim

end Declaration

end DesignParams
