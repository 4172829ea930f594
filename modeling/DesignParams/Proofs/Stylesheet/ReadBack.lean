import DesignParams.Proofs.Stylesheet.Contained
import DesignParams.Proofs.Stylesheet.Parsed
import DesignParams.Proofs.Stylesheet.Reference
import DesignParams.Proofs.Stylesheet.Spacing
import DesignParams.Proofs.Text.Occurrence

/-!
# Sheets read back

A printed sheet is read back: each line gives its declaration and each item those inside it, behind
the headers of the at-rules around it. Each part is parsed into nodes first, whatever follows it,
and these nodes bring the reader from where the part begins to where it ends.
-/
set_option autoImplicit false

namespace DesignParams

namespace Sheet

open Declaration (BodyState RuleState ofBody ofRaw ofRules ofNode isIgnored isSemicolon
  contextEntry)
open Node (Parsed parsed_leaf parsed_leaves parsed_block textOfAll)

/-! ## Nodes that are passed over -/

inductive IsResting : BodyState → Prop
  | idle : IsResting .idle
  | named (property : Text) : IsResting (.named property)
  | atValue (property : Text) : IsResting (.atValue property)

section Ignored

variable {nodes : List Node} (h : ∀ node ∈ nodes, isIgnored node = true)

include h

theorem ofBody_ignored {state : BodyState} (hState : IsResting state) (selector : Text)
    (offset : Nat) (more : List Node) :
    ofBody selector state offset (nodes ++ more) =
      ofBody selector state (offset + Text.byteLength (textOfAll nodes)) more := by
  induction nodes generalizing offset with
  | nil => rfl
  | cons node nodes ih =>
    obtain ⟨hNode, hNodes⟩ := List.forall_mem_cons.mp h
    have hStep : ofBody selector state offset (node :: (nodes ++ more)) =
        ofBody selector state (offset + node.byteLength) (nodes ++ more) := by
      cases node with
      | block => cases hNode
      | leaf token =>
        rcases of_decide_eq_true hNode with hKind | hKind <;>
          cases hState <;> simp [ofBody, isIgnored, hKind]
    rw [List.cons_append, hStep, ih hNodes, textOfAll, Text.byteLength_append, Nat.add_assoc]
    rfl

theorem ofRules_ignored (context : List Text) (isFirst : Bool) (offset : Nat) (more : List Node) :
    ofRules context (.between isFirst) offset (nodes ++ more) =
      ofRules context (.between isFirst) (offset + Text.byteLength (textOfAll nodes)) more := by
  induction nodes generalizing offset with
  | nil => rfl
  | cons node nodes ih =>
    obtain ⟨hNode, hNodes⟩ := List.forall_mem_cons.mp h
    cases node with
    | block => cases hNode
    | leaf token =>
      have hState : (RuleState.between isFirst).onToken token = .between isFirst := by
        rcases of_decide_eq_true hNode with hKind | hKind <;> simp [RuleState.onToken, hKind]
      rw [List.cons_append, Declaration.ofRules_leaf, hState, ih hNodes, textOfAll,
        Text.byteLength_append, Nat.add_assoc]
      rfl

end Ignored

theorem not_isIgnored {s rest : Text} {node : Node} {nodes : List Node}
    (h : Parsed s (node :: nodes) rest) (hInner : IsInner node)
    (hHead : s.head?.any Token.isSpace = false) : isIgnored node = false := by
  cases hInner with
  | block => rfl
  | @leaf t hPiece =>
    have hLeads : Token.Leads t (Token.textOf (Node.tokensOfAll nodes) ++ rest) :=
      (Token.cutBefore_cons.mp h.cut).1
    obtain ⟨c, u, hText⟩ := List.exists_cons_of_ne_nil hLeads.text_ne_nil
    have hFirst : s.head? = some c := by
      rw [← h.text, textOfAll, Node.text, hText]
      rfl
    have hBlank : t.kind ≠ .blank := by
      intro hKind
      have hSpace := (hLeads.blank hKind).1
      rw [hText, List.all_cons, Bool.and_eq_true] at hSpace
      rw [hFirst] at hHead
      exact absurd hSpace.1 (by simpa using hHead)
    have hComment : t.kind ≠ .comment := by
      intro hKind
      rw [hKind] at hPiece
      cases hPiece
    simp [isIgnored, hBlank, hComment]

/-! ## Lines -/

theorem isPreludeChar_of_isValueChar {c : Char} (h : isValueChar c = true) :
    isPreludeChar c = true := by
  rw [isPreludeChar, h]
  rfl

theorem IsBalanced.mono {allowed allowed' : Char → Bool} {s : Text} (h : IsBalanced allowed s)
    (hMono : ∀ c, allowed c = true → allowed' c = true) : IsBalanced allowed' s := by
  have hAll {part : Text} (hPart : part.all allowed = true) : part.all allowed' = true :=
    List.all_eq_true.mpr fun c hc => hMono c (List.all_eq_true.mp hPart c hc)
  induction h with
  | plain h => exact .plain (hAll h)
  | parens h _ _ ihInside ihAfter => exact .parens (hAll h) ihInside ihAfter

theorem not_isSpace_head {s : Text} (hNonempty : s ≠ []) (h : s.head?.any isBlank = false)
    (rest : Text) : (s ++ rest).head?.any Token.isSpace = false := by
  obtain ⟨c, u, rfl⟩ := List.exists_cons_of_ne_nil hNonempty
  cases hSpace : Token.isSpace c with
  | false => simpa using hSpace
  | true =>
    have hBlank := isBlank_of_isSpace hSpace
    simp [hBlank] at h

theorem Value.head_isBlank (v : Value) (rest : Text) :
    (v.text ++ rest).head?.any isBlank = false := by
  obtain ⟨c, u, hText⟩ := List.exists_cons_of_ne_nil v.ne_nil
  have hHead := (Text.trim_eq_self_iff.mp v.trimmed).1
  rw [hText] at hHead ⊢
  exact hHead

theorem Value.head (v : Value) (rest : Text) :
    (v.text ++ rest).head?.any Token.isSpace = false :=
  not_isSpace_head v.ne_nil (Text.trim_eq_self_iff.mp v.trimmed).1 rest

theorem Blank.all_isBlank (b : Blank) : b.text.all isBlank = true :=
  List.all_eq_true.mpr fun c hc => isBlank_of_isSpace (List.all_eq_true.mp b.all c hc)

theorem ofRaw_value (selector : Text) (p : Property) (start : Nat) (v : Value) (behind : Blank) :
    ofRaw p.text selector start (v.text ++ behind.text) = [declared selector p start v] := by
  have hMark : '!' ∉ v.text := v.balanced.not_mem (by decide) (by decide) (by decide)
  have hValue : Declaration.dropPriority v.text = v.text := by
    rcases Declaration.exists_dropPriority_append v.text with h | ⟨before, inner, word, -, -, -, h⟩
    · exact h.symm
    · refine absurd ?_ hMark
      rw [h]
      simp
  have hTrim : Text.trim ([] ++ (v.text ++ behind.text)) = v.text :=
    Text.trim_append rfl behind.all_isBlank v.trimmed
  have hLead : Text.leadingBlank ([] ++ (v.text ++ behind.text)) = [] :=
    Text.leadingBlank_append rfl (v.head_isBlank behind.text)
  rw [List.nil_append] at hTrim hLead
  simp [ofRaw, declared, hTrim, hValue, v.ne_nil, hLead]

theorem Property.ne_nil (p : Property) : p.text ≠ [] := by
  intro hNil
  have hStart := p.start
  rw [hNil] at hStart
  cases hStart

theorem Property.head (p : Property) (rest : Text) :
    (p.text ++ rest).head?.any Token.isSpace = false := by
  obtain ⟨c, hHead, hLetter⟩ := Option.any_eq_true _ _ |>.mp p.start
  obtain ⟨n, hText⟩ := List.head?_eq_some_iff.mp hHead
  rw [hText]
  exact not_isSpace_head (List.cons_ne_nil c n) (not_isBlank_of_isAsciiLetter hLetter) rest

theorem isRaw_of_parsed {v : Value} {behind rest : Text} {raw : List Node}
    (h : Parsed (v.text ++ behind) raw rest) (hInner : ∀ node ∈ raw, IsInner node) :
    Declaration.IsRaw raw := by
  refine ⟨?_, fun node hNode => (hInner node hNode).not_isSemicolon⟩
  cases raw with
  | nil => exact absurd (List.append_eq_nil_iff.mp h.text.symm).1 v.ne_nil
  | cons node nodes =>
    exact ⟨node, nodes, rfl, not_isIgnored h (hInner node List.mem_cons_self) (v.head behind)⟩

theorem ofBody_name (selector name : Text) (offset : Nat) (nodes : List Node) :
    ofBody selector .idle offset (.leaf ⟨.ident name, name⟩ :: nodes) =
      ofBody selector (.named name) (offset + Text.byteLength name) nodes := by
  rw [ofBody]
  rfl

theorem ofBody_colon (selector name : Text) (offset : Nat) (nodes : List Node) :
    ofBody selector (.named name) offset (.leaf ⟨.colon, [':']⟩ :: nodes) =
      ofBody selector (.atValue name) (offset + Text.byteLength [':']) nodes := by
  simp only [ofBody, isIgnored, isSemicolon]
  rfl

theorem IsBalanced.append_blank {s : Text} (h : IsBalanced isValueChar s) (b : Blank) :
    IsBalanced isValueChar (s ++ b.text) := by
  have hBlank : b.text.all isValueChar = true :=
    List.all_eq_true.mpr fun c hc => by simp [isValueChar, List.all_eq_true.mp b.all c hc]
  induction h with
  | plain hAll => exact .plain (by rw [List.all_append, hAll, hBlank]; rfl)
  | parens hBefore inner _ _ ihAfter =>
    rw [List.append_assoc, List.cons_append, List.append_assoc, List.cons_append]
    exact .parens hBefore inner ihAfter

theorem LacksAddress.append_blank {s : Text} (h : LacksAddress s) (b : Blank) :
    LacksAddress (s ++ b.text) := by
  have hOpen : '(' ∉ Text.asciiLowered b.text := by
    intro hMem
    obtain ⟨c, hc, hLower⟩ := List.mem_map.mp hMem
    have hSpace := List.all_eq_true.mp b.all c hc
    simp only [Token.isSpace, Token.isNewline, Bool.or_eq_true, decide_eq_true_eq] at hSpace
    rcases hSpace with (rfl | rfl) | (rfl | rfl) | rfl <;> exact absurd hLower (by decide)
  intro hAddress
  rw [Text.asciiLowered, List.map_append] at hAddress
  exact h (@Text.infix_of_infix_append_of_last _ _ '(' "url".toList hAddress hOpen)

theorem Blank.head_cases (b : Blank) {rest : Text} {c : Char}
    (h : c ∈ (b.text ++ ':' :: rest).head?) : Token.isSpace c = true ∨ c = ':' := by
  have hAll := b.all
  cases hText : b.text with
  | nil =>
    rw [hText] at h
    exact .inr (Option.some.inj h).symm
  | cons d s =>
    rw [hText] at h hAll
    obtain rfl : d = c := Option.some.inj h
    rw [List.all_cons, Bool.and_eq_true] at hAll
    exact .inl hAll.1

theorem Blank.ends_colon (b : Blank) (rest : Text) :
    Token.EndsName (b.text ++ ':' :: rest) ∧ (b.text ++ ':' :: rest).head? ≠ some '(' := by
  constructor
  · intro c hc
    rcases b.head_cases hc with hSpace | rfl
    · obtain ⟨hName, hSlash, -⟩ := Declaration.isNameChar_eq_false_of_isSpace hSpace
      exact ⟨hName, hSlash⟩
    · decide
  · intro hOpen
    rcases b.head_cases hOpen with hSpace | hColon
    · cases hSpace
    · exact absurd hColon (by decide)

/-- A text that is parsed in front of a rest into nodes that give its declarations in the body of a
style rule, and then those of the nodes behind it. -/
def IsBody (s : Text) (declarations : Text → Nat → List Declaration) (rest : Text) : Prop :=
  ∃ nodes, Parsed s nodes rest ∧ ∀ selector offset more,
    ofBody selector .idle offset (nodes ++ more) =
      declarations selector offset ++ ofBody selector .idle (offset + Text.byteLength s) more

theorem isBody_nil (rest : Text) : IsBody [] (fun _ _ => []) rest :=
  ⟨[], Node.parsed_nil rest, fun _ _ _ => rfl⟩

theorem IsBody.append {s t rest : Text} {declarations declarations' : Text → Nat → List Declaration}
    (h : IsBody s declarations (t ++ rest)) (h' : IsBody t declarations' rest) :
    IsBody (s ++ t) (fun selector offset => declarations selector offset ++
      declarations' selector (offset + Text.byteLength s)) rest := by
  obtain ⟨front, hFront, hReadFront⟩ := h
  obtain ⟨behind, hBehind, hReadBehind⟩ := h'
  refine ⟨front ++ behind, hFront.append hBehind, fun selector offset more => ?_⟩
  rw [List.append_assoc, hReadFront, hReadBehind, Text.byteLength_append, Nat.add_assoc,
    List.append_assoc]

/-- Behind the colon of a declaration its value is read, up to the semicolon. -/
theorem exists_parsed_value (start : Blank) (v : Value) (stop : Blank) (rest : Text) :
    ∃ nodes, Parsed (start.text ++ (v.text ++ (stop.text ++ [';']))) nodes rest ∧
      ∀ (p : Property) selector offset more,
        ofBody selector (.atValue p.text) offset (nodes ++ more) =
          declared selector p (offset + Text.byteLength start.text) v ::
            ofBody selector .idle
              (offset + Text.byteLength (start.text ++ (v.text ++ (stop.text ++ [';'])))) more := by
  obtain ⟨raw, hRaw, hInner⟩ :=
    exists_balanced ((v.balanced.append_blank stop).mono fun _ => isPreludeChar_of_isValueChar)
      (v.lacksAddress.append_blank stop) (.inr (.inr (.inl rfl))) (by decide) rest
  have hSemicolon : Parsed [';'] [.leaf ⟨.semicolon, [';']⟩] rest :=
    parsed_leaf (by simp) (Token.leads_semicolon rest)
  have hSemicolonNode : isSemicolon (.leaf ⟨.semicolon, [';']⟩) = true := rfl
  obtain ⟨blanks, hBlanks, hIgnored⟩ :=
    @exists_blank start (v.text ++ stop.text ++ [';'] ++ rest) (by
      rw [List.append_assoc, List.append_assoc]
      exact v.head _)
  have hAll := hBlanks.append (hRaw.append hSemicolon)
  rw [List.append_assoc v.text] at hAll
  refine ⟨_, hAll, fun p selector offset more => ?_⟩
  have hStop : offset + Text.byteLength start.text + Text.byteLength (v.text ++ stop.text) +
      Node.byteLength (.leaf ⟨.semicolon, [';']⟩) =
        offset + Text.byteLength (start.text ++ (v.text ++ (stop.text ++ [';']))) := by
    simp only [Text.byteLength_append, Node.byteLength, Node.text]
    omega
  simp only [List.append_assoc, List.cons_append, List.nil_append]
  rw [ofBody_ignored hIgnored (.atValue _),
    Declaration.ofBody_raw_semicolon (isRaw_of_parsed hRaw hInner) hSemicolonNode, hRaw.text,
    ofRaw_value, hBlanks.text, hStop, List.singleton_append]

/-- A declaration, with white space around its colon and in front of its semicolon. -/
theorem isBody_declared (lead : Trivia) (p : Property) (gap start : Blank) (v : Value)
    (stop : Blank) (rest : Text) :
    let front := lead.print ++ (p.text ++ (gap.text ++ ':' :: start.text))
    IsBody (front ++ (v.text ++ (stop.text ++ [';'])))
      (fun selector offset => [declared selector p (offset + Text.byteLength front) v]) rest := by
  intro front
  -- The parts are parsed from the last one to the first, each in front of those behind it.
  obtain ⟨value, hValue, hRead⟩ := exists_parsed_value start v stop rest
  have hColon : Parsed [':'] [.leaf ⟨.colon, [':']⟩]
      (start.text ++ (v.text ++ (stop.text ++ [';'])) ++ rest) :=
    parsed_leaf (by simp) (Token.leads_colon _)
  obtain ⟨gaps, hGaps, hGapsIgnored⟩ := @exists_blank gap
    ([':'] ++ (start.text ++ (v.text ++ (stop.text ++ [';']))) ++ rest) rfl
  have hName : Parsed p.text [.leaf ⟨.ident p.text, p.text⟩]
      (gap.text ++ ([':'] ++ (start.text ++ (v.text ++ (stop.text ++ [';'])))) ++ rest) := by
    rw [List.append_assoc]
    obtain ⟨hEnd, hCall⟩ := gap.ends_colon (start.text ++ (v.text ++ (stop.text ++ [';'])) ++ rest)
    exact parsed_property p hEnd hCall
  obtain ⟨ahead, hAhead, hAheadIgnored⟩ := @exists_trivia lead
    (p.text ++ (gap.text ++ ([':'] ++ (start.text ++ (v.text ++ (stop.text ++ [';']))))) ++ rest) (by
      rw [List.append_assoc]
      exact p.head _)
  have hAll := hAhead.append (hName.append (hGaps.append (hColon.append hValue)))
  have hText : lead.print ++ (p.text ++ (gap.text ++ ([':'] ++
      (start.text ++ (v.text ++ (stop.text ++ [';'])))))) =
        front ++ (v.text ++ (stop.text ++ [';'])) := by
    simp [front]
  refine ⟨_, hText ▸ hAll, fun selector offset more => ?_⟩
  simp only [List.append_assoc, List.cons_append, List.nil_append]
  rw [ofBody_ignored hAheadIgnored .idle, ofBody_name, ofBody_ignored hGapsIgnored (.named _),
    ofBody_colon, hRead, hAhead.text, hGaps.text]
  have hStart : offset + Text.byteLength lead.print + Text.byteLength p.text +
      Text.byteLength gap.text + Text.byteLength [':'] + Text.byteLength start.text =
        offset + Text.byteLength front := by
    simp only [front, Text.byteLength_append, Text.byteLength_cons, Text.byteLength_nil]
    omega
  have hStop : offset + Text.byteLength lead.print + Text.byteLength p.text +
      Text.byteLength gap.text + Text.byteLength [':'] +
      Text.byteLength (start.text ++ (v.text ++ (stop.text ++ [';']))) =
        offset + Text.byteLength (front ++ (v.text ++ (stop.text ++ [';']))) := by
    rw [Text.byteLength_append start.text, Text.byteLength_append front]
    omega
  rw [hStart, hStop]

theorem isBody_line (l : Line) (rest : Text) :
    IsBody l.print (fun selector offset => [l.declaration selector offset]) rest := by
  have h := isBody_declared l.lead l.property ⟨[], rfl⟩ ⟨[' '], rfl⟩ l.value ⟨[], rfl⟩ rest
  have hPrint : l.lead.print ++ (l.property.text ++ ([] ++ ':' :: [' '])) ++
      (l.value.text ++ ([] ++ [';'])) = l.print := by
    simp [Line.print]
  exact hPrint ▸ h

theorem isBody_lines (lines : List Line) (rest : Text) :
    IsBody (printLines lines) (fun selector offset => lineDeclarations selector offset lines)
      rest := by
  induction lines with
  | nil => exact isBody_nil rest
  | cons l lines ih => exact (isBody_line l _).append ih

/-- The body of a style rule is parsed, and its nodes give the declarations in it. -/
theorem IsBody.exists_parsed {s rest : Text} {declarations : Text → Nat → List Declaration}
    (tail : Trivia) (h : IsBody s declarations (tail.print ++ '\x7D' :: rest)) :
    ∃ nodes, Parsed (s ++ tail.print) nodes ('\x7D' :: rest) ∧ ∀ selector offset,
      ofBody selector .idle offset nodes = declarations selector offset := by
  obtain ⟨front, hFront, hRead⟩ := h
  obtain ⟨behind, hBehind, hIgnored⟩ := @exists_trivia tail ('\x7D' :: rest) rfl
  refine ⟨front ++ behind, hFront.append hBehind, fun selector offset => ?_⟩
  have hTail := ofBody_ignored hIgnored .idle selector (offset + Text.byteLength s) []
  rw [List.append_nil] at hTail
  rw [hRead, hTail, ofBody, List.append_nil]
  rintro _ _ _ ⟨⟩

/-! ## Selectors and headers -/

inductive IsGathering : RuleState → Prop
  | atRule (name prelude : Text) : IsGathering (.inAtRule name prelude)
  | styleRule (prelude : Text) : IsGathering (.inStyleRule prelude)

theorem IsGathering.onText_nil {state : RuleState} (h : IsGathering state) : state.onText [] = state := by
  cases h <;> simp [RuleState.onText]

theorem IsGathering.onText {state : RuleState} (h : IsGathering state) (s : Text) :
    IsGathering (state.onText s) ∧ ∀ t, (state.onText s).onText t = state.onText (s ++ t) := by
  cases h with
  | atRule name prelude => exact ⟨.atRule _ _, fun t => by simp [RuleState.onText]⟩
  | styleRule prelude => exact ⟨.styleRule _, fun t => by simp [RuleState.onText]⟩

theorem IsGathering.ofNode {state : RuleState} (h : IsGathering state) (context : List Text)
    (offset : Nat) {node : Node} (hInner : IsInner node) :
    Declaration.ofNode context state offset node = some ([], state.onText node.text) := by
  cases hInner with
  | block => cases h <;> rfl
  | @leaf t hPiece =>
    have hKind : t.kind ≠ .semicolon := by
      intro hSemicolon
      rw [hSemicolon] at hPiece
      cases hPiece
    cases h <;> simp [Declaration.ofNode, RuleState.onToken, RuleState.onText, hKind, Node.text]

theorem IsGathering.ofRules {state : RuleState} (h : IsGathering state) {nodes : List Node}
    (hInner : ∀ node ∈ nodes, IsInner node) (context : List Text) (offset : Nat) (more : List Node) :
    ofRules context state offset (nodes ++ more) =
      Declaration.ofRules context (state.onText (textOfAll nodes))
        (offset + Text.byteLength (textOfAll nodes)) more := by
  induction nodes generalizing state offset with
  | nil =>
    rw [textOfAll, h.onText_nil]
    rfl
  | cons node nodes ih =>
    obtain ⟨hNode, hNodes⟩ := List.forall_mem_cons.mp hInner
    obtain ⟨hNext, hText⟩ := h.onText node.text
    rw [List.cons_append, Declaration.ofRules, h.ofNode context offset hNode]
    simp only [List.nil_append, Option.map_id_fun', id_eq]
    rw [ih hNext hNodes, hText, textOfAll, Text.byteLength_append, Nat.add_assoc]
    rfl

theorem isPreludeChar_of_isSelectorChar {c : Char} (h : isSelectorChar c = true) :
    isPreludeChar c = true := by
  simp only [isSelectorChar, isPreludeChar, isValueChar, Bool.or_eq_true, List.contains_iff_mem,
    List.mem_cons, List.not_mem_nil, or_false, decide_eq_true_eq] at h ⊢
  tauto

theorem Selector.ne_nil (selector : Selector) : selector.text ≠ [] := by
  intro hNil
  have hStart := selector.start
  rw [hNil] at hStart
  cases hStart

theorem Selector.head (selector : Selector) (rest : Text) :
    (selector.text ++ rest).head?.any Token.isSpace = false := by
  obtain ⟨c, hHead, hc⟩ := Option.any_eq_true _ _ |>.mp selector.start
  refine not_isSpace_head selector.ne_nil ?_ rest
  rw [hHead, Option.any_some]
  simp only [Bool.or_eq_true, List.contains_iff_mem, List.mem_cons, List.not_mem_nil,
    or_false] at hc
  rcases hc with hLetter | rfl | rfl | rfl
  · exact not_isBlank_of_isAsciiLetter hLetter
  all_goals decide

/-- A text in front of a rest that brings the reader from between two rules into a state. -/
def Enters (s : Text) (state : RuleState) (rest : Text) : Prop :=
  ∃ nodes, Parsed s nodes rest ∧ ∀ context isFirst offset more,
    ofRules context (.between isFirst) offset (nodes ++ more) =
      ofRules context state (offset + Text.byteLength s) more

theorem Enters.behind {s rest : Text} {state : RuleState} (h : Enters s state rest) (lead : Trivia)
    (hHead : (s ++ rest).head?.any Token.isSpace = false) : Enters (lead.print ++ s) state rest := by
  obtain ⟨nodes, hNodes, hRead⟩ := h
  obtain ⟨front, hFront, hIgnored⟩ := exists_trivia lead hHead
  refine ⟨front ++ nodes, hFront.append hNodes, fun context isFirst offset more => ?_⟩
  rw [List.append_assoc, ofRules_ignored hIgnored, hRead, hFront.text, Text.byteLength_append,
    Nat.add_assoc]

theorem enters_selector (selector : Selector) (rest : Text) :
    Enters selector.text (.inStyleRule selector.text) ('\x7B' :: rest) := by
  have hAll : selector.text.all isPreludeChar = true :=
    List.all_eq_true.mpr fun c hc =>
      isPreludeChar_of_isSelectorChar (List.all_eq_true.mp selector.all c hc)
  obtain ⟨tokens, hPieces⟩ := exists_plainPieces (.inr (.inr (.inr rfl))) (by decide) hAll rest
  refine ⟨tokens.map .leaf, hPieces.parsed, fun context isFirst offset more => ?_⟩
  cases tokens with
  | nil => exact absurd hPieces.text.symm selector.ne_nil
  | cons t tokens =>
    obtain ⟨hKind, hKinds⟩ := List.forall_mem_cons.mp hPieces.kinds
    have hHead := selector.head []
    rw [List.append_nil] at hHead
    -- Only white space would leave the reader between two rules.
    have hFirst : (RuleState.between isFirst).onToken t = .inStyleRule t.text := by
      have hShown := not_isIgnored hPieces.parsed (.leaf hKind) hHead
      obtain ⟨kind, text⟩ := t
      cases hKind with
      | blank => cases hShown
      | _ => rfl
    rw [List.map_cons, List.cons_append, Declaration.ofRules_leaf, hFirst,
      (IsGathering.styleRule t.text).ofRules (isInner_leaves hKinds), Node.textOfAll_leaves,
      ← hPieces.text, Token.textOf_cons, Text.byteLength_append, Nat.add_assoc]
    rfl

theorem endsName_append_wall {s : Text} (h : Token.EndsName s) {w : Char} (hw : IsWall w)
    (rest : Text) : Token.EndsName (s ++ w :: rest) := by
  cases s with
  | nil =>
    intro c hc
    obtain rfl : w = c := Option.some.inj hc
    exact ⟨hw.isNameChar, hw.ne.1⟩
  | cons d s => exact h

theorem Prelude.endsName (prelude : Prelude) : Token.EndsName prelude.text := by
  intro c hc
  have hSpace := prelude.gap
  rw [Option.mem_def.mp hc] at hSpace
  obtain ⟨hName, hSlash, -⟩ := Declaration.isNameChar_eq_false_of_isSpace hSpace
  exact ⟨hName, hSlash⟩

theorem enters_header (name : AtName) {prelude : Text}
    (hBalanced : IsBalanced isPreludeChar prelude) (hAddress : LacksAddress prelude)
    (hEnd : Token.EndsName prelude) {w : Char} (hWall : IsWall w) (hClosed : w ≠ '(')
    (rest : Text) :
    Enters ('@' :: (name.text ++ prelude)) (.inAtRule name.text prelude) (w :: rest) := by
  obtain ⟨nodes, hNodes, hInner⟩ := exists_balanced hBalanced hAddress hWall hClosed rest
  have hKeyword := parsed_atKeyword name (endsName_append_wall hEnd hWall rest)
  refine ⟨_, hKeyword.append hNodes, fun context isFirst offset more => ?_⟩
  have hFirst : (RuleState.between isFirst).onToken ⟨.atKeyword name.text, '@' :: name.text⟩ =
      .inAtRule name.text [] := by
    simp only [RuleState.onToken]
    rw [name.ne_charset]
    simp
  rw [List.append_assoc, List.singleton_append, Declaration.ofRules_leaf, hFirst,
    (IsGathering.atRule name.text []).ofRules hInner, hNodes.text, ← List.cons_append,
    Text.byteLength_append, Nat.add_assoc]
  rfl

/-! ## Rules -/

/-- Nodes that give these declarations inside at-rules with these headers, whether they are the
first ones there or not: a list of items may be empty, and then leaves the reader where it was. -/
def Gives (headers : List Text) (offset : Nat) (nodes : List Node)
    (declarations : List Declaration) : Prop :=
  ∀ isFirst, ofRules (headers.map oneSpaced) (.between isFirst) offset nodes = some declarations

/-- A text that is parsed in front of a rest into nodes that give its declarations, and then those
of the nodes behind it. -/
def IsRead (s : Text) (declarations : List Text → Nat → List Declaration) (rest : Text) : Prop :=
  ∃ nodes, Parsed s nodes rest ∧ ∀ headers offset more found,
    Gives headers (offset + Text.byteLength s) more found →
      Gives headers offset (nodes ++ more) (declarations headers offset ++ found)

theorem isRead_nil (rest : Text) : IsRead [] (fun _ _ => []) rest :=
  ⟨[], Node.parsed_nil rest, fun _ _ _ _ h => h⟩

theorem IsRead.append {s t rest : Text} {declarations declarations' : List Text → Nat → List Declaration}
    (h : IsRead s declarations (t ++ rest)) (h' : IsRead t declarations' rest) :
    IsRead (s ++ t) (fun headers offset => declarations headers offset ++
      declarations' headers (offset + Text.byteLength s)) rest := by
  obtain ⟨front, hFront, hGivesFront⟩ := h
  obtain ⟨behind, hBehind, hGivesBehind⟩ := h'
  refine ⟨front ++ behind, hFront.append hBehind, fun headers offset more found hMore => ?_⟩
  rw [Text.byteLength_append, ← Nat.add_assoc] at hMore
  rw [List.append_assoc, List.append_assoc]
  exact hGivesFront _ _ _ _ (hGivesBehind _ _ _ _ hMore)

theorem IsRead.tail {s rest : Text} {declarations : List Text → Nat → List Declaration} (t : Trivia)
    (h : IsRead s declarations (t.print ++ rest)) (hRest : rest.head?.any Token.isSpace = false) :
    IsRead (s ++ t.print) declarations rest := by
  obtain ⟨nodes, hNodes, hRead⟩ := h
  obtain ⟨behind, hBehind, hIgnored⟩ := exists_trivia t hRest
  refine ⟨nodes ++ behind, hNodes.append hBehind, fun headers offset more found hMore => ?_⟩
  rw [List.append_assoc]
  refine hRead headers offset _ found fun isFirst => ?_
  rw [ofRules_ignored hIgnored, hBehind.text, Nat.add_assoc, ← Text.byteLength_append]
  exact hMore isFirst

theorem parsed_curly {s rest : Text} {nodes : List Node} (h : Parsed s nodes ('\x7D' :: rest)) :
    Parsed ('\x7B' :: (s ++ ['\x7D'])) [.block .curly ⟨.opener .curly, ['\x7B']⟩ nodes
      (some ⟨.closer .curly, ['\x7D']⟩)] rest :=
  @parsed_block .curly ⟨.opener .curly, ['\x7B']⟩ s rest nodes rfl (Token.leads_opener .curly _) h

theorem isRead_block (declarations : List Text → Nat → List Declaration) {front s rest : Text}
    {state : RuleState} {body : List Node}
    (hFront : Enters front state ('\x7B' :: (s ++ ['\x7D']) ++ rest))
    (hBody : Parsed s body ('\x7D' :: rest))
    (hBlock : ∀ headers offset, ofNode (headers.map oneSpaced) state offset
      (.block .curly ⟨.opener .curly, ['\x7B']⟩ body (some ⟨.closer .curly, ['\x7D']⟩)) =
        some (declarations headers (offset + Text.byteLength ['\x7B']), .between false)) :
    IsRead (front ++ '\x7B' :: (s ++ ['\x7D']))
      (fun headers offset => declarations headers (offset + Text.byteLength (front ++ ['\x7B'])))
      rest := by
  have hCurly := parsed_curly hBody
  obtain ⟨nodes, hNodes, hState⟩ := hFront
  refine ⟨_, hNodes.append hCurly, fun headers offset more found hMore isFirst => ?_⟩
  have hEnd := hMore false
  rw [Text.byteLength_append, ← Nat.add_assoc, ← hCurly.text, textOfAll, textOfAll,
    List.append_nil] at hEnd
  rw [List.append_assoc, hState]
  refine Declaration.ofRules_cons_eq_some_iff.mpr ⟨_, _, found, hBlock headers _, hEnd, ?_⟩
  rw [Text.byteLength_append, Nat.add_assoc]

theorem isRead_style (lead : Trivia) (selector : Selector) {s rest : Text} {body : List Node}
    {declarations : Text → Nat → List Declaration} (hBody : Parsed s body ('\x7D' :: rest))
    (hRead : ∀ selector offset, ofBody selector .idle offset body = declarations selector offset) :
    IsRead (lead.print ++ (selector.text ++ '\x7B' :: (s ++ ['\x7D'])))
      (fun headers offset => declarations (selectorIn headers selector.text)
        (offset + Text.byteLength (lead.print ++ (selector.text ++ ['\x7B'])))) rest := by
  have hHead := selector.head ('\x7B' :: (s ++ ['\x7D']) ++ rest)
  have hFront := (enters_selector selector _).behind lead hHead
  have hBlock (headers : List Text) (offset : Nat) :
      ofNode (headers.map oneSpaced) (.inStyleRule selector.text) offset
        (.block .curly ⟨.opener .curly, ['\x7B']⟩ body (some ⟨.closer .curly, ['\x7D']⟩)) =
          some (declarations (selectorIn headers selector.text)
            (offset + Text.byteLength ['\x7B']), .between false) := by
    rw [ofNode, if_pos rfl]
    simp only [inContext_selector, hRead]
  have hRule := isRead_block
    (fun headers offset => declarations (selectorIn headers selector.text) offset)
    hFront hBody hBlock
  simp only [List.append_assoc] at hRule
  exact hRule

/-- The entry is what the rules inside see of the header. -/
theorem isRead_group (lead : Trivia) (name : AtName) {prelude entry s rest : Text}
    {declarations : List Text → Nat → List Declaration}
    (hEnters : Enters ('@' :: (name.text ++ prelude)) (.inAtRule name.text prelude)
      ('\x7B' :: (s ++ ['\x7D']) ++ rest))
    (hEntry : contextEntry name.text prelude = oneSpaced entry)
    (h : IsRead s declarations ('\x7D' :: rest)) :
    IsRead (lead.print ++ ('@' :: (name.text ++ prelude) ++ '\x7B' :: (s ++ ['\x7D'])))
      (fun headers offset => if Text.asciiLowered name.text ∈ skippedNames then []
        else declarations (headers ++ [entry])
          (offset + Text.byteLength (lead.print ++ ('@' :: (name.text ++ prelude) ++ ['\x7B']))))
      rest := by
  obtain ⟨body, hBody, hItems⟩ := h
  have hFront := hEnters.behind lead rfl
  have hBlock (headers : List Text) (offset : Nat) :
      ofNode (headers.map oneSpaced) (.inAtRule name.text prelude) offset
        (.block .curly ⟨.opener .curly, ['\x7B']⟩ body (some ⟨.closer .curly, ['\x7D']⟩)) =
          some (if Text.asciiLowered name.text ∈ skippedNames then []
            else declarations (headers ++ [entry]) (offset + Text.byteLength ['\x7B']),
              .between false) := by
    rw [ofNode, if_pos rfl]
    by_cases hSkipped : Text.asciiLowered name.text ∈ skippedNames
    · simp only [isSkippedAtRule_iff.mpr hSkipped, if_pos hSkipped, if_true]
    · have hKept : Declaration.isSkippedAtRule name.text = false := by
        simpa using mt isSkippedAtRule_iff.mp hSkipped
      have hRules := hItems (headers ++ [entry]) (offset + Text.byteLength ['\x7B']) [] []
        (fun _ => rfl) true
      rw [List.map_append, List.append_nil, List.append_nil] at hRules
      simp only [hKept, if_neg hSkipped, hEntry, Bool.false_eq_true, if_false]
      exact congrArg (Option.map (·, RuleState.between false)) hRules
  have hRule := isRead_block (fun headers offset =>
    if Text.asciiLowered name.text ∈ skippedNames then []
    else declarations (headers ++ [entry]) offset) hFront hBody hBlock
  simp only [List.append_assoc] at hRule
  exact hRule

theorem isRead_statement (lead : Trivia) (name : AtName) (prelude : Prelude) (rest : Text) :
    IsRead (printItem (.statement lead name prelude)) (fun _ _ => []) rest := by
  have hWall : IsWall ';' := .inr (.inr (.inl rfl))
  have hEnters : Enters (header name prelude) (.inAtRule name.text prelude.text) (';' :: rest) :=
    enters_header name prelude.balanced prelude.lacksAddress prelude.endsName hWall (by decide) rest
  obtain ⟨nodes, hNodes, hRead⟩ := hEnters.behind lead rfl
  have hSemicolon : Parsed [';'] [.leaf ⟨.semicolon, [';']⟩] rest :=
    parsed_leaf (by simp) (Token.leads_semicolon rest)
  rw [printItem, ← List.append_assoc]
  refine ⟨_, hNodes.append hSemicolon, fun headers offset more found hMore isFirst => ?_⟩
  rw [Text.byteLength_append, ← Nat.add_assoc] at hMore
  rw [List.append_assoc, hRead, List.singleton_append, Declaration.ofRules_leaf]
  exact hMore false

mutual

theorem isRead_item (item : Item) (rest : Text) :
    IsRead (printItem item) (fun headers offset => itemDeclarations headers offset item) rest := by
  cases item with
  | style lead selector lines tail =>
    obtain ⟨body, hBody, hLines⟩ := (isBody_lines lines _).exists_parsed tail
    have hStyle := isRead_style lead selector hBody hLines
    simp only [List.append_assoc] at hStyle
    simp only [printItem, itemDeclarations]
    exact hStyle
  | group lead name prelude items tail =>
    have hItems := isRead_items items (tail.print ++ '\x7D' :: rest)
    have hWall : IsWall '\x7B' := .inr (.inr (.inr rfl))
    have hEnters := enters_header name prelude.balanced prelude.lacksAddress prelude.endsName hWall
      (by decide)
    have hGroup :=
      isRead_group lead name (hEnters _) (contextEntry_header name prelude) (hItems.tail tail rfl)
    simp only [List.append_assoc] at hGroup
    simp only [printItem, itemDeclarations]
    exact hGroup
  | statement lead name prelude => exact isRead_statement lead name prelude rest

theorem isRead_items (items : List Item) (rest : Text) :
    IsRead (printItems items) (fun headers offset => itemsDeclarations headers offset items) rest := by
  cases items with
  | nil => exact isRead_nil rest
  | cons item items => exact (isRead_item item _).append (isRead_items items rest)

end

/-- A printed sheet is read as what it declares. -/
theorem structural?_print (sheet : Sheet) :
    Declaration.structural? sheet.print = some sheet.declarations := by
  have hItems := isRead_items sheet.items (sheet.tail.print ++ [])
  obtain ⟨nodes, hNodes, hRead⟩ := hItems.tail sheet.tail rfl
  have hRules := hRead [] 0 [] [] (fun _ => rfl) true
  rw [List.append_nil, List.append_nil] at hRules
  have hTree : Node.ofText sheet.print = nodes := Node.ofText_of_parsed hNodes
  rw [Declaration.structural?, hTree, declarations]
  exact congrArg (Option.map (Declaration.located sheet.print)) hRules

end Sheet

end DesignParams
