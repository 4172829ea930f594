import DesignParams.Proofs.Stylesheet.Reference
import DesignParams.Proofs.Stylesheet.Span

/-!
# Reading a splice

A splice is read as the stylesheet it was made from, but for the values that gave way. One value is
exchanged at a time, the last one first, so that the spans still to come are those of the stylesheet.
-/
set_option autoImplicit false

namespace DesignParams

namespace Declaration

/-- The declarations of a stylesheet behind its first rule, unless a rule lacks its block. -/
def readBehind (css : Text) : Option (List Declaration) :=
  ofRules [] (.between false) 0 (Node.ofText css)

/-! ## The tokens around a value -/

theorem cutBefore_ignored {ignored : List Token} {r r' : Text}
    (hKinds : ∀ t ∈ ignored, t.kind = .blank ∨ t.kind = .comment) (h : Token.CutBefore ignored r)
    (hr : r ≠ []) (hSpace : r'.head?.any Token.isSpace = false) : Token.CutBefore ignored r' := by
  induction ignored with
  | nil => exact Token.cutBefore_nil _
  | cons t ignored ih =>
    rw [List.forall_mem_cons] at hKinds
    rw [Token.cutBefore_cons] at h ⊢
    refine ⟨?_, ih hKinds.2 h.2⟩
    rcases hKinds.1 with hKind | hKind
    · obtain ⟨hAll, hHead⟩ := h.1.blank hKind
      have hText := h.1.text_ne_nil
      obtain ⟨kind, text⟩ := t
      obtain rfl : kind = .blank := hKind
      refine Token.leads_blank hText hAll ?_
      cases hIgnored : Token.textOf ignored with
      | nil => exact hSpace
      | cons c s =>
        rw [hIgnored] at hHead
        exact hHead
    · exact (h.1.comment hKind (by simp [hr])).2 _

/-- What stands in front of a value is cut there, whatever the value is. -/
theorem AfterColon.cutBefore {before : List Token} {r r' : Text} (hColon : AfterColon before)
    (h : Token.CutBefore before r) (hr : r ≠ []) (hSpace : r'.head?.any Token.isSpace = false) :
    Token.CutBefore before r' := by
  obtain ⟨front, colon, ignored, rfl, hKind, hIgnored⟩ := hColon
  rw [Token.cutBefore_append, Token.cutBefore_cons] at h ⊢
  obtain ⟨hFront, hLeads, hBehind⟩ := h
  have hText : colon.text = [':'] := by
    have hPunctuated := hLeads.isPunctuated
    rwa [Token.IsPunctuated, hKind] at hPunctuated
  have hEq : colon = ⟨.colon, [':']⟩ := by
    rw [← hText, ← hKind]
  rw [hEq] at hFront ⊢
  have hAny := Token.CutBefore.of_stop (s := []) (.inl rfl) hFront
  exact ⟨hAny _, Token.leads_colon _, cutBefore_ignored hIgnored hBehind hr hSpace⟩

theorem EndsValue.isEnd {after : List Token} {r : Text} (h : EndsValue after)
    (hCut : Token.CutBefore after r) (hr : IsEnd r) : IsEnd (Token.textOf after ++ r) := by
  cases after with
  | nil => exact hr
  | cons t after =>
    have hPunctuated := (Token.cutBefore_cons.mp hCut).1.isPunctuated
    intro c hc
    rcases h t rfl with hKind | hKind
    · rw [Token.IsPunctuated, hKind] at hPunctuated
      rw [Token.textOf_cons, hPunctuated] at hc
      exact .inl (Option.some.inj hc).symm
    · rw [Token.IsPunctuated, hKind] at hPunctuated
      rw [Token.textOf_cons, hPunctuated] at hc
      exact .inr (Option.some.inj hc).symm

theorem EndsValue.isEnd_of_tokenize {after : List Token} (h : EndsValue after)
    (hRead : Token.tokenize (Token.textOf after) = after) : IsEnd (Token.textOf after) := by
  have hCut : Token.CutBefore after [] := by
    rw [Token.CutBefore, List.append_nil, hRead, Token.tokenize_nil, List.append_nil]
  have hEnd := h.isEnd hCut (fun _ h => by cases h)
  rwa [List.append_nil] at hEnd

/-! ## One value -/

theorem ofRaw_append {lead value tail : Text} (property selector : Text) (start : Nat)
    (hLead : lead.all isBlank = true) (hNonempty : value ≠ []) (hHead : value.head?.any isBlank = false)
    (hLast : value.getLast?.any isBlank = false) (hEnd : ∀ c ∈ value.getLast?, foldCase c ≠ 't')
    (hTail : IsTrailer tail) :
    ∃ d, ofRaw property selector start (lead ++ (value ++ tail)) = [d] ∧
      content d = (selector, Text.asciiLowered property, value) := by
  obtain ⟨-, hValue⟩ := value_append hLead hNonempty hHead hLast hEnd hTail
  rw [ofRaw, hValue]
  simp only
  rw [if_neg (by simpa using hNonempty)]
  exact ⟨_, rfl, rfl⟩

theorem referenceTo_ends (name : Text) :
    Rewire.referenceTo name ≠ [] ∧ (Rewire.referenceTo name).head? = some 'v' ∧
      (Rewire.referenceTo name).getLast? = some ')' := by
  rw [Rewire.referenceTo_eq]
  refine ⟨by simp, rfl, ?_⟩
  rw [List.getLast?_append_of_ne_nil _ (List.cons_ne_nil _ _),
    List.getLast?_cons_of_ne_nil (by simp), List.getLast?_concat]

section Exchange

variable {raw raw' : List Node} {before after : List Token} {unclosed : Bool} {name tail r : Text}

/-- A reference is read in the place of a raw value, between its white space and its trailer. -/
theorem IsRaw.exists_reference (hRaw : IsRaw raw) (hFormed : Node.Formed unclosed (some .curly) raw)
    (hCut : Token.CutBefore (Node.tokensOfAll raw) r) (hName : IsGenerated name)
    (hTail : IsTrailer tail) (hEnd : IsEnd r) (property selector : Text) (start : Nat) :
    ∃ raw' d', IsRaw raw' ∧ Node.Formed false (some .curly) raw' ∧
      Node.textOfAll raw' =
        Text.leadingBlank (Node.textOfAll raw) ++ (Rewire.referenceTo name ++ tail) ∧
      Token.CutBefore (Node.tokensOfAll raw') r ∧
      ofRaw property selector start (Node.textOfAll raw') = [d'] ∧
      content d' = (selector, Text.asciiLowered property, Rewire.referenceTo name) := by
  obtain ⟨hReference, hHead, hLast⟩ := referenceTo_ends name
  have hFold : ∀ c ∈ (Rewire.referenceTo name).getLast?, foldCase c ≠ 't' := by
    intro c hc
    obtain rfl := Option.some.inj (hLast.symm.trans hc)
    decide
  have hLead := Text.all_leadingBlank (Node.textOfAll raw)
  obtain ⟨raw', hRaw', hFormed', hText', hCut'⟩ :=
    exists_rawReference hLead (hRaw.head?_leadingBlank hFormed hCut) hName hTail hEnd
  obtain ⟨d', hd', hContent'⟩ := ofRaw_append property selector start hLead hReference
    (by rw [hHead]; rfl) (by rw [hLast]; rfl) hFold hTail
  exact ⟨raw', d', hRaw', hFormed', hText', hCut', hText' ▸ hd', hContent'⟩

theorem AfterColon.cutBefore_raw (hColon : AfterColon before) (hRaw : IsRaw raw)
    (hFormed : Node.Formed unclosed (some .curly) raw)
    (hCut : Token.CutBefore (Node.tokensOfAll raw) r) (hRaw' : IsRaw raw')
    (hFormed' : Node.Formed false (some .curly) raw')
    (hCut' : Token.CutBefore (Node.tokensOfAll raw') r)
    (h : Token.CutBefore before (Node.textOfAll raw ++ r)) :
    Token.CutBefore before (Node.textOfAll raw' ++ r) := by
  obtain ⟨c, s, hFirst, -⟩ := hRaw.not_isSpace hFormed hCut
  obtain ⟨c', s', hFirst', hSpace'⟩ := hRaw'.not_isSpace hFormed' hCut'
  refine hColon.cutBefore h ?_ ?_
  · rw [hFirst]
    exact List.cons_ne_nil _ _
  · rw [hFirst']
    exact hSpace'

theorem ofText_exchange {nodes : List Node} (hNodes : Node.Formed true none nodes)
    (hTokens : Node.tokensOfAll nodes = before ++ (Node.tokensOfAll raw' ++ after))
    (hBefore : Token.CutBefore before (Node.textOfAll raw' ++ Token.textOf after))
    (hCut : Token.CutBefore (Node.tokensOfAll raw') (Token.textOf after))
    (hAfter : Token.tokenize (Token.textOf after) = after) :
    Node.ofText (Token.textOf before ++ (Node.textOfAll raw' ++ Token.textOf after)) = nodes := by
  refine Node.ofText_eq hNodes ?_
  rw [hBefore, Node.textOfAll_eq_textOf, hCut, hAfter]
  exact hTokens.symm

end Exchange

/-- A reference can take the place of one value. -/
theorem readBehind_exchange {css name : Text} {earlier later : List Declaration} {d : Declaration}
    (hName : IsGenerated name) (hRead : readBehind css = some (earlier ++ d :: later)) :
    ∃ front rest, css = front ++ (d.value ++ rest) ∧ d.start = Text.byteLength front ∧
      d.stop = Text.byteLength front + Text.byteLength d.value ∧
      ∃ d' later', readBehind (front ++ (Rewire.referenceTo name ++ rest)) =
          some (earlier ++ d' :: later') ∧
        content d' = (d.selector, d.property, Rewire.referenceTo name) ∧
        later'.map content = later.map content := by
  obtain ⟨before, raw, after, property, selector, hSplit, hRaw, ⟨unclosed, hFormed⟩, hColon, hEnds,
    hValue, hExchange⟩ := exchangeable_ofRules (Node.ofText css) true none [] (.between false) 0
      earlier d later (Node.formed_ofTokens _) hRead
  rw [Nat.zero_add] at hValue hExchange
  have hTokens : Token.tokenize css = before ++ (Node.tokensOfAll raw ++ after) := by
    rw [← Node.tokensOfAll_ofText]
    exact hSplit
  obtain ⟨hText, hBefore, hBehind⟩ := Token.cutBefore_of_tokenize hTokens
  obtain ⟨-, hRawCut, hAfter⟩ := Token.cutBefore_of_tokenize hBehind
  rw [Token.textOf_append, ← Node.textOfAll_eq_textOf] at hText hBefore
  obtain ⟨tail, hTail, hRawText⟩ := exists_trailer (Node.textOfAll raw)
  obtain ⟨hd, -, hStart, hStop, hProperty, hSelector⟩ := of_ofRaw_eq_singleton hValue
  obtain ⟨raw', d', hRaw', hFormed', hText', hCut', hd', hContent'⟩ :=
    hRaw.exists_reference hFormed hRawCut hName hTail (hEnds.isEnd_of_tokenize hAfter) property
      selector (Text.byteLength (Token.textOf before))
  obtain ⟨nodes, later', hNodes, hTokens', hRead', hLater'⟩ := hExchange raw' d' hRaw' hFormed' hd'
  have hTree := ofText_exchange hNodes hTokens'
    (hColon.cutBefore_raw hRaw hFormed hRawCut hRaw' hFormed' hCut' hBefore) hCut' hAfter
  refine ⟨Token.textOf before ++ Text.leadingBlank (Node.textOfAll raw), tail ++ Token.textOf after,
    ?_, ?_, ?_, d', later', ?_, ?_, hLater'⟩
  · rw [hText, hd]
    conv_lhs => rw [hRawText]
    simp only [List.append_assoc]
  · rw [hStart, Text.byteLength_append]
  · rw [hStop, hStart, Text.byteLength_append]
  · rw [hText'] at hTree
    simp only [List.append_assoc] at hTree ⊢
    rw [readBehind, hTree]
    exact hRead'
  · rw [hContent', hProperty, hSelector]

/-! ## The order of the values -/

theorem Laid.pairwise_start {offset : Nat} {s : Text} {declarations : List Declaration}
    (h : Laid offset s declarations) : declarations.Pairwise fun a b => a.start < b.start := by
  refine h.pairwise.1.imp_of_mem fun ha _ hBehind => ?_
  obtain ⟨-, -, -, -, hStop, hNonempty⟩ := h.exists_span ha
  have hPositive := Text.byteLength_pos hNonempty
  omega

theorem pairwise_readBehind {css : Text} {declarations : List Declaration}
    (h : readBehind css = some declarations) : declarations.Pairwise fun a b => a.start < b.start := by
  have hCut := Token.cutBefore_tokenize css
  rw [← Node.tokensOfAll_ofText] at hCut
  exact (laid_ofRules _ _ _ _ _ _ hCut h).pairwise_start

end Declaration

namespace Rewire

/-! ## All values -/

def standsAt (d : Declaration) (p : Parameter) : Bool :=
  p.source.start = (d.start : Int) ∧ p.source.stop = (d.stop : Int)

/-- What a declaration says when the parameters are rewired: the one at whose span a parameter was
found refers to it. -/
def rebound (params : List Parameter) (d : Declaration) : Text × Text × Text :=
  match params.find? (standsAt d) with
  | some p => (d.selector, d.property, referenceTo p.customProperty)
  | none => (d.selector, d.property, d.value)

theorem rebound_cons_of_ne {p : Parameter} {d : Declaration} (h : p.source.start ≠ d.start)
    (params : List Parameter) : rebound (p :: params) d = rebound params d := by
  rw [rebound, List.find?_cons_of_neg (by simp [standsAt, h]), rebound]

theorem rebound_cons_of_eq {p : Parameter} {d : Declaration} (hStart : p.source.start = d.start)
    (hStop : p.source.stop = d.stop) (params : List Parameter) :
    rebound (p :: params) d = (d.selector, d.property, referenceTo p.customProperty) := by
  rw [rebound, List.find?_cons_of_pos (by simp [standsAt, hStart, hStop])]

theorem rebound_of_ne {params : List Parameter} {d : Declaration}
    (h : ∀ p ∈ params, p.source.start ≠ d.start) : rebound params d = d.content := by
  induction params with
  | nil => rfl
  | cons p params ih =>
    rw [List.forall_mem_cons] at h
    rw [rebound_cons_of_ne h.1, ih h.2]

theorem Woven.le_source_start {offset : Nat} {s t : Text} {params : List Parameter}
    (h : Woven offset s params t) : ∀ p ∈ params, (offset : Int) ≤ p.source.start := by
  induction h with
  | nil => simp
  | cons lead nonempty read start stop name _ ih =>
    intro q hq
    rcases List.mem_cons.mp hq with rfl | hq
    · omega
    · have hLow := ih q hq
      omega

section Behind

variable {params : List Parameter} {p : Parameter} {d : Declaration}
  {earlier before behind : List Declaration}

/-- The declarations of the parameters that come behind the one of `d` come behind `d`. -/
theorem marked_behind (hOrder : (before ++ d :: behind).Pairwise fun a b => a.start < b.start)
    (hLow : ∀ q ∈ params, (d.start : Int) < q.source.start)
    (hMarked : ∀ q ∈ params, ∃ e ∈ before ++ d :: behind,
      q.source.start = e.start ∧ q.source.stop = e.stop) :
    ∀ q ∈ params, ∃ e ∈ behind, q.source.start = e.start ∧ q.source.stop = e.stop := by
  obtain ⟨-, -, hBefore⟩ := List.pairwise_append.mp hOrder
  intro q hq
  obtain ⟨e, he, hEqStart, hEqStop⟩ := hMarked q hq
  refine ⟨e, ?_, hEqStart, hEqStop⟩
  have hLate := hLow q hq
  rcases List.mem_append.mp he with he | he
  · have hEarly := hBefore e he d List.mem_cons_self
    omega
  · rcases List.mem_cons.mp he with rfl | he
    · omega
    · exact he

/-- A parameter whose value is the one of `d` changes no declaration but `d`. -/
theorem map_rebound_cons (hOrder : (before ++ d :: behind).Pairwise fun a b => a.start < b.start)
    (hStart : p.source.start = d.start) (hStop : p.source.stop = d.stop)
    (hLow : ∀ q ∈ params, (d.start : Int) < q.source.start) :
    (before ++ d :: behind).map (rebound (p :: params)) =
      before.map Declaration.content ++ (d.selector, d.property, referenceTo p.customProperty) ::
        behind.map (rebound params) := by
  obtain ⟨-, hBehind, hBefore⟩ := List.pairwise_append.mp hOrder
  have hBeforeContent : before.map (rebound (p :: params)) = before.map Declaration.content := by
    refine List.map_congr_left fun e he => rebound_of_ne fun q hq => ?_
    have hEarly := hBefore e he d List.mem_cons_self
    rcases List.mem_cons.mp hq with rfl | hq
    · omega
    · have hLate := hLow q hq
      omega
  have hBehindContent : behind.map (rebound (p :: params)) = behind.map (rebound params) := by
    refine List.map_congr_left fun e he => rebound_cons_of_ne ?_ params
    have hLate := List.rel_of_pairwise_cons hBehind he
    omega
  rw [List.map_append, List.map_cons, hBeforeContent, hBehindContent,
    rebound_cons_of_eq hStart hStop]

end Behind

theorem Woven.readBehind_append {offset : Nat} {s t : Text} {params : List Parameter}
    (h : Woven offset s params t) :
    ∀ (front : Text) (earlier later : List Declaration), Text.byteLength front = offset →
      Declaration.readBehind (front ++ s) = some (earlier ++ later) →
      (∀ p ∈ params, ∃ d ∈ later, p.source.start = d.start ∧ p.source.stop = d.stop) →
      ∃ later', Declaration.readBehind (front ++ t) = some (earlier ++ later') ∧
        later'.map Declaration.content = later.map (rebound params) := by
  induction h with
  | nil =>
    intro front earlier later _ hRead _
    exact ⟨later, hRead, rfl⟩
  | @cons offset gap value rest rewired p params lead nonempty read start stop name tail ih =>
    intro front earlier later hFront hRead hMarked
    rw [List.forall_mem_cons] at hMarked
    obtain ⟨⟨d, hd, hStart, hStop⟩, hMarked⟩ := hMarked
    obtain ⟨before, behind, rfl⟩ := List.append_of_mem hd
    have hOrder := (List.pairwise_append.mp (Declaration.pairwise_readBehind hRead)).2.1
    have hLow : ∀ q ∈ params, (d.start : Int) < q.source.start := by
      intro q hq
      have hPositive := Text.byteLength_pos nonempty
      have hLate := tail.le_source_start q hq
      omega
    have hOffset : Text.byteLength (front ++ gap ++ value) =
        offset + Text.byteLength gap + Text.byteLength value := by
      rw [Text.byteLength_append, Text.byteLength_append, hFront]
    have hTail : Declaration.readBehind (front ++ gap ++ value ++ rest) =
        some ((earlier ++ before ++ [d]) ++ behind) := by
      rw [List.append_assoc (earlier ++ before), List.singleton_append, List.append_assoc earlier,
        ← hRead]
      simp only [List.append_assoc]
    obtain ⟨behind', hRead', hContent'⟩ := ih (front ++ gap ++ value) _ behind hOffset hTail
      (marked_behind hOrder hLow hMarked)
    rw [List.append_assoc (earlier ++ before), List.singleton_append] at hRead'
    obtain ⟨front', rest', hSplit, hAt, hTo, d', behind'', hRead'', hd', hContent''⟩ :=
      Declaration.readBehind_exchange name hRead'
    -- The exchanged value is the one in the gap between the two texts.
    have hGap : Text.byteLength (front ++ gap) = Text.byteLength front' := by
      rw [Text.byteLength_append, hFront]
      omega
    rw [List.append_assoc (front ++ gap)] at hSplit
    obtain ⟨rfl, hSame⟩ := Text.append_inj_of_byteLength hSplit hGap
    obtain ⟨-, rfl⟩ := Text.append_inj_of_byteLength hSame (by omega)
    refine ⟨before ++ d' :: behind'', ?_, ?_⟩
    · rw [← List.append_assoc front, hRead'']
      simp only [List.append_assoc]
    · rw [map_rebound_cons hOrder hStart hStop hLow, List.map_append, List.map_cons, hd', hContent'',
        hContent']

end Rewire

end DesignParams
