import DesignParams.Stylesheet.Pair
import DesignParams.Proofs.Stylesheet.Kind
import DesignParams.Proofs.Stylesheet.Raw
import DesignParams.Proofs.Stylesheet.Tree
import DesignParams.Proofs.Stylesheet.Walk

/-!
# Spans of values

The values of a stylesheet stand in it one behind the other, each at its own span and each behind a
colon, with nothing but comments and white space between. This holds of the values that the rules
give and of the pairs that a malformed stylesheet is searched for.
-/
set_option autoImplicit false

namespace DesignParams

theorem isBlank_of_isSpace {c : Char} (h : Token.isSpace c = true) : isBlank c = true := by
  simp only [Token.isSpace, Token.isNewline, Bool.or_eq_true, decide_eq_true_eq] at h
  rcases h with (rfl | rfl) | (rfl | rfl) | rfl <;> decide

namespace Declaration

def isGapEnd (c : Char) : Bool :=
  c = ':' || c = '/' || isBlank c

/-- Does the text end with a colon or a comment, white space apart? -/
def IsSeat (front : Text) : Prop :=
  ∃ before mark blank, front = before ++ mark :: blank ∧ (mark = ':' ∨ mark = '/') ∧
    blank.all isBlank = true

theorem IsSeat.prepend {gap : Text} (h : IsSeat gap) (front : Text) : IsSeat (front ++ gap) := by
  obtain ⟨before, mark, blank, rfl, hMark, hBlank⟩ := h
  exact ⟨front ++ before, mark, blank, (List.append_assoc _ _ _).symm, hMark, hBlank⟩

theorem IsSeat.append_blank {gap back : Text} (h : IsSeat gap) (hBack : back.all isBlank = true) :
    IsSeat (gap ++ back) := by
  obtain ⟨before, mark, blank, rfl, hMark, hBlank⟩ := h
  refine ⟨before, mark, blank ++ back, by simp, hMark, ?_⟩
  rw [List.all_append, hBlank, hBack]
  rfl

theorem IsSeat.of_comment {text : Text} (h : text.getLast? = some '/') : IsSeat text := by
  rcases List.eq_nil_or_concat' text with rfl | ⟨before, c, rfl⟩
  · cases h
  · rw [List.getLast?_concat, Option.some.injEq] at h
    exact ⟨before, c, [], rfl, .inr h, rfl⟩

theorem IsSeat.of_append {front back : Text} (h : IsSeat (front ++ back)) {c : Char} (hc : c ∈ back)
    (hNot : isBlank c = false) : IsSeat back := by
  obtain ⟨before, mark, blank, hSplit, hMark, hBlank⟩ := h
  rcases List.append_eq_append_iff.mp hSplit with ⟨u, -, hBack⟩ | ⟨u, -, hBehind⟩
  · exact ⟨u, mark, blank, hBack, hMark, hBlank⟩
  · cases u with
    | nil => exact ⟨[], mark, blank, hBehind.symm, hMark, hBlank⟩
    | cons d u =>
      have hMem : c ∈ blank := by
        rw [(List.cons.inj hBehind).2]
        exact List.mem_append_right u hc
      rw [List.all_eq_true.mp hBlank c hMem] at hNot
      cases hNot

theorem IsSeat.ends {gap : Text} (h : IsSeat gap) : gap.getLast?.any isGapEnd = true := by
  obtain ⟨before, mark, blank, rfl, hMark, hBlank⟩ := h
  rw [List.getLast?_append_of_ne_nil before (List.cons_ne_nil mark blank)]
  rcases List.eq_nil_or_concat' blank with rfl | ⟨more, c, rfl⟩
  · rcases hMark with rfl | rfl
    · rfl
    · rfl
  · have hc := List.all_eq_true.mp hBlank c (List.mem_append_right more List.mem_cons_self)
    rw [← List.cons_append, List.getLast?_concat]
    simp [isGapEnd, hc]

/-- Can the text stand in front of a value? It holds the colon of the value. -/
structure IsLead (gap : Text) : Prop where
  colon : ':' ∈ gap
  seat : IsSeat gap

theorem IsLead.prepend {gap : Text} (h : IsLead gap) (front : Text) : IsLead (front ++ gap) :=
  ⟨List.mem_append_right front h.colon, h.seat.prepend front⟩

theorem IsLead.append_blank {gap back : Text} (h : IsLead gap) (hBack : back.all isBlank = true) :
    IsLead (gap ++ back) :=
  ⟨List.mem_append_left back h.colon, h.seat.append_blank hBack⟩

/-- The declarations stand in a text that begins at a byte offset, in order and apart. -/
inductive Laid : Nat → Text → List Declaration → Prop
  | nil {offset : Nat} {s : Text} : Laid offset s []
  | cons {offset : Nat} {gap rest : Text} {d : Declaration} {declarations : List Declaration}
      (lead : IsLead gap) (nonempty : d.value ≠ [])
      (start : d.start = offset + Text.byteLength gap)
      (stop : d.stop = d.start + Text.byteLength d.value) (tail : Laid d.stop rest declarations) :
      Laid offset (gap ++ (d.value ++ rest)) (d :: declarations)

theorem Laid.of_value {offset : Nat} {gap value rest : Text} {d : Declaration}
    {declarations : List Declaration} (hValue : d.value = value) (lead : IsLead gap)
    (nonempty : value ≠ []) (start : d.start = offset + Text.byteLength gap)
    (stop : d.stop = d.start + Text.byteLength value) (tail : Laid d.stop rest declarations) :
    Laid offset (gap ++ (value ++ rest)) (d :: declarations) := by
  subst hValue
  exact .cons lead nonempty start stop tail

theorem Laid.prepend {offset : Nat} {s : Text} {declarations : List Declaration} (front : Text)
    (h : Laid (offset + Text.byteLength front) s declarations) :
    Laid offset (front ++ s) declarations := by
  cases h with
  | nil => exact .nil
  | @cons _ gap rest d _ lead nonempty start stop tail =>
    rw [← List.append_assoc]
    refine .cons (lead.prepend front) nonempty ?_ stop tail
    rw [start, Text.byteLength_append, Nat.add_assoc]

theorem Laid.append {offset : Nat} {s t : Text} {declarations more : List Declaration}
    (h : Laid offset s declarations) (hMore : Laid (offset + Text.byteLength s) t more) :
    Laid offset (s ++ t) (declarations ++ more) := by
  induction h with
  | nil => exact hMore.prepend _
  | @cons offset gap rest d declarations lead nonempty start stop _ ih =>
    have hEnd : offset + Text.byteLength (gap ++ (d.value ++ rest)) =
        d.stop + Text.byteLength rest := by
      rw [stop, start, Text.byteLength_append, Text.byteLength_append]
      omega
    rw [hEnd] at hMore
    rw [List.append_assoc, List.append_assoc, List.cons_append]
    exact .cons lead nonempty start stop (ih hMore)

theorem Laid.append_right {offset : Nat} {s : Text} {declarations : List Declaration}
    (h : Laid offset s declarations) (back : Text) : Laid offset (s ++ back) declarations := by
  have hAll := h.append (t := back) .nil
  rwa [List.append_nil] at hAll

theorem Laid.sublist {offset : Nat} {s : Text} {declarations fewer : List Declaration}
    (h : Laid offset s declarations) (hFewer : fewer.Sublist declarations) :
    Laid offset s fewer := by
  induction h generalizing fewer with
  | nil =>
    rw [List.sublist_nil.mp hFewer]
    exact .nil
  | @cons offset gap rest d declarations lead nonempty start stop _ ih =>
    cases hFewer with
    | cons _ hRest =>
      rw [← List.append_assoc]
      refine Laid.prepend _ ?_
      rw [Text.byteLength_append, ← Nat.add_assoc, ← start, ← stop]
      exact ih hRest
    | cons_cons _ hRest => exact .cons lead nonempty start stop (ih hRest)

theorem Laid.exists_span {offset : Nat} {s : Text} {declarations : List Declaration}
    (h : Laid offset s declarations) {d : Declaration} (hd : d ∈ declarations) :
    ∃ front rest, s = front ++ (d.value ++ rest) ∧ d.start = offset + Text.byteLength front ∧
      d.stop = d.start + Text.byteLength d.value ∧ d.value ≠ [] := by
  induction h with
  | nil => cases hd
  | @cons offset gap rest e declarations lead nonempty start stop _ ih =>
    rcases List.mem_cons.mp hd with rfl | hd
    · exact ⟨gap, rest, rfl, start, stop, nonempty⟩
    · obtain ⟨front, back, rfl, hStart, hStop, hNonempty⟩ := ih hd
      refine ⟨gap ++ (e.value ++ front), back, ?_, ?_, hStop, hNonempty⟩
      · simp only [List.append_assoc]
      · rw [hStart, stop, start, Text.byteLength_append, Text.byteLength_append]
        omega

theorem Laid.pairwise {offset : Nat} {s : Text} {declarations : List Declaration}
    (h : Laid offset s declarations) :
    declarations.Pairwise (fun a b => a.stop ≤ b.start) ∧ ∀ d ∈ declarations, offset ≤ d.start := by
  induction h with
  | nil => exact ⟨.nil, fun d hd => by cases hd⟩
  | @cons offset gap rest d declarations lead nonempty start stop _ ih =>
    constructor
    · exact .cons ih.2 ih.1
    · intro e he
      rcases List.mem_cons.mp he with rfl | he
      · omega
      · have hLow := ih.2 e he
        omega

/-! ## The values of rules -/

theorem laid_ofRaw {offset : Nat} {gap : Text} (h : IsLead gap) (property selector raw : Text) :
    Laid offset (gap ++ raw)
      (ofRaw property selector (offset + Text.byteLength gap) raw) := by
  obtain ⟨tail, -, hRaw⟩ := exists_trailer raw
  rw [ofRaw]
  simp only
  split
  · exact .nil
  · rename_i hNonempty
    have hSplit : gap ++ raw =
        (gap ++ Text.leadingBlank raw) ++ (dropPriority (Text.trim raw) ++ tail) := by
      rw [List.append_assoc, ← hRaw]
    rw [hSplit]
    refine .of_value rfl (h.append_blank (Text.all_leadingBlank raw)) ?_ ?_ rfl .nil
    · simpa using hNonempty
    · rw [Text.byteLength_append, Nat.add_assoc]

theorem tokens_ne_nil (node : Node) : node.tokens ≠ [] := by
  cases node <;> simp [Node.tokens]

theorem textOfAll_ne_nil {node : Node} {nodes : List Node} {rest : Text}
    (h : Token.CutBefore (Node.tokensOfAll (node :: nodes)) rest) :
    Node.textOfAll (node :: nodes) ≠ [] := by
  rw [Node.textOfAll_eq_textOf]
  cases hTokens : Node.tokensOfAll (node :: nodes) with
  | nil =>
    rw [Node.tokensOfAll, List.append_eq_nil_iff] at hTokens
    exact absurd hTokens.1 (tokens_ne_nil node)
  | cons token tokens =>
    rw [hTokens, Token.cutBefore_cons] at h
    simp [h.1.text_ne_nil]

theorem cutBefore_node {node : Node} {nodes : List Node} {rest : Text}
    (h : Token.CutBefore (Node.tokensOfAll (node :: nodes)) rest) :
    Token.CutBefore node.tokens (Node.textOfAll nodes ++ rest) ∧
      Token.CutBefore (Node.tokensOfAll nodes) rest := by
  rw [Node.tokensOfAll, Token.cutBefore_append, ← Node.textOfAll_eq_textOf] at h
  exact h

theorem IsLead.ignored {gap rest : Text} {node : Node} (h : IsLead gap)
    (hNode : isIgnored node = true) (hCut : Token.CutBefore node.tokens rest) (hRest : rest ≠ []) :
    IsLead (gap ++ node.text) := by
  cases node with
  | block => cases hNode
  | leaf token =>
    have hLeads : Token.Leads token rest := by
      rw [Node.tokens, Token.cutBefore_cons] at hCut
      exact hCut.1
    rw [Node.text]
    rcases of_decide_eq_true hNode with hKind | hKind
    · refine h.append_blank (List.all_eq_true.mpr fun c hc => ?_)
      exact isBlank_of_isSpace (List.all_eq_true.mp (hLeads.blank hKind).1 c hc)
    · have hComment := IsSeat.of_comment (hLeads.comment hKind hRest).1
      exact ⟨List.mem_append_left token.text h.colon, hComment.prepend gap⟩

theorem text_of_colon {token : Token} {rest : Text} (h : Token.CutBefore [token] rest)
    (hKind : token.kind = .colon) : token.text = [':'] := by
  have hPunctuated := (Token.cutBefore_cons.mp h).1.isPunctuated
  rwa [Token.IsPunctuated, hKind] at hPunctuated

/-- The values of a body stand in it. At a value, the text in front is its lead. -/
theorem laid_ofBody {state : BodyState} (hState : state.IsBetween) (nodes : List Node) :
    ∀ (selector : Text) (offset : Nat) (front rest : Text),
      (∀ property, state = .atValue property → IsLead front) →
      Token.CutBefore (Node.tokensOfAll nodes) rest →
      Laid offset (front ++ Node.textOfAll nodes)
        (ofBody selector state (offset + Text.byteLength front) nodes) := by
  refine body_induction (motive := fun state nodes => ∀ selector offset front rest,
    (∀ property, state = .atValue property → IsLead front) →
    Token.CutBefore (Node.tokensOfAll nodes) rest →
    Laid offset (front ++ Node.textOfAll nodes)
      (ofBody selector state (offset + Text.byteLength front) nodes)) ?_ ?_ ?_ ?_ state hState nodes
  · intro state hState selector offset front rest _ _
    rw [ofBody_nil hState]
    exact .nil
  · intro state node next nodes hPass ih selector offset front rest hFront hCut
    obtain ⟨hNode, hNodes⟩ := cutBefore_node hCut
    rw [ofBody_pass hPass, Node.textOfAll, ← List.append_assoc, Nat.add_assoc, Node.byteLength,
      ← Text.byteLength_append]
    by_cases hEmpty : nodes = []
    · rw [hEmpty, ofBody_nil hPass.isBetween]
      exact .nil
    · have hRest : Node.textOfAll nodes ++ rest ≠ [] := by
        obtain ⟨n, ns, rfl⟩ := List.exists_cons_of_ne_nil hEmpty
        simp [textOfAll_ne_nil hNodes]
      refine ih selector offset (front ++ node.text) rest ?_ hNodes
      rintro property rfl
      cases hPass with
      | outside _ after _ => cases after
      | colon hKind =>
        rw [Node.text, text_of_colon hNode hKind]
        exact ⟨by simp, front, ':', [], rfl, .inl rfl, rfl⟩
      | ignored hIgnored => exact (hFront property rfl).ignored hIgnored hNode hRest
  · intro property nodes hRaw selector offset front rest hFront _
    rw [ofBody_raw hRaw]
    exact laid_ofRaw (hFront property rfl) _ _ _
  · intro property nodes semicolon more hRaw hSemicolon ih selector offset front rest hFront hCut
    rw [ofBody_raw_semicolon hRaw hSemicolon, Node.textOfAll_append, Node.textOfAll,
      ← List.append_assoc]
    refine (laid_ofRaw (hFront property rfl) _ _ _).append ?_
    rw [Node.tokensOfAll_append, Token.cutBefore_append] at hCut
    rw [Text.byteLength_append, Nat.add_assoc offset]
    refine ih selector _ semicolon.text rest ?_ (cutBefore_node hCut.2).2
    intro property hState
    cases hState

theorem laid_ofRules (nodes : List Node) :
    ∀ (context : List Text) (state : RuleState) (offset : Nat) (rest : Text)
      (declarations : List Declaration), Token.CutBefore (Node.tokensOfAll nodes) rest →
      ofRules context state offset nodes = some declarations →
      Laid offset (Node.textOfAll nodes) declarations := by
  induction nodes using rules_induction with
  | nil =>
    intro context state offset rest declarations _ hRead
    obtain rfl : declarations = [] := by cases state <;> simp_all [ofRules]
    exact .nil
  | cons node nodes ihBody ihNodes =>
    intro context state offset rest declarations hCut hRead
    obtain ⟨hNode, hNodes⟩ := cutBefore_node hCut
    obtain ⟨found, next, more, hFound, hMore, rfl⟩ := ofRules_cons_eq_some_iff.mp hRead
    rw [Node.textOfAll]
    refine Laid.append ?_ (ihNodes context next _ rest more hNodes hMore)
    have hBody {opener : Token} {body : List Node} {closer : Option Token}
        (h : node = .block .curly opener body closer) :
        ∃ behind, node.text = opener.text ++ (Node.textOfAll body ++ behind) ∧
          ∃ after, Token.CutBefore (Node.tokensOfAll body) after := by
      subst h
      rw [Node.tokens, Token.cutBefore_cons, Token.cutBefore_append] at hNode
      exact ⟨_, Node.text_block .curly opener body closer, _, hNode.2.1⟩
    cases nodeReading hFound with
    | nothing => exact .nil
    | @body opener body _ _ selector =>
      obtain ⟨behind, hText, after, hAfter⟩ := hBody rfl
      rw [hText]
      refine Laid.prepend _ (Laid.append_right ?_ behind)
      exact laid_ofBody (.outside .idle) body selector (offset + Text.byteLength opener.text) []
        after (fun _ h => by cases h) hAfter
    | rules hInner =>
      obtain ⟨behind, hText, after, hAfter⟩ := hBody rfl
      rw [hText]
      exact Laid.prepend _ (Laid.append_right
        (ihBody _ _ _ _ rfl _ _ _ after _ hAfter hInner) behind)

/-! ## Pairs -/

theorem pairValue?_eq_some {s before value rest : Text}
    (h : pairValue? s = some (before, value, rest)) :
    IsLead before ∧ value ≠ [] ∧
      ∃ blank, blank.all isBlank = true ∧ s = before ++ (value ++ (blank ++ ';' :: rest)) := by
  rw [pairValue?] at h
  simp only at h
  split at h
  · rename_i tail hColon
    split at h
    · rename_i after hAfter
      split at h
      · cases h
      · rename_i hNonempty
        simp only [Option.some.injEq, Prod.mk.injEq] at h
        obtain ⟨rfl, rfl, rfl⟩ := h
        obtain ⟨blank, hAll, hBlank⟩ := Text.exists_trimEnd_append
          (Text.trimStart (tail.takeWhile isPairValue))
        have hRaw := Text.leadingBlank_append_trimStart (tail.takeWhile isPairValue)
        have hTail := List.takeWhile_append_dropWhile (p := isPairValue) (l := tail)
        have hGap := List.takeWhile_append_dropWhile (p := isBlank) (l := s)
        refine ⟨?_, by simpa using hNonempty, blank, hAll, ?_⟩
        · have hColonLead : IsLead [':'] := ⟨by simp, [], ':', [], rfl, .inl rfl, rfl⟩
          exact (hColonLead.append_blank (Text.all_leadingBlank _)).prepend _
        · calc s = s.takeWhile isBlank ++ ':' :: tail := by rw [← hColon, hGap]
            _ = s.takeWhile isBlank ++ ':' :: (tail.takeWhile isPairValue ++ ';' :: _) := by
              rw [← hAfter, hTail]
            _ = s.takeWhile isBlank ++ ':' :: (Text.leadingBlank (tail.takeWhile isPairValue) ++
                  (Text.trim (tail.takeWhile isPairValue) ++ blank) ++ ';' :: _) := by
              rw [Text.trim, ← hBlank, hRaw]
            _ = _ := by simp
    · cases h
  · cases h

theorem trimmed_of_pairValue? {s before value rest : Text}
    (h : pairValue? s = some (before, value, rest)) : Text.trim value = value := by
  rw [pairValue?] at h
  simp only at h
  split at h
  · rename_i tail _
    split at h
    · split at h
      · cases h
      · simp only [Option.some.injEq, Prod.mk.injEq] at h
        obtain ⟨-, rfl, -⟩ := h
        exact Text.trim_trim _
    · cases h
  · cases h

theorem laid_pairsFrom (offset : Nat) (s : Text) : Laid offset s (pairsFrom offset s) := by
  fun_induction pairsFrom offset s with
  | case1 => exact .nil
  | case2 offset c s hName name tail behind before value rest hPair start ih =>
    obtain ⟨hLead, hNonempty, blank, -, hTail⟩ := pairValue?_eq_some hPair
    have hSplit : c :: s = (name ++ before) ++ (value ++ ((blank ++ [';']) ++ rest)) := by
      have hJoined := List.takeWhile_append_dropWhile (p := isPairName) (l := s)
      rw [List.append_assoc, List.append_assoc blank, List.singleton_append, ← hTail]
      simp only [name, tail, List.cons_append, hJoined]
    rw [hSplit]
    refine .of_value rfl (hLead.prepend name) hNonempty ?_ rfl (Laid.prepend (blank ++ [';']) ?_)
    · rw [Text.byteLength_append, ← Nat.add_assoc]
    · have hLength := congrArg Text.byteLength hTail
      simp only [Text.byteLength_append, Text.byteLength_cons] at hLength
      have hRest : behind + (Text.byteLength tail - Text.byteLength rest) =
          start + Text.byteLength value + Text.byteLength (blank ++ [';']) := by
        simp only [start, Text.byteLength_append, Text.byteLength_cons, Text.byteLength_nil]
        omega
      rw [← hRest]
      exact ih
  | case3 offset c s hName name tail behind hPair ih =>
    have hSplit : c :: s = name ++ tail := by
      have hJoined := List.takeWhile_append_dropWhile (p := isPairName) (l := s)
      simp only [name, tail, List.cons_append, hJoined]
    rw [hSplit]
    exact ih.prepend name
  | case4 offset c s hName ih =>
    refine Laid.prepend [c] ?_
    exact ih

/-! ## The values of a stylesheet -/

theorem Laid.map {f : Declaration → Declaration} (hValue : ∀ d, (f d).value = d.value)
    (hStart : ∀ d, (f d).start = d.start) (hStop : ∀ d, (f d).stop = d.stop) {offset : Nat}
    {s : Text} {declarations : List Declaration} (h : Laid offset s declarations) :
    Laid offset s (declarations.map f) := by
  induction h with
  | nil => exact .nil
  | @cons offset gap rest d declarations lead nonempty start stop _ ih =>
    rw [List.map_cons, ← hValue d]
    rw [← hValue d] at nonempty
    refine .cons lead nonempty (by rw [hStart, start]) (by rw [hStop, stop, hStart, hValue]) ?_
    rw [hStop]
    exact ih

theorem laid_located {css s : Text} {offset : Nat} {declarations : List Declaration}
    (h : Laid offset s declarations) : Laid offset s (located css declarations) :=
  h.map (f := fun d => { d with position := (LineIndex.ofText css).locate d.start }) (fun _ => rfl)
    (fun _ => rfl) (fun _ => rfl)

theorem laid_structural {css : Text} {declarations : List Declaration}
    (h : structural? css = some declarations) : Laid 0 css declarations := by
  obtain ⟨read, hRead, rfl⟩ := Option.map_eq_some_iff.mp h
  have hCut := Token.cutBefore_tokenize css
  rw [← Node.tokensOfAll_ofText] at hCut
  have hLaid := laid_ofRules _ _ _ _ _ _ hCut hRead
  rw [Node.textOfAll_ofText] at hLaid
  exact laid_located hLaid

theorem laid_pairs (css : Text) : Laid 0 css (pairs css) :=
  laid_located (laid_pairsFrom 0 css)

/-- The values of every stylesheet stand in it at their spans, in order and apart. -/
theorem laid_ofStylesheet (css : Text) : Laid 0 css (ofStylesheet css) := by
  rw [ofStylesheet]
  cases hRules : structural? css with
  | none =>
    rw [Option.getD_none]
    exact laid_pairs css
  | some declarations =>
    rw [Option.getD_some]
    exact laid_structural hRules

end Declaration

end DesignParams
