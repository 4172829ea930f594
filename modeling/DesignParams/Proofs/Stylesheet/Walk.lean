import DesignParams.Stylesheet.Declaration
import Mathlib.Data.List.TakeWhile

/-!
# Reading bodies and rules step by step

The reader of a body passes over its nodes one by one, until a value begins; a value is read as a
whole, up to the semicolon behind it. The reader of a list of rules passes over nodes as well, and
enters the blocks of rules. Each of the two readings is an induction of its own.
-/
set_option autoImplicit false

namespace DesignParams

namespace Declaration

/-! ## Bodies -/

inductive BodyState.IsOutside : BodyState → Prop
  | idle : IsOutside .idle
  | inAtRule : IsOutside .inAtRule
  | inJunk : IsOutside .inJunk
  | named (property : Text) : IsOutside (.named property)

inductive Passes : BodyState → Node → BodyState → Prop
  | outside {state next : BodyState} {node : Node} (before : state.IsOutside) (after : next.IsOutside)
      (step : ∀ selector offset nodes, ofBody selector state offset (node :: nodes) =
        ofBody selector next (offset + node.byteLength) nodes) : Passes state node next
  | colon {property : Text} {token : Token} (kind : token.kind = .colon) :
      Passes (.named property) (.leaf token) (.atValue property)
  | ignored {property : Text} {node : Node} (h : isIgnored node = true) :
      Passes (.atValue property) node (.atValue property)
  | semicolon {property : Text} {node : Node} (h : isSemicolon node = true) :
      Passes (.atValue property) node .idle

structure IsRaw (nodes : List Node) : Prop where
  head : ∃ node rest, nodes = node :: rest ∧ isIgnored node = false
  whole : ∀ node ∈ nodes, isSemicolon node = false

theorem isIgnored_eq_false_of_isSemicolon {node : Node} (h : isSemicolon node = true) :
    isIgnored node = false := by
  cases node with
  | block => rfl
  | leaf token =>
    have hKind : token.kind = .semicolon := of_decide_eq_true h
    simp [isIgnored, hKind]

variable {selector : Text} {offset : Nat}

theorem ofBody_pass {state next : BodyState} {node : Node} (h : Passes state node next)
    (selector : Text) (offset : Nat) (nodes : List Node) :
    ofBody selector state offset (node :: nodes) =
      ofBody selector next (offset + node.byteLength) nodes := by
  cases h with
  | outside _ _ step => exact step selector offset nodes
  | colon kind => simp [ofBody, isIgnored, isSemicolon, kind]
  | ignored h => simp [ofBody, h]
  | semicolon h => simp [ofBody, h, isIgnored_eq_false_of_isSemicolon h]

theorem exists_passes_idle (node : Node) : ∃ next, Passes .idle node next := by
  have hStep (next : BodyState) (hNext : next.IsOutside)
      (hEq : ∀ selector offset nodes, ofBody selector .idle offset (node :: nodes) =
        ofBody selector next (offset + node.byteLength) nodes) : ∃ next, Passes .idle node next :=
    ⟨next, .outside .idle hNext hEq⟩
  cases node with
  | block => exact hStep .inJunk .inJunk fun _ _ _ => by rw [ofBody]
  | leaf token =>
    obtain ⟨kind, text⟩ := token
    cases kind with
    | blank => exact hStep .idle .idle fun _ _ _ => by rw [ofBody]
    | comment => exact hStep .idle .idle fun _ _ _ => by rw [ofBody]
    | semicolon => exact hStep .idle .idle fun _ _ _ => by rw [ofBody]
    | atKeyword name => exact hStep .inAtRule .inAtRule fun _ _ _ => by rw [ofBody]
    | ident name => exact hStep (.named name) (.named name) fun _ _ _ => by rw [ofBody]
    | closer b =>
      cases b with
      | curly => exact hStep .idle .idle fun _ _ _ => by rw [ofBody]
      | round => exact hStep .inJunk .inJunk fun _ _ _ => by rw [ofBody]
      | square => exact hStep .inJunk .inJunk fun _ _ _ => by rw [ofBody]
    | opener b => exact hStep .inJunk .inJunk fun _ _ _ => by rw [ofBody]
    | colon => exact hStep .inJunk .inJunk fun _ _ _ => by rw [ofBody]
    | marker => exact hStep .inJunk .inJunk fun _ _ _ => by rw [ofBody]
    | other => exact hStep .inJunk .inJunk fun _ _ _ => by rw [ofBody]

/-- An at-rule in a body ends with its semicolon or with its block. -/
theorem exists_passes_inAtRule (node : Node) : ∃ next, Passes .inAtRule node next := by
  by_cases hEnds : isSemicolon node = true ∨ ∃ opener body closer, node = .block .curly opener body closer
  · refine ⟨.idle, .outside .inAtRule .idle fun selector offset nodes => ?_⟩
    rcases hEnds with hSemicolon | ⟨opener, body, closer, rfl⟩
    · cases node with
      | leaf token => simp [ofBody, hSemicolon]
      | block => cases hSemicolon
    · rw [ofBody]
  · simp only [not_or, not_exists] at hEnds
    refine ⟨.inAtRule, .outside .inAtRule .inAtRule fun selector offset nodes => ?_⟩
    cases node with
    | leaf token => simp [ofBody, hEnds.1]
    | block bracket opener body closer =>
      cases bracket with
      | curly => exact absurd rfl (hEnds.2 opener body closer)
      | round => simp [ofBody, isSemicolon]
      | square => simp [ofBody, isSemicolon]

theorem exists_passes_inJunk (node : Node) : ∃ next, Passes .inJunk node next := by
  cases hSemicolon : isSemicolon node with
  | true => exact ⟨.idle, .outside .inJunk .idle fun _ _ _ => by simp [ofBody, hSemicolon]⟩
  | false => exact ⟨.inJunk, .outside .inJunk .inJunk fun _ _ _ => by simp [ofBody, hSemicolon]⟩

theorem exists_passes_named (property : Text) (node : Node) :
    ∃ next, Passes (.named property) node next := by
  cases hIgnored : isIgnored node with
  | true =>
    exact ⟨.named property, .outside (.named _) (.named _) fun _ _ _ => by simp [ofBody, hIgnored]⟩
  | false =>
    cases hSemicolon : isSemicolon node with
    | true =>
      exact ⟨.idle, .outside (.named _) .idle fun _ _ _ => by simp [ofBody, hIgnored, hSemicolon]⟩
    | false =>
      cases node with
      | block =>
        exact ⟨.inJunk, .outside (.named _) .inJunk fun _ _ _ => by
          simp [ofBody, hIgnored, hSemicolon]⟩
      | leaf token =>
        by_cases hColon : token.kind = .colon
        · exact ⟨.atValue property, .colon hColon⟩
        · exact ⟨.inJunk, .outside (.named _) .inJunk fun _ _ _ => by
            simp [ofBody, hIgnored, hSemicolon, hColon]⟩

theorem exists_passes {state : BodyState} (h : state.IsOutside) (node : Node) :
    ∃ next, Passes state node next := by
  cases h with
  | idle => exact exists_passes_idle node
  | inAtRule => exact exists_passes_inAtRule node
  | inJunk => exact exists_passes_inJunk node
  | named property => exact exists_passes_named property node

theorem ofBody_inValue (selector property : Text) (start : Nat) {nodes : List Node}
    (hWhole : ∀ node ∈ nodes, isSemicolon node = false) (raw : Text) (offset : Nat) :
    ofBody selector (.inValue property start raw) offset nodes =
        ofRaw property selector start (raw ++ Node.textOfAll nodes) ∧
      ∀ semicolon rest, isSemicolon semicolon = true →
        ofBody selector (.inValue property start raw) offset (nodes ++ semicolon :: rest) =
          ofRaw property selector start (raw ++ Node.textOfAll nodes) ++
            ofBody selector .idle
              (offset + Text.byteLength (Node.textOfAll nodes) + semicolon.byteLength) rest := by
  induction nodes generalizing raw offset with
  | nil =>
    constructor
    · rw [ofBody_inValue_nil, Node.textOfAll, List.append_nil]
    · intro semicolon rest hSemicolon
      rw [List.nil_append, ofBody, if_pos hSemicolon, Node.textOfAll, List.append_nil]
      rfl
  | cons node nodes ih =>
    have hNode := hWhole node List.mem_cons_self
    obtain ⟨hEnd, hThen⟩ := ih (fun n hn => hWhole n (List.mem_cons_of_mem node hn))
      (raw ++ node.text) (offset + node.byteLength)
    constructor
    · rw [ofBody, if_neg (by simp [hNode]), hEnd, Node.textOfAll, List.append_assoc]
    · intro semicolon rest hSemicolon
      rw [List.cons_append, ofBody, if_neg (by simp [hNode]), hThen semicolon rest hSemicolon,
        Node.textOfAll, List.append_assoc, Text.byteLength_append, ← Nat.add_assoc]
      rfl

theorem ofBody_raw {nodes : List Node} (h : IsRaw nodes) (selector property : Text) (offset : Nat) :
    ofBody selector (.atValue property) offset nodes =
      ofRaw property selector offset (Node.textOfAll nodes) := by
  obtain ⟨node, rest, rfl, hHead⟩ := h.head
  have hNode := h.whole node List.mem_cons_self
  rw [ofBody, if_neg (by simp [hHead]), if_neg (by simp [hNode]),
    (ofBody_inValue selector property offset (fun n hn => h.whole n (List.mem_cons_of_mem node hn))
      _ _).1, Node.textOfAll]

theorem ofBody_raw_semicolon {nodes : List Node} (h : IsRaw nodes) {semicolon : Node}
    (hSemicolon : isSemicolon semicolon = true) (selector property : Text) (offset : Nat)
    (rest : List Node) :
    ofBody selector (.atValue property) offset (nodes ++ semicolon :: rest) =
      ofRaw property selector offset (Node.textOfAll nodes) ++
        ofBody selector .idle
          (offset + Text.byteLength (Node.textOfAll nodes) + semicolon.byteLength) rest := by
  obtain ⟨node, more, rfl, hHead⟩ := h.head
  have hNode := h.whole node List.mem_cons_self
  rw [List.cons_append, ofBody, if_neg (by simp [hHead]), if_neg (by simp [hNode]),
    (ofBody_inValue selector property offset (fun n hn => h.whole n (List.mem_cons_of_mem node hn))
      _ _).2 semicolon rest hSemicolon, Node.textOfAll, Text.byteLength_append, ← Nat.add_assoc]
  rfl

inductive BodyState.IsBetween : BodyState → Prop
  | outside {state : BodyState} : state.IsOutside → IsBetween state
  | atValue (property : Text) : IsBetween (.atValue property)

theorem Passes.isBetween {state next : BodyState} {node : Node} (h : Passes state node next) :
    next.IsBetween := by
  cases h with
  | outside _ after _ => exact .outside after
  | colon => exact .atValue _
  | ignored => exact .atValue _
  | semicolon => exact .outside .idle

theorem ofBody_nil {state : BodyState} (h : state.IsBetween) (selector : Text) (offset : Nat) :
    ofBody selector state offset [] = [] := by
  cases h with
  | outside h => cases h <;> rfl
  | atValue => rfl

/-- A value reaches up to the first semicolon, or up to the end of the body. -/
theorem isRaw_or_exists_isRaw_append {node : Node} (hIgnored : isIgnored node = false)
    (hSemicolon : isSemicolon node = false) (nodes : List Node) :
    IsRaw (node :: nodes) ∨ ∃ value semicolon rest, node :: nodes = value ++ semicolon :: rest ∧
      IsRaw value ∧ isSemicolon semicolon = true := by
  have hSplit := List.takeWhile_append_dropWhile (p := fun n => !isSemicolon n) (l := node :: nodes)
  have hRaw : IsRaw ((node :: nodes).takeWhile fun n => !isSemicolon n) := by
    constructor
    · refine ⟨node, nodes.takeWhile fun n => !isSemicolon n, ?_, hIgnored⟩
      rw [List.takeWhile_cons_of_pos (by simp [hSemicolon])]
    · intro n hMem
      simpa using List.mem_takeWhile_imp hMem
  cases hRest : (node :: nodes).dropWhile fun n => !isSemicolon n with
  | nil =>
    rw [hRest, List.append_nil] at hSplit
    exact .inl (hSplit ▸ hRaw)
  | cons semicolon rest =>
    have hEnd : isSemicolon semicolon = true := by
      have h := List.head?_dropWhile_not (fun n => !isSemicolon n) (node :: nodes)
      rw [hRest] at h
      simpa using h
    rw [hRest] at hSplit
    exact .inr ⟨_, semicolon, rest, hSplit.symm, hRaw, hEnd⟩

/-- The induction along the reading of a body. -/
theorem body_induction {motive : BodyState → List Node → Prop}
    (nil : ∀ state, state.IsBetween → motive state [])
    (pass : ∀ state node next nodes, Passes state node next → motive next nodes →
      motive state (node :: nodes))
    (last : ∀ property nodes, IsRaw nodes → motive (.atValue property) nodes)
    (value : ∀ property nodes semicolon rest, IsRaw nodes → isSemicolon semicolon = true →
      motive .idle rest → motive (.atValue property) (nodes ++ semicolon :: rest))
    (state : BodyState) (hState : state.IsBetween) (nodes : List Node) : motive state nodes := by
  induction hn : nodes.length using Nat.strongRecOn generalizing state nodes with
  | ind n ih =>
    cases nodes with
    | nil => exact nil state hState
    | cons node nodes =>
      have hPass {next : BodyState} (h : Passes state node next) : motive state (node :: nodes) :=
        pass state node next nodes h
          (ih nodes.length (by rw [← hn, List.length_cons]; omega) next h.isBetween nodes rfl)
      cases hState with
      | outside hOutside =>
        obtain ⟨next, hNext⟩ := exists_passes hOutside node
        exact hPass hNext
      | atValue property =>
        cases hIgnored : isIgnored node with
        | true => exact hPass (.ignored hIgnored)
        | false =>
          cases hSemicolon : isSemicolon node with
          | true => exact hPass (.semicolon hSemicolon)
          | false =>
            rcases isRaw_or_exists_isRaw_append hIgnored hSemicolon nodes with
              hRaw | ⟨raw, semicolon, rest, hSplit, hRaw, hEnd⟩
            · exact last property _ hRaw
            · have hLength := congrArg List.length hSplit
              rw [hn, List.length_append, List.length_cons] at hLength
              rw [hSplit]
              exact value property raw semicolon rest hRaw hEnd
                (ih rest.length (by omega) .idle (.outside .idle) rest rfl)

/-! ## Rules -/

variable {context : List Text} {state next : RuleState} {node : Node} {nodes : List Node}
  {found declarations : List Declaration}

theorem ofRules_cons_eq_some_iff :
    ofRules context state offset (node :: nodes) = some declarations ↔
      ∃ found next more, ofNode context state offset node = some (found, next) ∧
        ofRules context next (offset + node.byteLength) nodes = some more ∧
        declarations = found ++ more := by
  rw [ofRules]
  constructor
  · intro h
    cases hNode : ofNode context state offset node with
    | none => rw [hNode] at h; cases h
    | some result =>
      obtain ⟨found, next⟩ := result
      rw [hNode] at h
      obtain ⟨more, hMore, rfl⟩ := Option.map_eq_some_iff.mp h
      exact ⟨found, next, more, rfl, hMore, rfl⟩
  · rintro ⟨found, next, more, hNode, hMore, rfl⟩
    rw [hNode]
    simp only
    rw [hMore]
    rfl

/-- A node of a list of rules gives nothing, or it is the body of a style rule, or the block of an
at-rule. -/
inductive NodeReading (context : List Text) (state next : RuleState) : Node → Nat →
    List Declaration → Prop
  | nothing {node : Node} {offset : Nat}
      (step : ∀ offset, ofNode context state offset node = some ([], next)) :
      NodeReading context state next node offset []
  | body {opener : Token} {nodes : List Node} {closer : Option Token} {offset : Nat} {selector : Text}
      (step : ∀ offset nodes, ofNode context state offset (.block .curly opener nodes closer) =
        some (ofBody selector .idle (offset + Text.byteLength opener.text) nodes, next)) :
      NodeReading context state next (.block .curly opener nodes closer) offset
        (ofBody selector .idle (offset + Text.byteLength opener.text) nodes)
  | rules {opener : Token} {nodes : List Node} {closer : Option Token} {offset : Nat}
      {inner : List Text} {found : List Declaration}
      (read : ofRules inner (.between true) (offset + Text.byteLength opener.text) nodes = some found)
      (step : ∀ offset nodes, ofNode context state offset (.block .curly opener nodes closer) =
        (ofRules inner (.between true) (offset + Text.byteLength opener.text) nodes).map (·, next)) :
      NodeReading context state next (.block .curly opener nodes closer) offset found

theorem nodeReading (h : ofNode context state offset node = some (found, next)) :
    NodeReading context state next node offset found := by
  cases node with
  | leaf token =>
    rw [ofNode] at h
    cases h
    exact .nothing fun _ => by rw [ofNode]
  | block bracket opener body closer =>
    by_cases hCurly : bracket = .curly
    · subst hCurly
      cases state with
      | between isFirst =>
        simp only [ofNode, ↓reduceIte, Option.some.injEq, Prod.mk.injEq] at h
        obtain ⟨rfl, rfl⟩ := h
        exact .body fun _ _ => by simp [ofNode]
      | inCharset =>
        simp only [ofNode, ↓reduceIte, Option.some.injEq, Prod.mk.injEq] at h
        obtain ⟨rfl, rfl⟩ := h
        exact .nothing fun _ => by simp [ofNode]
      | inAtRule name prelude =>
        cases hSkipped : isSkippedAtRule name with
        | true =>
          simp only [ofNode, ↓reduceIte, hSkipped, Option.some.injEq, Prod.mk.injEq] at h
          obtain ⟨rfl, rfl⟩ := h
          exact .nothing fun _ => by simp [ofNode, hSkipped]
        | false =>
          simp only [ofNode, ↓reduceIte, hSkipped, Bool.false_eq_true] at h
          obtain ⟨inner, hInner, hEq⟩ := Option.map_eq_some_iff.mp h
          simp only [Prod.mk.injEq] at hEq
          obtain ⟨rfl, rfl⟩ := hEq
          exact .rules hInner fun _ _ => by simp [ofNode, hSkipped]
      | inStyleRule prelude =>
        simp only [ofNode, ↓reduceIte, Option.some.injEq, Prod.mk.injEq] at h
        obtain ⟨rfl, rfl⟩ := h
        exact .body fun _ _ => by simp [ofNode]
    · simp only [ofNode, hCurly, ↓reduceIte, Option.some.injEq, Prod.mk.injEq] at h
      obtain ⟨rfl, rfl⟩ := h
      exact .nothing fun _ => by simp [ofNode, hCurly]

theorem rules_induction {motive : List Node → Prop} (nil : motive [])
    (cons : ∀ node nodes,
      (∀ bracket opener body closer, node = .block bracket opener body closer → motive body) →
      motive nodes → motive (node :: nodes))
    (nodes : List Node) : motive nodes := by
  induction hn : sizeOf nodes using Nat.strongRecOn generalizing nodes with
  | ind n ih =>
    cases nodes with
    | nil => exact nil
    | cons node nodes =>
      subst hn
      refine cons node nodes (fun bracket opener body closer hNode => ?_) (ih _ ?_ nodes rfl)
      · refine ih _ ?_ body rfl
        rw [hNode]
        simp only [List.cons.sizeOf_spec, Node.block.sizeOf_spec]
        omega
      · simp only [List.cons.sizeOf_spec]
        omega

end Declaration

end DesignParams
