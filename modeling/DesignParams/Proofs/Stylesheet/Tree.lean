import DesignParams.Stylesheet.Node
import DesignParams.Proofs.Stylesheet.Cut

/-!
# Trees of tokens

A tree is formed when its leaves open nothing, the brackets of its blocks match, and only its last
block, and then that block's last one, may lack its closing bracket. The trees that tokens are
gathered into are the formed ones, and each formed tree is gathered again from its own tokens.
-/
set_option autoImplicit false

namespace DesignParams

namespace Node

mutual

def tokens : Node → List Token
  | .leaf token => [token]
  | .block _ opener body closer => opener :: (tokensOfAll body ++ closer.toList)

def tokensOfAll : List Node → List Token
  | [] => []
  | node :: nodes => tokens node ++ tokensOfAll nodes

end

@[simp] theorem tokensOfAll_append (nodes nodes' : List Node) :
    tokensOfAll (nodes ++ nodes') = tokensOfAll nodes ++ tokensOfAll nodes' := by
  induction nodes with
  | nil => rfl
  | cons node nodes ih => rw [List.cons_append, tokensOfAll, tokensOfAll, ih, List.append_assoc]

mutual

theorem text_eq_textOf (node : Node) : node.text = Token.textOf node.tokens := by
  cases node with
  | leaf token => simp [text, tokens]
  | block bracket opener body closer =>
    cases closer <;> simp [text, tokens, textOfAll_eq_textOf body]

theorem textOfAll_eq_textOf (nodes : List Node) : textOfAll nodes = Token.textOf (tokensOfAll nodes) := by
  cases nodes with
  | nil => rfl
  | cons node nodes =>
    rw [textOfAll, tokensOfAll, Token.textOf_append, text_eq_textOf node, textOfAll_eq_textOf nodes]

end

theorem text_block (bracket : Bracket) (opener : Token) (body : List Node) (closer : Option Token) :
    (Node.block bracket opener body closer).text =
      opener.text ++ (textOfAll body ++ Token.textOf closer.toList) := by
  rw [text_eq_textOf, textOfAll_eq_textOf]
  simp [tokens]

@[simp] theorem textOfAll_append (nodes nodes' : List Node) :
    textOfAll (nodes ++ nodes') = textOfAll nodes ++ textOfAll nodes' := by
  simp [textOfAll_eq_textOf]

theorem tokensOfAll_leaves (tokens : List Token) : tokensOfAll (tokens.map leaf) = tokens := by
  induction tokens with
  | nil => rfl
  | cons t tokens ih =>
    rw [List.map_cons, tokensOfAll, ih, Node.tokens]
    rfl

theorem textOfAll_leaves (tokens : List Token) :
    textOfAll (tokens.map leaf) = Token.textOf tokens := by
  rw [textOfAll_eq_textOf, tokensOfAll_leaves]

/-- Are the nodes formed inside a bracket, or at the top? Only with `unclosed` may the last block
lack its closing bracket. -/
inductive Formed : Bool → Option Bracket → List Node → Prop
  | nil {unclosed : Bool} {inside : Option Bracket} : Formed unclosed inside []
  | leaf {unclosed : Bool} {inside : Option Bracket} {token : Token} {nodes : List Node}
      (opens : ∀ b, token.kind ≠ .opener b) (closes : ∀ b ∈ inside, token.kind ≠ .closer b)
      (rest : Formed unclosed inside nodes) : Formed unclosed inside (.leaf token :: nodes)
  | block {unclosed : Bool} {inside : Option Bracket} {bracket : Bracket} {opener closer : Token}
      {body nodes : List Node} (opens : opener.kind = .opener bracket)
      (closes : closer.kind = .closer bracket) (inner : Formed false (some bracket) body)
      (rest : Formed unclosed inside nodes) :
      Formed unclosed inside (.block bracket opener body (some closer) :: nodes)
  | unclosed {inside : Option Bracket} {bracket : Bracket} {opener : Token} {body : List Node}
      (opens : opener.kind = .opener bracket) (inner : Formed true (some bracket) body) :
      Formed true inside [.block bracket opener body none]

theorem Formed.mono {unclosed : Bool} {inside : Option Bracket} {nodes : List Node}
    (h : Formed false inside nodes) : Formed unclosed inside nodes := by
  generalize hFalse : false = u at h
  induction h with
  | nil => exact .nil
  | leaf opens closes _ ih => exact .leaf opens closes (ih hFalse)
  | block opens closes inner _ _ ih => exact .block opens closes inner (ih hFalse)
  | unclosed => cases hFalse

theorem Formed.append {unclosed : Bool} {inside : Option Bracket} {nodes nodes' : List Node}
    (h : Formed false inside nodes) (h' : Formed unclosed inside nodes') :
    Formed unclosed inside (nodes ++ nodes') := by
  generalize hFalse : false = u at h
  induction h with
  | nil => exact h'
  | leaf opens closes _ ih => exact .leaf opens closes (ih h' hFalse)
  | block opens closes inner _ _ ih => exact .block opens closes inner (ih h' hFalse)
  | unclosed => cases hFalse

theorem Formed.of_append {unclosed : Bool} {inside : Option Bracket} {nodes nodes' : List Node}
    (h : Formed unclosed inside (nodes ++ nodes')) :
    Formed unclosed inside nodes ∧ Formed unclosed inside nodes' ∧
      (nodes' ≠ [] → Formed false inside nodes) := by
  induction nodes with
  | nil => exact ⟨.nil, h, fun _ => .nil⟩
  | cons node nodes ih =>
    rw [List.cons_append] at h
    generalize hAll : nodes ++ nodes' = all at h
    cases h with
    | leaf opens closes rest =>
      subst hAll
      obtain ⟨hFront, hBack, hClosed⟩ := ih rest
      exact ⟨.leaf opens closes hFront, hBack, fun hne => .leaf opens closes (hClosed hne)⟩
    | block opens closes inner rest =>
      subst hAll
      obtain ⟨hFront, hBack, hClosed⟩ := ih rest
      exact ⟨.block opens closes inner hFront, hBack, fun hne => .block opens closes inner (hClosed hne)⟩
    | unclosed opens inner =>
      obtain ⟨rfl, rfl⟩ := List.append_eq_nil_iff.mp hAll
      exact ⟨.unclosed opens inner, .nil, fun hne => absurd rfl hne⟩

theorem formed_leaves {unclosed : Bool} {inside : Option Bracket} {tokens : List Token}
    (h : ∀ t ∈ tokens, ∀ b, t.kind ≠ .opener b ∧ t.kind ≠ .closer b) :
    Formed unclosed inside (tokens.map Node.leaf) := by
  induction tokens with
  | nil => exact .nil
  | cons t tokens ih =>
    rw [List.forall_mem_cons] at h
    exact .leaf (fun b => (h.1 b).1) (fun b _ => (h.1 b).2) (ih h.2)

/-! ## The first token -/

theorem Formed.leaf_cons {unclosed : Bool} {inside : Option Bracket} {nodes : List Node}
    {t : Token} {ts more : List Token} (h : Formed unclosed inside nodes)
    (hMore : ∀ s ∈ more.head?, ∃ b, s.kind = .closer b)
    (hTokens : tokensOfAll nodes ++ more = t :: ts)
    (hKind : ∀ b, t.kind ≠ .opener b ∧ t.kind ≠ .closer b) :
    ∃ nodes', nodes = .leaf t :: nodes' ∧ Formed unclosed inside nodes' ∧
      tokensOfAll nodes' ++ more = ts := by
  cases h with
  | nil =>
    rw [tokensOfAll, List.nil_append] at hTokens
    obtain ⟨b, hb⟩ := hMore t (by rw [hTokens]; rfl)
    exact absurd hb (hKind b).2
  | leaf opens closes rest =>
    obtain ⟨rfl, hRest⟩ := List.cons.inj hTokens
    exact ⟨_, rfl, rest, hRest⟩
  | block opens closes inner rest =>
    obtain ⟨rfl, -⟩ := List.cons.inj hTokens
    exact absurd opens (hKind _).1
  | unclosed opens inner =>
    obtain ⟨rfl, -⟩ := List.cons.inj hTokens
    exact absurd opens (hKind _).1

theorem Formed.leaves_append {unclosed : Bool} {inside : Option Bracket} {ts more : List Token}
    (hMore : ∀ s ∈ more.head?, ∃ b, s.kind = .closer b) {front : List Token}
    (hKinds : ∀ t ∈ front, ∀ b, t.kind ≠ .opener b ∧ t.kind ≠ .closer b) :
    ∀ {nodes : List Node}, Formed unclosed inside nodes → tokensOfAll nodes ++ more = front ++ ts →
      ∃ nodes', nodes = front.map Node.leaf ++ nodes' ∧ Formed unclosed inside nodes' ∧
        tokensOfAll nodes' ++ more = ts := by
  induction front with
  | nil =>
    intro nodes h hTokens
    exact ⟨nodes, rfl, h, hTokens⟩
  | cons t front ih =>
    rw [List.forall_mem_cons] at hKinds
    intro nodes h hTokens
    obtain ⟨nodes', rfl, hNodes, hRest⟩ := h.leaf_cons hMore hTokens hKinds.1
    obtain ⟨behind, rfl, hBehind, hTail⟩ := ih hKinds.2 hNodes hRest
    exact ⟨behind, rfl, hBehind, hTail⟩

theorem Formed.block_cons {unclosed : Bool} {inside : Option Bracket} {nodes : List Node}
    {bracket : Bracket} {t : Token} {ts : List Token} (h : Formed unclosed inside nodes)
    (hTokens : tokensOfAll nodes = t :: ts) (hKind : t.kind = .opener bracket) :
    ∃ u body closer nodes', nodes = .block bracket t body closer :: nodes' ∧
      Formed u (some bracket) body ∧
      tokensOfAll body ++ (closer.toList ++ tokensOfAll nodes') = ts ∧
      (∀ s ∈ (closer.toList ++ tokensOfAll nodes').head?, s.kind = .closer bracket) ∧
      (closer.toList ++ tokensOfAll nodes' ≠ [] → u = false) := by
  cases h with
  | nil => cases hTokens
  | leaf opens closes rest =>
    obtain ⟨rfl, -⟩ := List.cons.inj hTokens
    exact absurd hKind (opens bracket)
  | @block _ _ b _ closer body nodes' opens closes inner rest =>
    obtain ⟨rfl, hRest⟩ := List.cons.inj hTokens
    obtain rfl : b = bracket := TokenKind.opener.inj (opens.symm.trans hKind)
    refine ⟨false, body, some closer, nodes', rfl, inner, ?_, fun s hs => ?_, fun _ => rfl⟩
    · rw [← hRest]
      simp
    · obtain rfl := Option.some.inj hs
      exact closes
  | @unclosed _ b _ body opens inner =>
    obtain ⟨rfl, hRest⟩ := List.cons.inj hTokens
    obtain rfl : b = bracket := TokenKind.opener.inj (opens.symm.trans hKind)
    refine ⟨true, body, none, [], rfl, inner, ?_, fun s hs => ?_, fun h => absurd rfl h⟩
    · rw [← hRest]
      simp [tokensOfAll]
    · cases hs

/-! ## Gathering -/

theorem gather_leaf {frames : List Frame} {nodes : List Node} {token : Token} {tokens : List Token}
    (hOpens : ∀ b, token.kind ≠ .opener b)
    (hCloses : ∀ b ∈ frames.head?.map (·.bracket), token.kind ≠ .closer b) :
    gather frames nodes (token :: tokens) = gather frames (.leaf token :: nodes) tokens := by
  cases hKind : token.kind with
  | opener b => exact absurd hKind (hOpens b)
  | closer b =>
    cases frames with
    | nil => simp only [gather, hKind]
    | cons frame outer =>
      have hOther : frame.bracket ≠ b := by
        rintro rfl
        exact hCloses frame.bracket rfl hKind
      simp only [gather, hKind, if_neg hOther]
  | _ => simp only [gather, hKind]

theorem gather_opener {frames : List Frame} {nodes : List Node} {token : Token}
    {tokens : List Token} {b : Bracket} (h : token.kind = .opener b) :
    gather frames nodes (token :: tokens) = gather (⟨b, token, nodes⟩ :: frames) [] tokens := by
  simp only [gather, h]

theorem gather_closer {frame : Frame} {outer : List Frame} {nodes : List Node} {token : Token}
    {tokens : List Token} (h : token.kind = .closer frame.bracket) :
    gather (frame :: outer) nodes (token :: tokens) =
      gather outer (.block frame.bracket frame.opener nodes.reverse (some token) :: frame.before)
        tokens := by
  simp only [gather, h, if_true]

/-- Formed nodes are gathered from their tokens, inside any open blocks. -/
theorem gather_tokensOfAll {unclosed : Bool} {inside : Option Bracket} {nodes : List Node}
    (h : Formed unclosed inside nodes) :
    ∀ (frames : List Frame) (before : List Node), frames.head?.map (·.bracket) = inside →
      (gather frames before (tokensOfAll nodes) = closeAll frames (nodes.reverse ++ before)) ∧
      (unclosed = false → ∀ rest, gather frames before (tokensOfAll nodes ++ rest) =
        gather frames (nodes.reverse ++ before) rest) := by
  induction h with
  | nil =>
    intro frames before _
    exact ⟨rfl, fun _ _ => rfl⟩
  | @leaf unclosed inside token nodes opens closes rest ih =>
    intro frames before hInside
    obtain ⟨hEnd, hRest⟩ := ih frames (.leaf token :: before) hInside
    have hLeaf {tokens : List Token} :
        gather frames before (token :: tokens) = gather frames (.leaf token :: before) tokens :=
      gather_leaf opens (hInside.symm ▸ closes)
    constructor
    · rw [tokensOfAll, tokens, List.singleton_append, hLeaf, hEnd]
      simp
    · intro hClosed following
      rw [tokensOfAll, tokens, List.singleton_append, List.cons_append, hLeaf, hRest hClosed]
      simp
  | @block unclosed inside bracket opener closer body nodes opens closes _ _ ihBody ihRest =>
    intro frames before hInside
    have hBody := (ihBody (⟨bracket, opener, before⟩ :: frames) [] rfl).2 rfl
    have hBlock (tokens : List Token) :
        gather frames before (opener :: (tokensOfAll body ++ closer :: tokens)) =
          gather frames (.block bracket opener body (some closer) :: before) tokens := by
      rw [gather_opener opens, hBody, gather_closer closes]
      simp
    obtain ⟨hEnd, hRest⟩ := ihRest frames (.block bracket opener body (some closer) :: before) hInside
    constructor
    · have hTokens : tokensOfAll (.block bracket opener body (some closer) :: nodes) =
          opener :: (tokensOfAll body ++ closer :: tokensOfAll nodes) := by
        simp [tokensOfAll, tokens]
      rw [hTokens, hBlock, hEnd]
      simp
    · intro hClosed following
      have hTokens : tokensOfAll (.block bracket opener body (some closer) :: nodes) ++ following =
          opener :: (tokensOfAll body ++ closer :: (tokensOfAll nodes ++ following)) := by
        simp [tokensOfAll, tokens]
      rw [hTokens, hBlock, hRest hClosed]
      simp
  | @unclosed inside bracket opener body opens _ ih =>
    intro frames before hInside
    refine ⟨?_, fun hClosed => absurd hClosed (by decide)⟩
    have hBody := (ih (⟨bracket, opener, before⟩ :: frames) [] rfl).1
    have hTokens : tokensOfAll [.block bracket opener body none] = opener :: tokensOfAll body := by
      simp [tokensOfAll, tokens]
    rw [hTokens, gather_opener opens, hBody, closeAll]
    simp

theorem ofTokens_tokensOfAll {nodes : List Node} (h : Formed true none nodes) :
    ofTokens (tokensOfAll nodes) = nodes := by
  rw [ofTokens, (gather_tokensOfAll h [] [] rfl).1, closeAll]
  simp

def tokensOfFrames : List Frame → List Token
  | [] => []
  | frame :: outer => tokensOfFrames outer ++ tokensOfAll frame.before.reverse ++ [frame.opener]

def FramesFormed : List Frame → Prop
  | [] => True
  | frame :: outer =>
    frame.opener.kind = .opener frame.bracket ∧
      Formed false (outer.head?.map (·.bracket)) frame.before.reverse ∧ FramesFormed outer

theorem formed_closeAll {frames : List Frame} {nodes : List Node} (hFrames : FramesFormed frames)
    (hNodes : Formed true (frames.head?.map (·.bracket)) nodes.reverse) :
    Formed true none (closeAll frames nodes) ∧
      tokensOfAll (closeAll frames nodes) = tokensOfFrames frames ++ tokensOfAll nodes.reverse := by
  induction frames generalizing nodes with
  | nil => exact ⟨hNodes, rfl⟩
  | cons frame outer ih =>
    obtain ⟨hOpens, hBefore, hOuter⟩ := hFrames
    have hBlock : Formed true (outer.head?.map (·.bracket))
        (Node.block frame.bracket frame.opener nodes.reverse none :: frame.before).reverse := by
      rw [List.reverse_cons]
      exact hBefore.append (.unclosed hOpens hNodes)
    obtain ⟨hFormed, hTokens⟩ := ih hOuter hBlock
    rw [closeAll]
    refine ⟨hFormed, ?_⟩
    rw [hTokens, tokensOfFrames]
    simp [tokensOfAll, tokens]

theorem formed_gather {frames : List Frame} {nodes : List Node} (tokens : List Token)
    (hFrames : FramesFormed frames)
    (hNodes : Formed false (frames.head?.map (·.bracket)) nodes.reverse) :
    Formed true none (gather frames nodes tokens) ∧
      tokensOfAll (gather frames nodes tokens) =
        tokensOfFrames frames ++ tokensOfAll nodes.reverse ++ tokens := by
  induction tokens generalizing frames nodes with
  | nil =>
    obtain ⟨hFormed, hTokens⟩ := formed_closeAll hFrames hNodes.mono
    rw [gather, List.append_nil]
    exact ⟨hFormed, hTokens⟩
  | cons token rest ih =>
    by_cases hOpens : ∃ b, token.kind = .opener b
    · obtain ⟨b, hb⟩ := hOpens
      have hOpened : FramesFormed (⟨b, token, nodes⟩ :: frames) := ⟨hb, hNodes, hFrames⟩
      obtain ⟨hFormed, hTokens⟩ := @ih _ [] hOpened .nil
      rw [gather_opener hb]
      refine ⟨hFormed, ?_⟩
      rw [hTokens, tokensOfFrames]
      simp [tokensOfAll]
    · simp only [not_exists] at hOpens
      by_cases hCloses : ∃ b ∈ frames.head?.map (·.bracket), token.kind = .closer b
      · obtain ⟨b, hInside, hb⟩ := hCloses
        cases frames with
        | nil => cases hInside
        | cons frame outer =>
          obtain rfl : frame.bracket = b := Option.some.inj hInside
          obtain ⟨hOpener, hBefore, hOuter⟩ := hFrames
          have hBlock : Formed false (outer.head?.map (·.bracket))
              (Node.block frame.bracket frame.opener nodes.reverse (some token) ::
                frame.before).reverse := by
            rw [List.reverse_cons]
            exact hBefore.append (.block hOpener hb hNodes .nil)
          obtain ⟨hFormed, hTokens⟩ := ih hOuter hBlock
          rw [gather_closer hb]
          refine ⟨hFormed, ?_⟩
          rw [hTokens, tokensOfFrames]
          simp [tokensOfAll, Node.tokens]
      · simp only [not_exists, not_and] at hCloses
        have hLeaf : Formed false (frames.head?.map (·.bracket)) (Node.leaf token :: nodes).reverse := by
          rw [List.reverse_cons]
          exact hNodes.append (.leaf hOpens hCloses .nil)
        obtain ⟨hFormed, hTokens⟩ := ih hFrames hLeaf
        rw [gather_leaf hOpens hCloses]
        refine ⟨hFormed, ?_⟩
        rw [hTokens]
        simp [tokensOfAll, Node.tokens]

theorem formed_ofTokens (tokens : List Token) : Formed true none (ofTokens tokens) :=
  (@formed_gather [] [] tokens trivial .nil).1

theorem tokensOfAll_ofTokens (tokens : List Token) : tokensOfAll (ofTokens tokens) = tokens :=
  (@formed_gather [] [] tokens trivial .nil).2

theorem tokensOfAll_ofText (s : Text) : tokensOfAll (ofText s) = Token.tokenize s :=
  tokensOfAll_ofTokens _

theorem textOfAll_ofText (s : Text) : textOfAll (ofText s) = s := by
  rw [textOfAll_eq_textOf, tokensOfAll_ofText]
  exact Token.flatMap_text_tokenize s

/-- The formed nodes whose tokens a text is cut into are the tree of the text. -/
theorem ofText_eq {s : Text} {nodes : List Node} (h : Formed true none nodes)
    (hTokens : Token.tokenize s = tokensOfAll nodes) : ofText s = nodes := by
  rw [ofText, hTokens, ofTokens_tokensOfAll h]

end Node

end DesignParams
