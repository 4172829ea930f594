import DesignParams.Stylesheet.Node
import DesignParams.Text.Blank
import DesignParams.Text.Position

/-!
# Declarations of a stylesheet

A well-formed stylesheet is a list of rules: style rules with declarations, and at-rules, whose
blocks hold rules again. Each declaration is read with the byte span of its value. A rule without
its block spoils the whole list, and then nothing is read.
-/
set_option autoImplicit false

namespace DesignParams

structure Declaration where
  /-- The property name in lower case. -/
  property : Text
  /-- The value, trimmed and without a priority annotation. -/
  value : Text
  /-- The byte span of the value. -/
  start : Nat
  stop : Nat
  /-- The selector behind the preludes of the at-rules around it. -/
  selector : Text
  position : Position
deriving DecidableEq, Repr

namespace Declaration

/-- At-rules whose blocks are passed over. -/
def skippedAtRules : List Text :=
  ["keyframes".toList, "-webkit-keyframes".toList, "font-face".toList, "page".toList]

def isSkippedAtRule (name : Text) : Bool :=
  skippedAtRules.any (Text.eqIgnoringCase name)

/-- Each comment gives way to a space; a comment that is not closed is left. -/
def blankComments : Text → Text
  | [] => []
  | c :: s =>
    match _hOpen : Text.after? ['/', '*'] (c :: s) with
    | none => c :: blankComments s
    | some rest =>
      match _hClose : Text.splitOnce? ['*', '/'] rest with
      | none => c :: s
      | some (_, after) => ' ' :: blankComments after
termination_by s => s.length
decreasing_by
  · simp
  · have hRest := congrArg List.length (Text.append_of_after? _hOpen)
    have hAfter := congrArg List.length (Text.append_of_splitOnce? _hClose)
    simp only [List.length_append, List.length_cons, List.length_nil] at hRest hAfter ⊢
    omega

def normalizePrelude (s : Text) : Text :=
  Text.join [' '] (Text.words (blankComments s))

/-- A trimmed value without the annotation `!important` at its end. -/
def dropPriority (value : Text) : Text :=
  match Text.afterFolded? "important".toList.reverse value.reverse with
  | none => value
  | some rest =>
    match rest.dropWhile isBlank with
    | '!' :: before => (before.dropWhile isBlank).reverse
    | _ => value

/-- The declaration with a raw value that begins at a byte offset, unless the value is empty. -/
def ofRaw (property selector : Text) (start : Nat) (raw : Text) : List Declaration :=
  let value := dropPriority (Text.trim raw)
  if value.isEmpty then []
  else
    let begin := start + Text.byteLength (Text.leadingBlank raw)
    [{ property := Text.asciiLowered property, value, start := begin,
       stop := begin + Text.byteLength value, selector, position := ⟨0, 0⟩ }]

/-- How far the body of a style rule has been read. -/
inductive BodyState where
  | idle
  /-- In an at-rule, which is dropped with its block or up to a semicolon. -/
  | inAtRule
  /-- In something else, which is dropped up to a semicolon. -/
  | inJunk
  /-- Behind a property name. -/
  | named (property : Text)
  | atValue (property : Text)
  | inValue (property : Text) (start : Nat) (raw : Text)

def isIgnored : Node → Bool
  | .leaf token => token.kind = .blank ∨ token.kind = .comment
  | .block .. => false

def isSemicolon : Node → Bool
  | .leaf token => token.kind = .semicolon
  | .block .. => false

def ofBody (selector : Text) : BodyState → Nat → List Node → List Declaration
  | .inValue property start raw, _, [] => ofRaw property selector start raw
  | _, _, [] => []
  | .idle, offset, node :: nodes =>
    let state : BodyState :=
      match node with
      | .block .. => .inJunk
      | .leaf token =>
        match token.kind with
        | .blank | .comment | .semicolon | .closer .curly => .idle
        | .atKeyword _ => .inAtRule
        | .ident name => .named name
        | _ => .inJunk
    ofBody selector state (offset + node.byteLength) nodes
  | .inAtRule, offset, node :: nodes =>
    let state : BodyState :=
      match node with
      | .block .curly .. => .idle
      | _ => if isSemicolon node then .idle else .inAtRule
    ofBody selector state (offset + node.byteLength) nodes
  | .inJunk, offset, node :: nodes =>
    ofBody selector (if isSemicolon node then .idle else .inJunk) (offset + node.byteLength) nodes
  | .named property, offset, node :: nodes =>
    let state : BodyState :=
      if isIgnored node then .named property
      else if isSemicolon node then .idle
      else
        match node with
        | .leaf token => if token.kind = .colon then .atValue property else .inJunk
        | .block .. => .inJunk
    ofBody selector state (offset + node.byteLength) nodes
  | .atValue property, offset, node :: nodes =>
    let state : BodyState :=
      if isIgnored node then .atValue property
      else if isSemicolon node then .idle
      else .inValue property offset node.text
    ofBody selector state (offset + node.byteLength) nodes
  | .inValue property start raw, offset, node :: nodes =>
    if isSemicolon node then
      ofRaw property selector start raw ++ ofBody selector .idle (offset + node.byteLength) nodes
    else ofBody selector (.inValue property start (raw ++ node.text)) (offset + node.byteLength) nodes

theorem ofBody_inValue_nil (selector property raw : Text) (start offset : Nat) :
    ofBody selector (.inValue property start raw) offset [] = ofRaw property selector start raw := by
  rw [ofBody]

inductive RuleState where
  /-- Before a rule; `isFirst` tells that there was none yet. -/
  | between (isFirst : Bool)
  /-- In a leading character-set rule, which is dropped. -/
  | inCharset
  | inAtRule (name : Text) (prelude : Text)
  | inStyleRule (prelude : Text)

def inContext (context : List Text) (selector : Text) : Text :=
  if context.isEmpty then selector else Text.join [' '] (context ++ [selector])

def contextEntry (name : Text) (prelude : Text) : Text :=
  let normalized := normalizePrelude prelude
  if normalized.isEmpty then '@' :: name else '@' :: name ++ ' ' :: normalized

def RuleState.onToken (state : RuleState) (token : Token) : RuleState :=
  match state with
  | .between isFirst =>
    match token.kind with
    | .blank | .comment | .marker => .between isFirst
    | .atKeyword name =>
      if isFirst ∧ Text.eqIgnoringCase name "charset".toList then .inCharset else .inAtRule name []
    | _ => .inStyleRule token.text
  | .inCharset => if token.kind = .semicolon then .between false else .inCharset
  | .inAtRule name prelude =>
    if token.kind = .semicolon then .between false else .inAtRule name (prelude ++ token.text)
  | .inStyleRule prelude => .inStyleRule (prelude ++ token.text)

/-- Reads a block of a list of rules that is not a rule's own block. -/
def RuleState.onText (state : RuleState) (text : Text) : RuleState :=
  match state with
  | .between _ => .inStyleRule text
  | .inCharset => .inCharset
  | .inAtRule name prelude => .inAtRule name (prelude ++ text)
  | .inStyleRule prelude => .inStyleRule (prelude ++ text)

mutual

/-- The declarations of a list of rules that begins at a byte offset, unless a rule lacks its
block. -/
def ofRules (context : List Text) (state : RuleState) (offset : Nat) :
    List Node → Option (List Declaration)
  | [] =>
    match state with
    | .inStyleRule _ => none
    | _ => some []
  | node :: nodes =>
    match ofNode context state offset node with
    | none => none
    | some (found, next) =>
      (ofRules context next (offset + node.byteLength) nodes).map (found ++ ·)

def ofNode (context : List Text) (state : RuleState) (offset : Nat) :
    Node → Option (List Declaration × RuleState)
  | .leaf token => some ([], state.onToken token)
  | .block bracket opener body closer =>
    if bracket = .curly then
      let inner := offset + Text.byteLength opener.text
      match state with
      -- A block without a selector is the body of a rule that selects nothing.
      | .between _ => some (ofBody (inContext context []) .idle inner body, .between false)
      | .inCharset => some ([], .between false)
      | .inAtRule name prelude =>
        if isSkippedAtRule name then some ([], .between false)
        else
          -- In a group, too, a character-set rule may come first.
          (ofRules (context ++ [contextEntry name prelude]) (.between true) inner body).map
            (·, .between false)
      | .inStyleRule prelude =>
        some (ofBody (inContext context (normalizePrelude prelude)) .idle inner body, .between false)
    else some ([], state.onText (Node.block bracket opener body closer).text)

end

def located (css : Text) (declarations : List Declaration) : List Declaration :=
  let index := LineIndex.ofText css
  declarations.map fun d => { d with position := index.locate d.start }

/-- The declarations of a well-formed stylesheet, in source order. -/
def structural? (css : Text) : Option (List Declaration) :=
  (ofRules [] (.between true) 0 (Node.ofText css)).map (located css)

end Declaration

end DesignParams
