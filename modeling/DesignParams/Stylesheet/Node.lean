import DesignParams.Stylesheet.Token

/-!
# Nested brackets

Tokens are gathered into a tree of bracketed blocks. Inside a block only its own closing bracket
closes it, every other one is an ordinary token, and the end of the text closes every block.
-/
set_option autoImplicit false

namespace DesignParams

inductive Node where
  | leaf (token : Token)
  | block (bracket : Bracket) (opener : Token) (body : List Node) (closer : Option Token)
deriving Repr

namespace Node

mutual

def text : Node → Text
  | .leaf token => token.text
  | .block _ opener body closer =>
    opener.text ++ textOfAll body ++ (match closer with | some token => token.text | none => [])

def textOfAll : List Node → Text
  | [] => []
  | node :: nodes => text node ++ textOfAll nodes

end

def byteLength (node : Node) : Nat :=
  Text.byteLength node.text

/-- A block that is still open, and the nodes before it in reverse. -/
structure Frame where
  bracket : Bracket
  opener : Token
  before : List Node

def closeAll : List Frame → List Node → List Node
  | [], nodes => nodes.reverse
  | frame :: frames, nodes =>
    closeAll frames (.block frame.bracket frame.opener nodes.reverse none :: frame.before)

/-- Gathers tokens, with the open blocks and the reversed nodes of the innermost one. -/
def gather : List Frame → List Node → List Token → List Node
  | frames, nodes, [] => closeAll frames nodes
  | frames, nodes, token :: tokens =>
    match token.kind, frames with
    | .opener bracket, frames => gather (⟨bracket, token, nodes⟩ :: frames) [] tokens
    | .closer bracket, frame :: outer =>
      if frame.bracket = bracket then
        gather outer (.block bracket frame.opener nodes.reverse (some token) :: frame.before) tokens
      else gather (frame :: outer) (.leaf token :: nodes) tokens
    | _, frames => gather frames (.leaf token :: nodes) tokens

def ofTokens (tokens : List Token) : List Node :=
  gather [] [] tokens

def ofText (s : Text) : List Node :=
  ofTokens (Token.tokenize s)

end Node

end DesignParams
