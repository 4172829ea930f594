import DesignParams.Text.Blank

/-!
# Quoted literals

A literal stands bare or between two equal quotes of one of three kinds.
-/
set_option autoImplicit false

namespace DesignParams

def isQuote (c : Char) : Bool :=
  c = '\'' || c = '"' || c = '\x60'

namespace Text

/-- Trims a text and removes one pair of matching quotes around it. -/
def unquoted (s : Text) : Text :=
  match trim s with
  | [] => []
  | q :: rest =>
    if isQuote q && rest.getLast? = some q then rest.dropLast else q :: rest

end Text

end DesignParams
