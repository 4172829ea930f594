import DesignParams.Json.Value

/-!
# JSON texts

A value is written on one line, or over several with two spaces for each level. Strings escape
quotes, backslashes and control characters and nothing else.
-/
set_option autoImplicit false

namespace DesignParams

namespace Json

def hexDigit (n : Nat) : Char :=
  if n < 10 then Char.ofNat (48 + n) else Char.ofNat (87 + n)

def escapeChar (c : Char) : Text :=
  if c = '"' then ['\\', '"']
  else if c = '\\' then ['\\', '\\']
  else if c = '\x08' then ['\\', 'b']
  else if c = '\x0C' then ['\\', 'f']
  else if c = '\n' then ['\\', 'n']
  else if c = '\r' then ['\\', 'r']
  else if c = '\t' then ['\\', 't']
  else if c.toNat < 32 then ['\\', 'u', '0', '0', hexDigit (c.toNat / 16), hexDigit (c.toNat % 16)]
  else [c]

def quoted (s : Text) : Text :=
  '"' :: s.flatMap escapeChar ++ ['"']

mutual

def compact : Json → Text
  | .null => "null".toList
  | .bool true => "true".toList
  | .bool false => "false".toList
  | .number n => n.text
  | .string s => quoted s
  | .array items => '[' :: Text.join [','] (compactItems items) ++ [']']
  | .object members => '\x7B' :: Text.join [','] (compactMembers members) ++ ['\x7D']

def compactItems : List Json → List Text
  | [] => []
  | item :: items => compact item :: compactItems items

def compactMembers : List (Text × Json) → List Text
  | [] => []
  | (key, value) :: members => (quoted key ++ ':' :: compact value) :: compactMembers members

end

def lineAt (level : Nat) : Text :=
  '\n' :: Text.repeated ' ' (2 * level)

mutual

/-- The value over several lines, inside brackets of the given level. -/
def prettyAt (level : Nat) : Json → Text
  | .null => "null".toList
  | .bool true => "true".toList
  | .bool false => "false".toList
  | .number n => n.text
  | .string s => quoted s
  | .array [] => ['[', ']']
  | .array (item :: items) =>
    '[' :: lineAt (level + 1) ++ prettyAt (level + 1) item ++ prettyItems (level + 1) items ++
      lineAt level ++ [']']
  | .object [] => ['\x7B', '\x7D']
  | .object ((key, value) :: members) =>
    '\x7B' :: lineAt (level + 1) ++ (quoted key ++ ':' :: ' ' :: prettyAt (level + 1) value) ++
      prettyMembers (level + 1) members ++ lineAt level ++ ['\x7D']

def prettyItems (level : Nat) : List Json → Text
  | [] => []
  | item :: items => ',' :: lineAt level ++ prettyAt level item ++ prettyItems level items

def prettyMembers (level : Nat) : List (Text × Json) → Text
  | [] => []
  | (key, value) :: members =>
    ',' :: lineAt level ++ (quoted key ++ ':' :: ' ' :: prettyAt level value) ++
      prettyMembers level members

end

def pretty (value : Json) : Text :=
  prettyAt 0 value

end Json

end DesignParams
