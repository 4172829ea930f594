import DesignParams.Json.Value
import DesignParams.Text.Printable

/-!
# Faults of JSON texts

Why a text is not the document it should be, and where: at a line and a column that count the
bytes read so far, the offending one included.
-/
set_option autoImplicit false

namespace DesignParams

inductive Found where
  | null
  | bool (b : Bool)
  | integer (n : Int)
  | decimal (x : Binary64)
  | string (s : Text)
  | sequence
  | map
deriving DecidableEq, Repr

inductive JsonFault where
  | endInValue
  | endInList
  | endInObject
  | endInString
  | expectedColon
  | expectedListEnd
  | expectedObjectEnd
  | expectedIdent
  | expectedValue
  | invalidEscape
  | invalidNumber
  | numberOutOfRange
  | loneSurrogate
  | unpairedSurrogate
  | controlCharacter
  | keyNotString
  | trailingComma
  | trailingCharacters
  | tooDeep
  | missingField (name : Text)
  | duplicateField (name : Text)
  | unknownVariant (name : Text) (expected : List Text)
  | invalidType (found : Found) (expected : Text)
  | invalidValue (found : Found) (expected : Text)
  | invalidLength (length : Nat) (expected : Text)
  | noVariant (expected : Text)
deriving DecidableEq, Repr

namespace Found

def ofNumber : JsonNumber → Found
  | .natural n => .integer n
  | .negative n => .integer (-(n : Int))
  | .decimal x => .decimal x

def message : Found → Text
  | .null => "null".toList
  | .bool true => "boolean `true`".toList
  | .bool false => "boolean `false`".toList
  | .integer n => "integer `".toList ++ Text.ofInt n ++ "`".toList
  | .decimal x => "floating point `".toList ++ x.write JsonNumber.layout ++ "`".toList
  | .string s => "string ".toList ++ Text.quotedVisible s
  | .sequence => "sequence".toList
  | .map => "map".toList

end Found

namespace JsonFault

def named (s : Text) : Text :=
  '\x60' :: s ++ ['\x60']

def oneOf : List Text → Text
  | [] => "there are no variants".toList
  | [a] => "expected ".toList ++ named a
  | [a, b] => "expected ".toList ++ named a ++ " or ".toList ++ named b
  | names => "expected one of ".toList ++ Text.join ", ".toList (names.map named)

def message : JsonFault → Text
  | .endInValue => "EOF while parsing a value".toList
  | .endInList => "EOF while parsing a list".toList
  | .endInObject => "EOF while parsing an object".toList
  | .endInString => "EOF while parsing a string".toList
  | .expectedColon => "expected `:`".toList
  | .expectedListEnd => "expected `,` or `]`".toList
  | .expectedObjectEnd => "expected `,` or `\x7D`".toList
  | .expectedIdent => "expected ident".toList
  | .expectedValue => "expected value".toList
  | .invalidEscape => "invalid escape".toList
  | .invalidNumber => "invalid number".toList
  | .numberOutOfRange => "number out of range".toList
  | .loneSurrogate => "lone leading surrogate in hex escape".toList
  | .unpairedSurrogate => "unexpected end of hex escape".toList
  | .controlCharacter =>
    "control character (\\u0000-\\u001F) found while parsing a string".toList
  | .keyNotString => "key must be a string".toList
  | .trailingComma => "trailing comma".toList
  | .trailingCharacters => "trailing characters".toList
  | .tooDeep => "recursion limit exceeded".toList
  | .missingField name => "missing field ".toList ++ named name
  | .duplicateField name => "duplicate field ".toList ++ named name
  | .unknownVariant name expected =>
    "unknown variant ".toList ++ named name ++ ", ".toList ++ oneOf expected
  | .invalidType found expected =>
    "invalid type: ".toList ++ found.message ++ ", expected ".toList ++ expected
  | .invalidValue found expected =>
    "invalid value: ".toList ++ found.message ++ ", expected ".toList ++ expected
  | .invalidLength length expected =>
    "invalid length ".toList ++ Text.ofNat length ++ ", expected ".toList ++ expected
  | .noVariant expected =>
    "data did not match any variant of untagged enum ".toList ++ expected

end JsonFault

/-- A fault while reading: `rest` is what was left to read, and the fault lies `past` bytes into
it. A fault of the shape of a value is settled at the end of the brackets around it. -/
structure JsonFailure where
  fault : JsonFault
  rest : Text
  past : Nat
  settled : Bool
deriving DecidableEq, Repr

structure JsonError where
  fault : JsonFault
  place : Option (Nat × Nat)
deriving DecidableEq, Repr

namespace JsonError

/-- Line and column behind a count of bytes; the column counts the bytes of the line so far. -/
def placeFrom (line column : Nat) : Nat → Text → Nat × Nat
  | count, [] => (line, column + count)
  | count, c :: s =>
    if c.utf8Size ≤ count then
      if c = '\n' then placeFrom (line + 1) 0 (count - 1) s
      else placeFrom line (column + c.utf8Size) (count - c.utf8Size) s
    else (line, column + count)

/-- The place of a failure in the text that was read. No fault lies behind the end. -/
def ofFailure (source : Text) (failure : JsonFailure) : JsonError :=
  let total := Text.byteLength source
  let count := min total (total - Text.byteLength failure.rest + failure.past)
  ⟨failure.fault, some (placeFrom 1 0 count source)⟩

def message (e : JsonError) : Text :=
  match e.place with
  | none => e.fault.message
  | some (line, column) =>
    e.fault.message ++ " at line ".toList ++ Text.ofNat line ++ " column ".toList ++ Text.ofNat column

end JsonError

end DesignParams
