import DesignParams.Json.Value
import DesignParams.Yaml.Char
import DesignParams.Yaml.Plain

/-!
# Writing YAML

Values are written in block style. A scalar stands plain where it can, within single quotes where
it would be read as another value, as a literal block if it has lines, and within double quotes if
it holds characters that need an escape. The lists in a mapping are not indented.
-/
set_option autoImplicit false

namespace DesignParams

namespace Yaml

/-- Numbers in YAML: an exponent has no plus sign, and infinity has a name of its own. -/
def numberLayout : NumberLayout :=
  { plus := false, infinity := ".inf".toList, signedInfinity := true }

def numberText : JsonNumber → Text
  | .natural n => Text.ofNat n
  | .negative n => '-' :: Text.ofNat n
  | .decimal x => x.write numberLayout

/-! ## What a text allows -/

def indicators : List Char :=
  ['#', ',', '[', ']', '\x7B', '\x7D', '&', '*', '!', '|', '>', '\'', '"', '%', '@', '\x60']

/-- Is there a character that satisfies `first`, and one that satisfies `second` behind it? -/
def hasPair (first second : Char → Bool) : Text → Bool
  | c :: d :: s => (first c && second d) || hasPair first second (d :: s)
  | _ => false

def startsLikeMark (s : Text) : Bool :=
  Text.startsWith s "---".toList || Text.startsWith s "...".toList ||
    match s with
    | [] => false
    | c :: rest =>
      indicators.contains c || ((c = '?' || c = ':' || c = '-') && rest.head?.all isGap)

def holdsMark (s : Text) : Bool :=
  hasPair (· = ':') isGap s || s.getLast? = some ':' || hasPair isGap (· = '#') s

def isPadded (s : Text) : Bool :=
  let isPad (c : Char) : Bool := c = ' ' || isBreak c
  s.head?.any isPad || s.getLast?.any isPad

def hasLines (s : Text) : Bool :=
  s.any isBreak

/-- Is there a character that only double quotes can hold, or a space before a line break? -/
def isSpecial (s : Text) : Bool :=
  s.any (!isPrintable ·) || hasPair (· = ' ') isBreak s

def allowsPlain (s : Text) : Bool :=
  !(startsLikeMark s || holdsMark s || isPadded s || hasLines s || isSpecial s)

def allowsSingleQuotes (s : Text) : Bool :=
  !(isSpecial s || hasPair isBreak (· = ' ') s)

def allowsBlock (s : Text) : Bool :=
  !s.isEmpty && !isSpecial s && s.getLast? ≠ some ' '

/-! ## Scalars -/

def spaces (count : Nat) : Text :=
  Text.repeated ' ' count

def singleQuotedFrom (indent : Nat) (behindBreak : Bool) : Text → Text
  | [] => if behindBreak then spaces indent else []
  | c :: s =>
    if isBreak c then c :: singleQuotedFrom indent true s
    else
      (if behindBreak then spaces indent else []) ++
        (if c = '\'' then ['\'', '\''] else [c]) ++ singleQuotedFrom indent false s

def singleQuoted (indent : Nat) (s : Text) : Text :=
  '\'' :: singleQuotedFrom indent false s ++ ['\'']

def upperHexDigit (n : Nat) : Char :=
  if n < 10 then Char.ofNat (48 + n) else Char.ofNat (55 + n)

def hexText : Nat → Nat → Text
  | 0, _ => []
  | width + 1, n => hexText width (n / 16) ++ [upperHexDigit (n % 16)]

def namedEscapes : List (Char × Char) :=
  [('\x00', '0'), ('\x07', 'a'), ('\x08', 'b'), ('\t', 't'), ('\n', 'n'), ('\x0B', 'v'),
    ('\x0C', 'f'), ('\r', 'r'), ('\x1B', 'e'), ('"', '"'), ('\\', '\\'), ('\u0085', 'N'),
    ('\u2028', 'L'), ('\u2029', 'P')]

def doubleQuotedChar (c : Char) : Text :=
  match namedEscapes.lookup c with
  | some letter => ['\\', letter]
  | none =>
    let n := c.toNat
    if isPrintable c then [c]
    else if n ≤ 0xFF then '\\' :: 'x' :: hexText 2 n
    else if n ≤ 0xFFFF then '\\' :: 'u' :: hexText 4 n
    else '\\' :: 'U' :: hexText 8 n

def doubleQuoted (s : Text) : Text :=
  '"' :: s.flatMap doubleQuotedChar ++ ['"']

/-- What a literal block says of its text: its indentation if it begins with space, and what
becomes of the line breaks at its end. -/
def literalHints (s : Text) : Text :=
  let start := if s.head?.any fun c => c = ' ' || isBreak c then ['2'] else []
  let breaks := (s.reverse.takeWhile isBreak).length
  start ++
    if breaks = 0 then ['-'] else if breaks = 1 ∧ breaks < s.length then [] else ['+']

def literalFrom (indent : Nat) (behindBreak : Bool) : Text → Text
  | [] => []
  | c :: s =>
    if isBreak c then c :: literalFrom indent true s
    else (if behindBreak then spaces indent else []) ++ c :: literalFrom indent false s

def literal (indent : Nat) (s : Text) : Text :=
  '|' :: literalHints s ++ '\n' :: literalFrom indent true s

/-- A text that is read back as such; `isKey` if it is the key of an entry on the same line. The
lines of a text are indented. -/
def stringText (isKey : Bool) (indent : Nat) (s : Text) : Text :=
  if s.any (· = '\n') then
    if allowsBlock s && !isKey then literal indent s else doubleQuoted s
  else if isKey && hasLines s then doubleQuoted s
  else if allowsPlain s && !isAmbiguous s then s
  else if allowsSingleQuotes s then singleQuoted indent s
  else doubleQuoted s

def isSimpleKey (s : Text) : Bool :=
  !hasLines s && Text.byteLength s ≤ 128

/-! ## Collections -/

/-- Begins a line behind a text, unless its end begins one. -/
def onNewLine (indent : Nat) (s : Text) : Text :=
  match s.getLast? with
  | none => spaces indent
  | some c => if isBreak c then s ++ spaces indent else s ++ '\n' :: spaces indent

/-- Puts entries below each other; the first stands where it is. -/
def stacked (indent : Nat) : List Text → Text
  | [] => []
  | [entry] => entry
  | entry :: entries => onNewLine indent entry ++ stacked indent entries

/-- Does a value take lines of its own behind the key of an entry? -/
def isCollection : Json → Bool
  | .array (_ :: _) | .object (_ :: _) => true
  | _ => false

def valueColumn (indent : Nat) : Json → Nat
  | .array (_ :: _) => indent
  | _ => indent + 2

/-- The entry of a mapping, of its key and the text of its value. A key that is long or has lines
is marked as one. -/
def entryText (indent : Nat) (key : Text) (value : Json) (valueText : Nat → Text) : Text :=
  if isSimpleKey key then
    let column := valueColumn indent value
    stringText true (indent + 2) key ++ ':' ::
      (if isCollection value then '\n' :: spaces column else [' ']) ++ valueText column
  else
    onNewLine indent ('?' :: ' ' :: stringText false (indent + 2) key) ++
      ':' :: ' ' :: valueText (indent + 2)

mutual

/-- The text of a value that begins at the column `indent`; so do the entries of a collection and
the lines of a text. -/
def block (value : Json) (indent : Nat) : Text :=
  match value with
  | .null => "null".toList
  | .bool true => "true".toList
  | .bool false => "false".toList
  | .number n => numberText n
  | .string s => stringText false indent s
  | .array [] => ['[', ']']
  | .array items => stacked indent (itemTexts items indent)
  | .object [] => ['\x7B', '\x7D']
  | .object members => stacked indent (memberTexts members indent)

def itemTexts (items : List Json) (indent : Nat) : List Text :=
  match items with
  | [] => []
  | item :: items => ('-' :: ' ' :: block item (indent + 2)) :: itemTexts items indent

def memberTexts (members : List (Text × Json)) (indent : Nat) : List Text :=
  match members with
  | [] => []
  | (key, value) :: members =>
    entryText indent key value (block value) :: memberTexts members indent

end

def document (value : Json) : Text :=
  match value with
  | .string s => onNewLine 0 (stringText false 2 s)
  | value => onNewLine 0 (block value 0)

end Yaml

end DesignParams
