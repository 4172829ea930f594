import DesignParams.Text.Case

/-!
# Stylesheet tokens

A stylesheet is cut into tokens that lose nothing: the texts of the tokens, joined, are the
stylesheet. Only what structure needs is told apart: names, brackets, colons, semicolons, white
space and comments; strings, numbers and addresses matter for where they end.
-/
set_option autoImplicit false

namespace DesignParams

inductive Bracket where
  | round
  | square
  | curly
deriving DecidableEq, Repr

inductive TokenKind where
  | ident (name : Text)
  | atKeyword (name : Text)
  | blank
  | comment
  /-- One of the markers `<!--` and `-->`. -/
  | marker
  | colon
  | semicolon
  | opener (bracket : Bracket)
  | closer (bracket : Bracket)
  | other
deriving DecidableEq, Repr

structure Token where
  kind : TokenKind
  text : Text
deriving DecidableEq, Repr

namespace Token

def isNewline (c : Char) : Bool :=
  c = '\n' || c = '\r' || c = '\x0C'

def isSpace (c : Char) : Bool :=
  c = ' ' || c = '\t' || isNewline c

def isNonAscii (c : Char) : Bool :=
  128 ≤ c.toNat

def isNameStart (c : Char) : Bool :=
  isAsciiLetter c || c = '_' || c = '\x00' || isNonAscii c

def isNameChar (c : Char) : Bool :=
  isNameStart c || isAsciiDigit c || c = '-'

def startsWithNewline (s : Text) : Bool :=
  s.head?.any isNewline

def startsWithDigit (s : Text) : Bool :=
  s.head?.any isAsciiDigit

def newlineLength : Text → Nat
  | '\r' :: '\n' :: _ => 2
  | c :: _ => if isNewline c then 1 else 0
  | [] => 0

def charOfNumber (n : Nat) : Char :=
  if n = 0 ∨ ¬ n.isValidChar then '\uFFFD' else Char.ofNat n

/-- The character that an escape stands for and the length of what follows its backslash: up to
six hexadecimal digits with one space behind them, or any one character. -/
def escape : Text → Char × Nat
  | [] => ('\uFFFD', 0)
  | c :: s =>
    if isHexDigit c then
      let digits := ((c :: s).takeWhile isHexDigit).take 6
      let rest := (c :: s).drop digits.length
      let space := if rest.head?.any (fun d => d = ' ' || d = '\t') then 1 else newlineLength rest
      (charOfNumber (digits.foldl (fun n d => 16 * n + hexValue d) 0), digits.length + space)
    else (if c = '\x00' then '\uFFFD' else c, 1)

def name : Text → Text × Nat
  | [] => ([], 0)
  | c :: s =>
    if c = '\\' then
      if startsWithNewline s then ([], 0)
      else
        let (d, n) := escape s
        let (rest, length) := name (s.drop n)
        (d :: rest, length + n + 1)
    else if isNameChar c then
      let (rest, length) := name s
      ((if c = '\x00' then '\uFFFD' else c) :: rest, length + 1)
    else ([], 0)
termination_by s => s.length

def startsName : Text → Bool
  | [] => false
  | '-' :: s =>
    match s with
    | [] => false
    | d :: _ => isNameStart d || d = '-' || d = '\\'
  | '\\' :: s => !startsWithNewline s
  | c :: _ => isNameStart c

/-- The length of a string behind its opening quote. An unescaped newline ends it. -/
def stringLength (quote : Char) : Text → Nat
  | [] => 0
  | c :: s =>
    if c = quote then 1
    else if isNewline c then 0
    else if c = '\\' then
      let skipped := if startsWithNewline s then newlineLength s else if s.isEmpty then 0 else (escape s).2
      stringLength quote (s.drop skipped) + skipped + 1
    else stringLength quote s + 1
termination_by s => s.length

def commentLength : Text → Nat
  | [] => 0
  | '*' :: '/' :: _ => 2
  | _ :: s => commentLength s + 1

def badAddressLength : Text → Nat
  | [] => 0
  | ')' :: _ => 1
  | '\\' :: ')' :: s => badAddressLength s + 2
  | '\\' :: '\\' :: s => badAddressLength s + 2
  | _ :: s => badAddressLength s + 1

/-- The length of what follows white space inside an address: its end, if it is well formed. -/
def addressEndLength : Text → Nat
  | [] => 0
  | c :: s =>
    if c = ')' then 1
    else if isSpace c then addressEndLength s + 1
    else badAddressLength s + 1

def isBadInAddress (c : Char) : Bool :=
  let n := c.toNat
  c = '"' || c = '\'' || c = '(' || (1 ≤ n && n ≤ 8) || n = 0x0B || (0x0E ≤ n && n ≤ 0x1F) || n = 0x7F

def addressBodyLength : Text → Nat
  | [] => 0
  | c :: s =>
    if isSpace c then addressEndLength s + 1
    else if c = ')' then 1
    else if isBadInAddress c then badAddressLength s + 1
    else if c = '\\' then
      if startsWithNewline s then badAddressLength s + 1
      else addressBodyLength (s.drop (escape s).2) + (escape s).2 + 1
    else addressBodyLength s + 1
termination_by s => s.length

/-- The length of an unquoted address behind `url(`; a quoted one is an ordinary function. -/
def addressLength? (s : Text) : Option Nat :=
  let spaces := s.takeWhile isSpace
  let rest := s.dropWhile isSpace
  match rest with
  | [] => some spaces.length
  | c :: _ =>
    if c = '"' ∨ c = '\'' then none else some (spaces.length + addressBodyLength rest)

def digitsLength (s : Text) : Nat :=
  (s.takeWhile isAsciiDigit).length

def fractionLength : Text → Nat
  | '.' :: s => if startsWithDigit s then digitsLength s + 1 else 0
  | _ => 0

def exponentLength : Text → Nat
  | [] => 0
  | e :: s =>
    if e = 'e' ∨ e = 'E' then
      match s with
      | [] => 0
      | c :: t =>
        if isAsciiDigit c then digitsLength s + 1
        else if (c = '+' ∨ c = '-') ∧ startsWithDigit t then digitsLength t + 2
        else 0
    else 0

def unitLength : Text → Nat
  | '%' :: _ => 1
  | s => if startsName s then (name s).2 else 0

def numberLength (s : Text) : Nat :=
  let whole := digitsLength s
  let fraction := fractionLength (s.drop whole)
  let exponent := exponentLength (s.drop (whole + fraction))
  let number := whole + fraction + exponent
  number + unitLength (s.drop number)

def startsNumber : Text → Bool
  | '.' :: s => startsWithDigit s
  | s => startsWithDigit s

def named (s : Text) : TokenKind × Nat :=
  let (value, length) := name s
  match s.drop length with
  | '(' :: rest =>
    if Text.eqIgnoringCase value "url".toList then
      match addressLength? rest with
      | some inner => (.other, length + 1 + inner)
      | none => (.opener .round, length + 1)
    else (.opener .round, length + 1)
  | _ => (.ident value, length)

def first (c : Char) (s : Text) : TokenKind × Nat :=
  if isSpace c then (.blank, (s.takeWhile isSpace).length + 1)
  else if c = '"' ∨ c = '\'' then (.other, stringLength c s + 1)
  else if c = '#' then
    if startsName s ∨ startsWithDigit s ∨ s.head? = some '-' then (.other, (name s).2 + 1) else (.other, 1)
  else if c = '(' then (.opener .round, 1)
  else if c = ')' then (.closer .round, 1)
  else if c = '[' then (.opener .square, 1)
  else if c = ']' then (.closer .square, 1)
  else if c = '{' then (.opener .curly, 1)
  else if c = '}' then (.closer .curly, 1)
  else if c = ':' then (.colon, 1)
  else if c = ';' then (.semicolon, 1)
  else if c = '+' then if startsNumber s then (.other, numberLength s + 1) else (.other, 1)
  else if c = '-' then
    if startsNumber s then (.other, numberLength s + 1)
    else if Text.startsWith s ['-', '>'] then (.marker, 3)
    else if startsName (c :: s) then named (c :: s)
    else (.other, 1)
  else if startsNumber (c :: s) then (.other, numberLength (c :: s))
  else if c = '/' then
    match s with
    | '*' :: rest => (.comment, commentLength rest + 2)
    | _ => (.other, 1)
  else if c = '<' then if Text.startsWith s ['!', '-', '-'] then (.marker, 4) else (.other, 1)
  else if c = '@' then
    if startsName s then
      let (value, length) := name s
      (.atKeyword value, length + 1)
    else (.other, 1)
  else if startsName (c :: s) then named (c :: s)
  else (.other, 1)

def tokenize : Text → List Token
  | [] => []
  | c :: s =>
    let (kind, length) := first c s
    ⟨kind, c :: s.take (length - 1)⟩ :: tokenize (s.drop (length - 1))
termination_by s => s.length

/-- Nothing is lost: the texts of the tokens, joined, are the stylesheet. -/
theorem flatMap_text_tokenize (s : Text) : (tokenize s).flatMap (·.text) = s := by
  fun_induction tokenize s with
  | case1 => rfl
  | case2 c s kind length _ ih => simp [ih]

end Token

end DesignParams
