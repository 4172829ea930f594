import DesignParams.Yaml.Char

/-!
# Reading YAML scalars

A scalar is plain, quoted or a block. Within plain and quoted scalars one line break is read as a
space, and of several the first is dropped. Each reader gives the text of the scalar and the rest
of the stream, or nothing if the scalar is malformed.
-/
set_option autoImplicit false

namespace DesignParams

namespace Yaml

def foldedBreaks : Text → Text
  | ['\n'] => [' ']
  | '\n' :: rest => rest
  | breaks => breaks

/-- How white space between two words is read: as it is within a line. -/
def gapText (run : Text) : Text :=
  match breaksIn run with
  | [] => run
  | breaks => foldedBreaks breaks

def isSpacing (c : Char) : Bool :=
  isSpaceOrTab c || isBreak c

/-! ## Plain scalars -/

def flowMarks : List Char :=
  [',', '[', ']', '\x7B', '\x7D']

/-- Reads a word of a plain scalar. Within brackets a colon before another mark is malformed. -/
def plainWord? (inFlow : Bool) : Text → Option (Text × Text)
  | [] => some ([], [])
  | c :: s =>
    if isGap c then some ([], c :: s)
    else if inFlow && c = ':' && s.head?.any (fun d => d = '?' || flowMarks.contains d) then none
    else if (c = ':' && atGap s) || (inFlow && flowMarks.contains c) then some ([], c :: s)
    else (plainWord? inFlow s).map fun (word, rest) => (c :: word, rest)

/-- Does a tab stand among the first columns of a line that follows a break in white space? -/
def hasTabWithin (indent : Nat) : Text → Bool
  | [] => false
  | c :: s =>
    (isBreak c && ((s.takeWhile isSpaceOrTab).take indent).contains '\t') || hasTabWithin indent s

structure PlainScalar where
  text : Text
  rest : Text
  endsLine : Bool

/-- Reads a plain scalar word by word; `indent` is the least column of its lines. -/
def plainFrom? (inFlow : Bool) (indent : Nat) : Nat → Nat → Text → Option PlainScalar
  | 0, _, s => some ⟨[], s, false⟩
  | fuel + 1, column, s =>
    if (column = 0 && startsLikeDocument s) || s.head? = some '#' then some ⟨[], s, false⟩
    else
      match plainWord? inFlow s with
      | none => none
      | some (word, rest) =>
        let run := rest.takeWhile isSpacing
        let behind := rest.dropWhile isSpacing
        let next := columnAfter (column + word.length) run
        let endsLine := !(breaksIn run).isEmpty
        if run.isEmpty then some ⟨word, rest, false⟩
        else if hasTabWithin indent run then none
        else if !inFlow && next < indent then some ⟨word, behind, endsLine⟩
        else
          match plainFrom? inFlow indent fuel next behind with
          | none => none
          | some more =>
            -- White space that no further word follows does not belong to the scalar.
            if more.text.isEmpty then some ⟨word, more.rest, endsLine⟩
            else some { more with text := word ++ gapText run ++ more.text }

/-! ## Quoted scalars -/

def letterEscapes : List (Char × Char) :=
  [('0', '\x00'), ('a', '\x07'), ('b', '\x08'), ('t', '\t'), ('\t', '\t'), ('n', '\n'),
    ('v', '\x0B'), ('f', '\x0C'), ('r', '\r'), ('e', '\x1B'), (' ', ' '), ('"', '"'), ('/', '/'),
    ('\\', '\\'), ('N', '\u0085'), ('_', '\u00A0'), ('L', '\u2028'), ('P', '\u2029')]

def escapeWidths : List (Char × Nat) :=
  [('x', 2), ('u', 4), ('U', 8)]

def charOfHex? (digits : Text) : Option Char :=
  let n := digits.foldl (fun n c => 16 * n + hexValue c) 0
  if !digits.all isHexDigit || (0xD800 ≤ n && n ≤ 0xDFFF) || 0x10FFFF < n then none
  else some (Char.ofNat n)

/-- The character of an escape behind its backslash, and the length of the escape there. -/
def escape? : Text → Option (Char × Nat)
  | [] => none
  | c :: s =>
    match letterEscapes.lookup c, escapeWidths.lookup c with
    | some d, _ => some (d, 1)
    | none, some width =>
      let digits := s.take width
      if digits.length < width then none else (charOfHex? digits).map (·, width + 1)
    | none, none => none

structure QuotedWord where
  text : Text
  rest : Text
  isJoined : Bool

def QuotedWord.cons (c : Char) (word : QuotedWord) : QuotedWord :=
  { word with text := c :: word.text }

/-- Reads a word within quotes; `skip` characters are left out first. -/
def quotedWord? (quote : Char) : Nat → Text → Option QuotedWord
  | _, [] => some ⟨[], [], false⟩
  | skip + 1, _ :: s => quotedWord? quote skip s
  | 0, c :: s =>
    if isGap c then some ⟨[], c :: s, false⟩
    else if c = quote then
      -- Between single quotes a doubled one stands for itself.
      if quote = '\'' ∧ s.head? = some '\'' then (quotedWord? quote 1 s).map (.cons '\'')
      else some ⟨[], c :: s, false⟩
    else if quote = '"' ∧ c = '\\' then
      -- An escaped line break joins two lines without a space.
      if s.head?.any isBreak then some ⟨[], dropBreak s, true⟩
      else
        match escape? s with
        | none => none
        | some (d, length) => (quotedWord? quote length s).map (.cons d)
    else (quotedWord? quote 0 s).map (.cons c)

def quotedFrom? (quote : Char) : Nat → Nat → Text → Option (Text × Text)
  | 0, _, _ => none
  | fuel + 1, column, s =>
    if s.isEmpty || (column = 0 && startsLikeDocument s) then none
    else
      match quotedWord? quote 0 s with
      | none => none
      | some word =>
        match word.rest with
        | [] => none
        | c :: rest =>
          if c = quote then some (word.text, rest)
          else
            let run := word.rest.takeWhile isSpacing
            let gap := if word.isJoined then breaksIn run else gapText run
            let behind := word.rest.dropWhile isSpacing
            let next := columnAfter column (s.take (s.length - behind.length))
            (quotedFrom? quote fuel next behind).map fun (text, rest) => (word.text ++ gap ++ text, rest)

/-! ## Block scalars -/

inductive Chomping where
  | strip
  | clip
  | keep
deriving DecidableEq, Repr

def chomping? (c : Char) : Option Chomping :=
  if c = '-' then some .strip else if c = '+' then some .keep else none

def indentation? (c : Char) : Option Nat :=
  if isAsciiDigit c then some (c.toNat - 48) else none

/-- Reads the marks in the first line of a block: chomping and indentation, in either order. -/
def blockMarks (s : Text) : Chomping × Option Nat × Text :=
  match s.head?.bind chomping?, s.head?.bind indentation? with
  | some chomping, _ =>
    let t := s.drop 1
    match t.head?.bind indentation? with
    | some indent => (chomping, some indent, t.drop 1)
    | none => (chomping, none, t)
  | none, some indent =>
    let t := s.drop 1
    match t.head?.bind chomping? with
    | some chomping => (chomping, some indent, t.drop 1)
    | none => (.clip, some indent, t)
  | none, none => (.clip, none, s)

def lineEnd? (s : Text) : Option Text :=
  let t := s.dropWhile isSpaceOrTab
  let u := if t.head? = some '#' then t.dropWhile (!isBreak ·) else t
  if u.head?.all isBreak then some (dropBreak u) else none

/-- Empty lines: their breaks, the widest of their indentations and that of the line behind them,
and the text there. -/
structure EmptyLines where
  breaks : Text
  widest : Nat
  column : Nat
  rest : Text

/-- Reads empty lines and the indentation behind them, up to the given column if it is known. A
tab in the indentation is malformed. -/
def emptyLines? (indent : Option Nat) : Nat → Text → Option EmptyLines
  | 0, s => some ⟨[], 0, 0, s⟩
  | fuel + 1, s =>
    let run := s.takeWhile (· = ' ')
    let column := match indent with
      | some n => min n run.length
      | none => run.length
    let rest := s.drop column
    if indent.all (column < ·) && rest.head? = some '\t' then none
    else if rest.head?.any isBreak then
      (emptyLines? indent fuel (dropBreak rest)).map fun lines =>
        { lines with breaks := breaksIn (rest.take (rest.length - (dropBreak rest).length)) ++ lines.breaks
                     widest := max column lines.widest }
    else some ⟨[], column, column, rest⟩

structure BlockText where
  text : Text
  /-- The break behind the last line. -/
  lineBreak : Text
  /-- Did the last line begin with a space or a tab? -/
  isSpaced : Bool

def blockLines? (isLiteral : Bool) (indent : Nat) :
    Nat → BlockText → EmptyLines → Option (BlockText × EmptyLines)
  | 0, block, empty => some (block, empty)
  | fuel + 1, block, empty =>
    if empty.column = indent ∧ ¬ empty.rest.isEmpty then
      let isSpaced := empty.rest.head?.any isSpaceOrTab
      let gap :=
        if !isLiteral && block.lineBreak = ['\n'] && !block.isSpaced && !isSpaced then
          if empty.breaks.isEmpty then [' '] else []
        else block.lineBreak
      let line := empty.rest.takeWhile (!isBreak ·)
      let behind := empty.rest.dropWhile (!isBreak ·)
      let lineBreak := breaksIn (behind.take (behind.length - (dropBreak behind).length))
      match emptyLines? (some indent) (behind.length + 1) (dropBreak behind) with
      | none => none
      | some next =>
        blockLines? isLiteral indent fuel ⟨block.text ++ gap ++ empty.breaks ++ line, lineBreak, isSpaced⟩
          next
    else some (block, empty)

/-- Reads a block behind its first mark; `outer` is the column of the collection around it. -/
def blockScalar? (isLiteral : Bool) (outer : Option Nat) (s : Text) : Option (Text × Text) :=
  let (chomping, increment, behind) := blockMarks s
  if increment = some 0 then none
  else
    match lineEnd? behind with
    | none => none
    | some start =>
      let given := increment.map fun n => outer.getD 0 + n
      match emptyLines? given (start.length + 1) start with
      | none => none
      | some empty =>
        let least := match outer with
          | some n => n + 1
          | none => 1
        let indent := given.getD (max empty.widest least)
        match blockLines? isLiteral indent (start.length + 1) ⟨[], [], false⟩ empty with
        | none => none
        | some (block, tail) =>
          let lineBreak := if chomping = .strip then [] else block.lineBreak
          let tailBreaks := if chomping = .keep then tail.breaks else []
          some (block.text ++ lineBreak ++ tailBreaks, tail.rest)

end Yaml

end DesignParams
