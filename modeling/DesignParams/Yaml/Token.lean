import DesignParams.Yaml.Scalar

/-!
# YAML tokens

A stream is cut into tokens that make its structure explicit: the indentation of a line opens and
closes collections, and a value mark makes the node before it a key. Whether a node can be a key
is known only then, so a place for the key token is remembered where the node begins.
-/
set_option autoImplicit false

namespace DesignParams

namespace Yaml

inductive ScalarStyle where
  | plain
  | quoted
  | literal
  | folded
deriving DecidableEq, Repr

inductive Token where
  | version (major minor : Nat)
  | tagHandle (handle lead : Text)
  | documentStart
  | documentEnd
  | blockSequence
  | blockMapping
  | blockEnd
  | flowSequence
  | flowSequenceEnd
  | flowMapping
  | flowMappingEnd
  | blockEntry
  | flowEntry
  | key
  | value
  | alias (name : Text)
  | anchor (name : Text)
  | tag (handle suffix : Text)
  | scalar (text : Text) (style : ScalarStyle)
deriving DecidableEq, Repr

/-- Where a key token would stand, and where in the text its node begins. -/
structure KeyPlace where
  token : Nat
  index : Nat
  line : Nat
  column : Nat
  /-- The node has to be a key. -/
  isRequired : Bool

structure Scanner where
  rest : Text
  index : Nat
  line : Nat
  column : Nat
  /-- The column of the innermost block collection, and of those around it. -/
  indent : Option Nat
  outer : List (Option Nat)
  /-- The place of a possible key for each level of brackets, the innermost first. -/
  keys : List (Option KeyPlace)
  /-- May a key begin here? -/
  keyAllowed : Bool
  tokens : Array Token

namespace Scanner

def start (s : Text) : Scanner :=
  ⟨s, 0, 0, 0, none, [], [none], true, #[]⟩

def inFlow (sc : Scanner) : Bool :=
  1 < sc.keys.length

def next? (sc : Scanner) : Option Char :=
  sc.rest.head?

def push (token : Token) (sc : Scanner) : Scanner :=
  { sc with tokens := sc.tokens.push token }

def goTo (rest : Text) (sc : Scanner) : Scanner :=
  let passed := sc.rest.take (sc.rest.length - rest.length)
  { sc with
    rest
    index := sc.index + passed.length
    line := sc.line + (breaksIn passed).length
    column := columnAfter sc.column passed }

def skip (count : Nat) (sc : Scanner) : Scanner :=
  sc.goTo (sc.rest.drop count)

/-! ## Between tokens -/

/-- Passes over white space, comments and line breaks. A line break outside brackets allows a key
again; where one may begin, a tab is no white space. -/
def toNextToken : Nat → Scanner → Scanner
  | 0, sc => sc
  | fuel + 1, sc =>
    match sc.next? with
    | none => sc
    | some c =>
      if c = ' ' || (c = '\t' && (sc.inFlow || !sc.keyAllowed)) ||
          (c = '\uFEFF' && sc.index = 0) then
        toNextToken fuel (sc.skip 1)
      else if c = '#' then toNextToken fuel (sc.goTo (sc.rest.dropWhile (!isBreak ·)))
      else if isBreak c then
        let behind := sc.goTo (dropBreak sc.rest)
        toNextToken fuel (if sc.inFlow then behind else { behind with keyAllowed := true })
      else sc

/-! ## Keys and indentation -/

/-- Forgets the key place of the innermost level, unless its node has to be a key. -/
def dropKey? (sc : Scanner) : Option Scanner :=
  match sc.keys with
  | [] => some sc
  | place :: places =>
    if place.any (·.isRequired) then none else some { sc with keys := none :: places }

def saveKey? (sc : Scanner) : Option Scanner :=
  if sc.keyAllowed then
    (sc.dropKey?).map fun sc =>
      { sc with
        keys := some
          { token := sc.tokens.size
            index := sc.index
            line := sc.line
            column := sc.column
            isRequired := !sc.inFlow && sc.indent = some sc.column } :: sc.keys.drop 1 }
  else some sc

/-- A key stands on one line, and its value mark is not far. -/
def isStale (sc : Scanner) (place : KeyPlace) : Bool :=
  place.line < sc.line || place.index + 1024 < sc.index

def dropStaleKeys? (sc : Scanner) : Option Scanner :=
  if sc.keys.any fun place => place.any fun p => sc.isStale p && p.isRequired then none
  else some { sc with keys := sc.keys.map fun place => place.filter (!sc.isStale ·) }

/-- Is a column further to the right than another? Outside all collections is the leftmost. -/
def isDeeper : Option Nat → Option Nat → Bool
  | some a, some b => b < a
  | some _, none => true
  | none, _ => false

def unrollFrom (column : Option Nat) (indent : Option Nat) :
    List (Option Nat) → Array Token → Option Nat × List (Option Nat) × Array Token
  | [], tokens => (indent, [], tokens)
  | next :: outer, tokens =>
    if isDeeper indent column then unrollFrom column next outer (tokens.push .blockEnd)
    else (indent, next :: outer, tokens)

def unroll (column : Option Nat) (sc : Scanner) : Scanner :=
  if sc.inFlow then sc
  else
    let (indent, outer, tokens) := unrollFrom column sc.indent sc.outer sc.tokens
    { sc with indent, outer, tokens }

def insertToken (place : Nat) (token : Token) (tokens : Array Token) : Array Token :=
  (tokens.extract 0 place).push token ++ tokens.extract place tokens.size

def roll (column place : Nat) (token : Token) (sc : Scanner) : Scanner :=
  if !sc.inFlow && isDeeper (some column) sc.indent then
    { sc with
      indent := some column
      outer := sc.indent :: sc.outer
      tokens := insertToken place token sc.tokens }
  else sc

def rollHere (token : Token) (sc : Scanner) : Scanner :=
  sc.roll sc.column sc.tokens.size token

/-! ## Single tokens -/

/-- A token of some length at which no key begins; `allowed` says whether one may behind it. -/
def mark? (token : Token) (length : Nat) (allowed : Bool) (sc : Scanner) : Option Scanner :=
  (sc.dropKey?).map fun sc => (({ sc with keyAllowed := allowed }).skip length).push token

def documentMark? (token : Token) (sc : Scanner) : Option Scanner :=
  (sc.unroll none).mark? token 3 false

def openFlow? (token : Token) (sc : Scanner) : Option Scanner :=
  (sc.saveKey?).map fun sc =>
    (({ sc with keys := none :: sc.keys, keyAllowed := true }).skip 1).push token

def closeFlow? (token : Token) (sc : Scanner) : Option Scanner :=
  (sc.mark? token 1 false).map fun sc =>
    if sc.inFlow then { sc with keys := sc.keys.drop 1 } else sc

def blockEntry? (sc : Scanner) : Option Scanner :=
  if sc.inFlow then sc.mark? .blockEntry 1 true
  else if sc.keyAllowed then (sc.rollHere .blockSequence).mark? .blockEntry 1 true
  else none

def key? (sc : Scanner) : Option Scanner :=
  if sc.inFlow then sc.mark? .key 1 false
  else if sc.keyAllowed then (sc.rollHere .blockMapping).mark? .key 1 true
  else none

def value? (sc : Scanner) : Option Scanner :=
  match sc.keys with
  | some place :: places =>
    let sc := { sc with tokens := insertToken place.token .key sc.tokens }
    let sc := sc.roll place.column place.token .blockMapping
    some ((({ sc with keys := none :: places, keyAllowed := false }).skip 1).push .value)
  | _ =>
    if sc.inFlow then some ((({ sc with keyAllowed := false }).skip 1).push .value)
    else if sc.keyAllowed then
      some (((({ sc with keyAllowed := true }).rollHere .blockMapping).skip 1).push .value)
    else none

/-! ## Names and tags -/

def nameEnds : List Char :=
  ['?', ':', ',', ']', '\x7D', '%', '@', '\x60']

def name? (token : Text → Token) (sc : Scanner) : Option Scanner :=
  match sc.saveKey? with
  | none => none
  | some sc =>
    let body := sc.rest.drop 1
    let name := body.takeWhile isNameChar
    let behind := body.dropWhile isNameChar
    if name.isEmpty || !(atGap behind || behind.head?.any nameEnds.contains) then none
    else some ((({ sc with keyAllowed := false }).goTo behind).push (token name))

/-- The characters of tags; the last three only where brackets cannot be meant. -/
def isTagChar (inBrackets : Bool) (c : Char) : Bool :=
  isNameChar c ||
    [';', '/', '?', ':', '@', '&', '=', '+', '$', '.', '%', '!', '~', '*', '\'', '(', ')'].contains c ||
    (inBrackets && [',', '[', ']'].contains c)

def escapedByte? : Text → Option (Nat × Text)
  | '%' :: a :: b :: s =>
    if isHexDigit a && isHexDigit b then some (16 * hexValue a + hexValue b, s) else none
  | _ => none

def escapedTail? : Nat → Nat → Text → Option (Nat × Text)
  | 0, n, s => some (n, s)
  | count + 1, n, s =>
    match escapedByte? s with
    | some (byte, rest) => if byte / 64 = 2 then escapedTail? count (64 * n + byte % 64) rest else none
    | none => none

def escapedChar? (s : Text) : Option (Char × Text) :=
  match escapedByte? s with
  | none => none
  | some (byte, rest) =>
    let found :=
      if byte < 0x80 then some (byte, rest)
      else if byte / 32 = 6 then escapedTail? 1 (byte % 32) rest
      else if byte / 16 = 14 then escapedTail? 2 (byte % 16) rest
      else if byte / 8 = 30 then escapedTail? 3 (byte % 8) rest
      else none
    found.map fun (n, rest) => (Char.ofNat n, rest)

def tagText? (inBrackets : Bool) : Nat → Text → Option (Text × Text)
  | 0, s => some ([], s)
  | fuel + 1, s =>
    match s with
    | [] => some ([], [])
    | c :: t =>
      if !isTagChar inBrackets c then some ([], c :: t)
      else if c = '%' then
        match escapedChar? (c :: t) with
        | none => none
        | some (d, rest) => (tagText? inBrackets fuel rest).map fun (text, rest) => (d :: text, rest)
      else (tagText? inBrackets fuel t).map fun (text, rest) => (c :: text, rest)

/-- Reads a tag handle: an exclamation mark, or a name between two. -/
def tagHandle? (s : Text) : Option (Text × Text) :=
  match s with
  | '!' :: t =>
    let name := t.takeWhile isNameChar
    match t.dropWhile isNameChar with
    | '!' :: behind => some ('!' :: name ++ ['!'], behind)
    | behind => some ('!' :: name, behind)
  | _ => none

def tagParts? (s : Text) : Option (Text × Text × Text) :=
  match s with
  | '!' :: '<' :: t =>
    match tagText? true t.length t with
    | some (text, '>' :: rest) => if text.isEmpty then none else some ([], text, rest)
    | _ => none
  | _ =>
    match tagHandle? s with
    | none => none
    | some (handle, behind) =>
      match tagText? false behind.length behind with
      | none => none
      | some (text, rest) =>
        if 1 < handle.length ∧ handle.getLast? = some '!' then
          if text.isEmpty then none else some (handle, text, rest)
        else
          match handle.drop 1 ++ text with
          | [] => some ([], ['!'], rest)
          | suffix => some (['!'], suffix, rest)

def tag? (sc : Scanner) : Option Scanner :=
  match sc.saveKey? with
  | none => none
  | some sc =>
    match tagParts? sc.rest with
    | none => none
    | some (handle, suffix, rest) =>
      if atGap rest || (sc.inFlow && rest.head? = some ',') then
        some ((({ sc with keyAllowed := false }).goTo rest).push (.tag handle suffix))
      else none

/-! ## Directives -/

def versionNumber? (s : Text) : Option (Nat × Text) :=
  let digits := s.takeWhile isAsciiDigit
  if digits.isEmpty || 9 < digits.length then none
  else some (digits.foldl (fun n c => 10 * n + (c.toNat - 48)) 0, s.dropWhile isAsciiDigit)

def version? (s : Text) : Option (Token × Text) :=
  match versionNumber? (s.dropWhile isSpaceOrTab) with
  | some (major, '.' :: t) =>
    (versionNumber? t).map fun (minor, rest) => (.version major minor, rest)
  | _ => none

def handleDirective? (s : Text) : Option (Token × Text) :=
  match tagHandle? (s.dropWhile isSpaceOrTab) with
  | none => none
  | some (handle, behind) =>
    if (handle = ['!'] ∨ handle.getLast? = some '!') ∧ behind.head?.any isSpaceOrTab then
      let body := behind.dropWhile isSpaceOrTab
      match tagText? true body.length body with
      | some (lead, rest) =>
        if lead.isEmpty || !atGap rest then none else some (.tagHandle handle lead, rest)
      | none => none
    else none

def directive? (sc : Scanner) : Option Scanner :=
  match (sc.unroll none).dropKey? with
  | none => none
  | some sc =>
    let body := sc.rest.drop 1
    let name := body.takeWhile isNameChar
    let behind := body.dropWhile isNameChar
    let found :=
      if !atGap behind then none
      else if name = "YAML".toList then version? behind
      else if name = "TAG".toList then handleDirective? behind
      else none
    match found with
    | none => none
    | some (token, rest) =>
      (lineEnd? rest).map fun rest => (({ sc with keyAllowed := false }).goTo rest).push token

/-! ## Scalars -/

def blockScalar? (isLiteral : Bool) (sc : Scanner) : Option Scanner :=
  match sc.dropKey? with
  | none => none
  | some sc =>
    (Yaml.blockScalar? isLiteral sc.indent (sc.rest.drop 1)).map fun (text, rest) =>
      (({ sc with keyAllowed := true }).goTo rest).push
        (.scalar text (if isLiteral then .literal else .folded))

def quotedScalar? (quote : Char) (sc : Scanner) : Option Scanner :=
  match sc.saveKey? with
  | none => none
  | some sc =>
    (quotedFrom? quote (sc.rest.length + 1) (sc.column + 1) (sc.rest.drop 1)).map
      fun (text, rest) => (({ sc with keyAllowed := false }).goTo rest).push (.scalar text .quoted)

def plainScalar? (sc : Scanner) : Option Scanner :=
  match sc.saveKey? with
  | none => none
  | some sc =>
    let indent := match sc.indent with
      | some n => n + 1
      | none => 0
    (plainFrom? sc.inFlow indent (sc.rest.length + 1) sc.column sc.rest).map fun scalar =>
      (({ sc with keyAllowed := scalar.endsLine }).goTo scalar.rest).push (.scalar scalar.text .plain)

/-- The characters that no plain scalar begins with, unless a following one makes it a word. -/
def plainBarred : List Char :=
  ['-', '?', ':', ',', '[', ']', '\x7B', '\x7D', '#', '&', '*', '!', '|', '>', '\'', '"', '%', '@',
    '\x60']

def startsPlain (inFlow : Bool) (c : Char) (behind : Text) : Bool :=
  !(isGap c || plainBarred.contains c) || (c = '-' && !behind.head?.any isSpaceOrTab) ||
    (!inFlow && (c = '?' || c = ':') && !atGap behind)

/-! ## Streams -/

def token? (sc : Scanner) (c : Char) (behind : Text) : Option Scanner :=
  if sc.column = 0 ∧ c = '%' then sc.directive?
  else if sc.column = 0 ∧ startsLikeDocument sc.rest then
    sc.documentMark? (if c = '-' then .documentStart else .documentEnd)
  else if c = '[' then sc.openFlow? .flowSequence
  else if c = '\x7B' then sc.openFlow? .flowMapping
  else if c = ']' then sc.closeFlow? .flowSequenceEnd
  else if c = '\x7D' then sc.closeFlow? .flowMappingEnd
  else if c = ',' then sc.mark? .flowEntry 1 true
  else if c = '-' && atGap behind then sc.blockEntry?
  else if c = '?' && (sc.inFlow || atGap behind) then sc.key?
  else if c = ':' && (sc.inFlow || atGap behind) then sc.value?
  else if c = '*' then sc.name? .alias
  else if c = '&' then sc.name? .anchor
  else if c = '!' then sc.tag?
  else if c = '|' && !sc.inFlow then sc.blockScalar? true
  else if c = '>' && !sc.inFlow then sc.blockScalar? false
  else if c = '\'' || c = '"' then sc.quotedScalar? c
  else if startsPlain sc.inFlow c behind then sc.plainScalar?
  else none

/-- The end of a stream closes all block collections. -/
def finish? (sc : Scanner) : Option (List Token) :=
  (sc.unroll none).dropKey?.map (·.tokens.toList)

/-- Scans token after token; each takes at least one character. -/
def scanFrom? : Nat → Scanner → Option (List Token)
  | 0, _ => none
  | fuel + 1, sc =>
    match (toNextToken (sc.rest.length + 1) sc).dropStaleKeys? with
    | none => none
    | some sc =>
      match sc.rest with
      | [] => sc.finish?
      | c :: behind =>
        match (sc.unroll (some sc.column)).token? c behind with
        | none => none
        | some next => scanFrom? fuel next

end Scanner

/-- The tokens of a stream; a byte order mark at its start does not count. -/
def tokens? (s : Text) : Option (List Token) :=
  let body := if s.head? = some '\uFEFF' then s.drop 1 else s
  if body.all isReadable then Scanner.scanFrom? (body.length + 1) (.start body) else none

end Yaml

end DesignParams
