import DesignParams.Json.Fault
import DesignParams.Text.Case

/-!
# Reading JSON

A reader takes a text and gives a value with the rest of the text, or the first fault. Brackets
may be nested to a fixed depth; values that are passed over are checked for their grammar alone.
-/
set_option autoImplicit false

namespace DesignParams

abbrev JsonReader (α : Type) := Text → Except JsonFailure (α × Text)

namespace JsonReader

variable {α σ : Type}

/-- A fault of the grammar, `past` bytes into what was left to read. -/
def fail (fault : JsonFault) (rest : Text) (past : Nat) : Except JsonFailure α :=
  .error ⟨fault, rest, past, true⟩

def isSpace (c : Char) : Bool :=
  c = ' ' || c = '\n' || c = '\t' || c = '\r'

def skipSpace (s : Text) : Text :=
  s.dropWhile isSpace

def ident (a : α) : Text → JsonReader α
  | [], s => .ok (a, s)
  | _ :: _, [] => fail .endInValue [] 0
  | c :: letters, d :: s => if c = d then ident a letters s else fail .expectedIdent (d :: s) 1

/-! ## Strings -/

def codeUnit (s : Text) : Except JsonFailure Nat :=
  if Text.byteLength s < 4 then fail .endInString [] 0
  else
    let digits := s.take 4
    if digits.length = 4 ∧ digits.all isHexDigit then
      .ok (digits.foldl (fun n c => 16 * n + hexValue c) 0)
    else fail .invalidEscape s 4

def isTrailing (unit : Nat) : Bool :=
  0xDC00 ≤ unit && unit ≤ 0xDFFF

def isLeading (unit : Nat) : Bool :=
  0xD800 ≤ unit && unit ≤ 0xDBFF

/-- The character of an escape behind `\u`, and the length of the escape there. A leading
surrogate takes the trailing one behind it. -/
def unicodeEscape (s : Text) : Except JsonFailure (Char × Nat) := do
  let unit ← codeUnit s
  let behind := s.drop 4
  if isTrailing unit then fail .loneSurrogate behind 0
  else if !isLeading unit then return (Char.ofNat unit, 4)
  else
    match behind with
    | [] => fail .endInString [] 0
    | '\\' :: behind =>
      match behind with
      | [] => fail .endInString [] 0
      | 'u' :: behind =>
        let second ← codeUnit behind
        if isTrailing second then
          return (Char.ofNat ((unit - 0xD800) * 0x400 + (second - 0xDC00) + 0x10000), 10)
        else fail .loneSurrogate (behind.drop 4) 0
      | _ => fail .unpairedSurrogate behind 1
    | _ => fail .unpairedSurrogate behind 1

def simpleEscape? (c : Char) : Option Char :=
  if c = '"' ∨ c = '\\' ∨ c = '/' then some c
  else if c = 'b' then some '\x08'
  else if c = 'f' then some '\x0C'
  else if c = 'n' then some '\n'
  else if c = 'r' then some '\r'
  else if c = 't' then some '\t'
  else none

def escape : Text → Except JsonFailure (Char × Nat)
  | [] => fail .endInString [] 0
  | c :: s =>
    match simpleEscape? c with
    | some d => .ok (d, 1)
    | none =>
      if c = 'u' then (unicodeEscape s).map fun (d, length) => (d, length + 1)
      else fail .invalidEscape (c :: s) 1

def string : JsonReader Text
  | [] => fail .endInString [] 0
  | c :: s =>
    if c = '"' then .ok ([], s)
    else if c.toNat < 32 then fail .controlCharacter s 0
    else if c = '\\' then do
      let (d, length) ← escape s
      let (tail, rest) ← string (s.drop length)
      return (d :: tail, rest)
    else do
      let (tail, rest) ← string s
      return (c :: tail, rest)
termination_by s => s.length

/-- Passes over a string behind its opening quote; surrogates may stand alone in it. -/
def skipString : JsonReader Unit
  | [] => fail .endInString [] 0
  | c :: s =>
    if c = '"' then .ok ((), s)
    else if c.toNat < 32 then fail .controlCharacter (c :: s) 0
    else if c = '\\' then
      match s with
      | [] => fail .endInString [] 0
      | d :: t =>
        if (simpleEscape? d).isSome then skipString t
        else if d = 'u' then do
          let _ ← codeUnit t
          skipString (t.drop 4)
        else fail .invalidEscape (d :: t) 1
    else skipString s
termination_by s => s.length

/-! ## Numbers -/

def startsWithDigit (s : Text) : Bool :=
  s.head?.any isAsciiDigit

/-- Appends digits to a significand while it stays below `2 ^ 64`; gives the digits that do not
fit, from the first of them on. -/
def gatherDigits (significand : Nat) : Text → Nat × Text
  | [] => (significand, [])
  | c :: s =>
    let next := 10 * significand + (c.toNat - 48)
    if next < Nat.pow 2 64 then gatherDigits next s else (significand, c :: s)

def mulUnits (a b : Nat) : Nat :=
  Binary64.roundUnits (a * b) Binary64.one

def divUnits (a b : Nat) : Nat :=
  Binary64.roundUnits (a * Binary64.one) b

def tenPower (exponent : Nat) : Nat :=
  Binary64.roundUnits (Nat.pow 10 exponent * Binary64.one) 1

/-- The number `significand * 10 ^ exponent`, in two roundings: the significand is rounded first,
and then multiplied or divided by a rounded power of ten. Numbers far below one are divided in
several steps. There is no number out of range. -/
def scaled? (units : Nat) (exponent : Int) : Nat → Option Nat
  | 0 => some 0
  | steps + 1 =>
    if exponent.natAbs ≤ 308 then
      if 0 ≤ exponent then
        let product := mulUnits units (tenPower exponent.toNat)
        if product < Binary64.limit then some product else none
      else some (divUnits units (tenPower exponent.natAbs))
    else if units = 0 then some 0
    else if 0 ≤ exponent then none
    else scaled? (divUnits units (tenPower 308)) (exponent + 308) steps

def decimalOf (negative : Bool) (significand : Nat) (exponent : Int) (rest : Text) :
    Except JsonFailure (JsonNumber × Text) :=
  match scaled? (Binary64.roundUnits (significand * Binary64.one) 1) exponent 4 with
  | some units => .ok (.decimal (.finite negative units), rest)
  | none => fail .numberOutOfRange rest 0

/-- The digits of an exponent, as long as it stays below `2 ^ 31`. -/
def gatherExponent (exponent : Nat) : Text → Nat × Text
  | [] => (exponent, [])
  | c :: s =>
    if isAsciiDigit c then
      let next := 10 * exponent + (c.toNat - 48)
      if next < Nat.pow 2 31 then gatherExponent next s else (exponent, c :: s)
    else (exponent, c :: s)

def exponentPart (negative : Bool) (significand : Nat) (start : Int) (s : Text) :
    Except JsonFailure (JsonNumber × Text) :=
  let (down, s) :=
    match s with
    | '+' :: t => (false, t)
    | '-' :: t => (true, t)
    | t => (false, t)
  match s with
  | [] => fail .endInValue [] 0
  | c :: _ =>
    if isAsciiDigit c then
      let (exponent, rest) := gatherExponent 0 s
      if startsWithDigit rest then
        if significand ≠ 0 ∧ ¬ down then fail .numberOutOfRange (rest.drop 1) 0
        else .ok (.decimal (.finite negative 0), rest.dropWhile isAsciiDigit)
      else decimalOf negative significand (if down then start - exponent else start + exponent) rest
    else fail .invalidNumber s 1

def afterSignificand (negative : Bool) (significand : Nat) (exponent : Int) (s : Text) :
    Except JsonFailure (JsonNumber × Text) :=
  match s with
  | c :: t =>
    if c = 'e' ∨ c = 'E' then exponentPart negative significand exponent t
    else decimalOf negative significand exponent s
  | [] => decimalOf negative significand exponent s

/-- Reads a number on behind its point. Digits that do not fit the significand are dropped. -/
def fractionPart (negative : Bool) (significand : Nat) (start : Int) (s : Text) :
    Except JsonFailure (JsonNumber × Text) :=
  let digits := s.takeWhile isAsciiDigit
  let rest := s.dropWhile isAsciiDigit
  if digits.isEmpty then
    if s.isEmpty then fail .endInValue [] 0 else fail .invalidNumber s 1
  else
    let (gathered, left) := gatherDigits significand digits
    afterSignificand negative gathered (start - (digits.length - left.length : Nat)) rest

def number (negative : Bool) (s : Text) : Except JsonFailure (JsonNumber × Text) :=
  let digits := s.takeWhile isAsciiDigit
  let rest := s.dropWhile isAsciiDigit
  match digits with
  | [] =>
    match s with
    | [] => fail .endInValue [] 0
    | _ :: _ => fail .invalidNumber s 1
  | first :: more =>
    if first = '0' ∧ ¬ more.isEmpty then fail .invalidNumber (s.drop 1) 1
    else
      let (significand, left) := gatherDigits 0 digits
      let exponent : Int := left.length
      match rest with
      | '.' :: t => fractionPart negative significand exponent t
      | _ =>
        if rest.head? = some 'e' ∨ rest.head? = some 'E' ∨ ¬ left.isEmpty then
          afterSignificand negative significand exponent rest
        else if ¬ negative then .ok (.natural significand, rest)
        else if significand = 0 ∨ Nat.pow 2 63 < significand then
          .ok (.decimal (Binary64.ofRatio true significand 1), rest)
        else .ok (.negative significand, rest)

def skipNumber (s : Text) : Except JsonFailure (Unit × Text) :=
  let digits := s.takeWhile isAsciiDigit
  let rest := s.dropWhile isAsciiDigit
  match digits with
  | [] => fail .invalidNumber s 1
  | first :: more =>
    if first = '0' ∧ ¬ more.isEmpty then fail .invalidNumber (s.drop 1) 1
    else
      match rest with
      | '.' :: t =>
        if startsWithDigit t then skipExponent (t.dropWhile isAsciiDigit) else fail .invalidNumber t 1
      | _ => skipExponent rest
where
  skipExponent (s : Text) : Except JsonFailure (Unit × Text) :=
    match s with
    | c :: t =>
      if c = 'e' ∨ c = 'E' then
        let t := if t.head? = some '+' ∨ t.head? = some '-' then t.drop 1 else t
        if startsWithDigit t then .ok ((), t.dropWhile isAsciiDigit) else fail .invalidNumber t 1
      else .ok ((), s)
    | [] => .ok ((), [])

/-! ## Lists and objects -/

/-- Where a fault of the shape of a list's items is settled: behind the bracket or comma that
follows, if one does. -/
def settleInList (failure : JsonFailure) : JsonFailure :=
  if failure.settled then failure
  else
    match skipSpace failure.rest with
    | ']' :: t => { failure with rest := t, settled := true }
    | ',' :: t => { failure with rest := skipSpace t, settled := true }
    | rest => { failure with rest, settled := true }

def settleInObject (failure : JsonFailure) : JsonFailure :=
  if failure.settled then failure
  else
    match skipSpace failure.rest with
    | '\x7D' :: t => { failure with rest := t, settled := true }
    | rest => { failure with rest, settled := true }

def nextItem? (isFirst : Bool) (s : Text) : Except JsonFailure (Option Text) :=
  match skipSpace s with
  | [] => fail .endInList [] 0
  | c :: t =>
    if c = ']' then .ok none
    else if isFirst then .ok (some (c :: t))
    else if c = ',' then
      match skipSpace t with
      | [] => fail .endInValue [] 0
      | d :: u => if d = ']' then fail .trailingComma (d :: u) 1 else .ok (some (d :: u))
    else fail .expectedListEnd (c :: t) 1

/-- Reads the items of a list behind its opening bracket, up to the closing one. The reading ends
at an item that takes nothing. -/
def items (item : JsonReader α) (isFirst : Bool) (s : Text) : Except JsonFailure (List α × Text) :=
  match nextItem? isFirst s with
  | .error e => .error e
  | .ok none => .ok ([], skipSpace s)
  | .ok (some t) =>
    match item t with
    | .error e => .error e
    | .ok (a, rest) =>
      if rest.length < s.length then (items item false rest).map fun (as, rest) => (a :: as, rest)
      else .ok ([a], rest)
termination_by s.length

def list (item : JsonReader α) (s : Text) : Except JsonFailure (List α × Text) :=
  match items item true s with
  | .error e => .error (settleInList e)
  | .ok (as, rest) => .ok (as, rest.drop 1)

def nextKey? (isFirst : Bool) (s : Text) : Except JsonFailure (Option (Text × Text)) :=
  match skipSpace s with
  | [] => fail .endInObject [] 0
  | c :: t =>
    if c = '\x7D' then .ok none
    else if isFirst then key (c :: t)
    else if c = ',' then
      match skipSpace t with
      | [] => fail .endInValue [] 0
      | d :: u => if d = '\x7D' then fail .trailingComma (d :: u) 1 else key (d :: u)
    else fail .expectedObjectEnd (c :: t) 1
where
  key (s : Text) : Except JsonFailure (Option (Text × Text)) :=
    match s with
    | '"' :: t => (string t).map some
    | _ => fail .keyNotString s 1

def colon (s : Text) : Except JsonFailure Text :=
  match skipSpace s with
  | [] => fail .endInObject [] 0
  | ':' :: t => .ok t
  | t => fail .expectedColon t 1

/-- Reads the members of an object behind its opening brace, up to the closing one. For each key
`field` gives the reader of its value, which also takes the value up, or refuses the key. The
reading ends at a member that takes nothing. -/
def members (field : σ → Text → Except JsonFault (JsonReader σ)) (isFirst : Bool) (state : σ)
    (s : Text) : Except JsonFailure (σ × Text) :=
  match nextKey? isFirst s with
  | .error e => .error e
  | .ok none => .ok (state, skipSpace s)
  | .ok (some (key, behind)) =>
    match field state key with
    | .error fault => .error ⟨fault, behind, 0, false⟩
    | .ok reader =>
      match colon behind with
      | .error e => .error e
      | .ok t =>
        match reader t with
        | .error e => .error e
        | .ok (next, rest) =>
          if rest.length < s.length then members field false next rest else .ok (next, rest)
termination_by s.length

def object (field : σ → Text → Except JsonFault (JsonReader σ)) (start : σ)
    (finish : σ → Except JsonFault α) (s : Text) : Except JsonFailure (α × Text) :=
  match members field true start s with
  | .error e => .error (settleInObject e)
  | .ok (state, rest) =>
    match finish state with
    | .error fault => .error (settleInObject ⟨fault, rest, 0, false⟩)
    | .ok a => .ok (a, rest.drop 1)

/-! ## Values -/

/-- Reads any value; `depth` more brackets may be open inside it, less one. -/
def value : Nat → JsonReader Json
  | 0, s => fail .tooDeep s 1
  | depth + 1, s =>
    match skipSpace s with
    | [] => fail .endInValue [] 0
    | c :: t =>
      if c = 'n' then ident .null "ull".toList t
      else if c = 't' then ident (.bool true) "rue".toList t
      else if c = 'f' then ident (.bool false) "alse".toList t
      else if c = '-' then (number true t).map fun (n, rest) => (.number n, rest)
      else if isAsciiDigit c then (number false (c :: t)).map fun (n, rest) => (.number n, rest)
      else if c = '"' then (string t).map fun (text, rest) => (.string text, rest)
      else if c = '[' then
        if depth = 0 then fail .tooDeep (c :: t) 1
        else (list (value depth) t).map fun (as, rest) => (.array as, rest)
      else if c = '\x7B' then
        if depth = 0 then fail .tooDeep (c :: t) 1
        else
          object
            (fun entries key => .ok fun u =>
              (value depth u).map fun (v, rest) => (Entries.insert key v entries, rest))
            [] (fun entries => .ok (.object entries)) t
      else fail .expectedValue (c :: t) 1

def depthLimit : Nat := 128

def skipItems (skip : JsonReader Unit) (isFirst : Bool) (s : Text) : Except JsonFailure (Unit × Text) :=
  match skipSpace s with
  | [] => fail .endInList [] 0
  | c :: t =>
    if c = ']' then .ok ((), t)
    else if ¬ isFirst ∧ c ≠ ',' then fail .expectedListEnd (c :: t) 1
    else
      match skip (if isFirst then c :: t else t) with
      | .error e => .error e
      | .ok (_, rest) => if rest.length < s.length then skipItems skip false rest else .ok ((), rest)
termination_by s.length

def skipKey (s : Text) : Except JsonFailure (Unit × Text) :=
  match skipSpace s with
  | [] => fail .endInObject [] 0
  | '"' :: t => do
    let (_, rest) ← skipString t
    let behind ← colon rest
    return ((), behind)
  | t => fail .keyNotString t 1

def skipMembers (skip : JsonReader Unit) (isFirst : Bool) (s : Text) :
    Except JsonFailure (Unit × Text) :=
  match skipSpace s with
  | [] => fail .endInObject [] 0
  | c :: t =>
    if c = '\x7D' then .ok ((), t)
    else if ¬ isFirst ∧ c ≠ ',' then fail .expectedObjectEnd (c :: t) 1
    else
      match skipKey (if isFirst then c :: t else t) with
      | .error e => .error e
      | .ok (_, behind) =>
        match skip behind with
        | .error e => .error e
        | .ok (_, rest) =>
          if rest.length < s.length then skipMembers skip false rest else .ok ((), rest)
termination_by s.length

def skipWithin : Nat → JsonReader Unit
  | 0, s => fail .expectedValue s 1
  | depth + 1, s =>
    match skipSpace s with
    | [] => fail .endInValue [] 0
    | c :: t =>
      if c = 'n' then ident () "ull".toList t
      else if c = 't' then ident () "rue".toList t
      else if c = 'f' then ident () "alse".toList t
      else if c = '-' then skipNumber t
      else if isAsciiDigit c then skipNumber (c :: t)
      else if c = '"' then skipString t
      else if c = '[' then skipItems (skipWithin depth) true t
      else if c = '\x7B' then skipMembers (skipWithin depth) true t
      else fail .expectedValue (c :: t) 1

/-- Passes over any value: a text cannot hold more open brackets than characters. -/
def skip (s : Text) : Except JsonFailure (Unit × Text) :=
  skipWithin (s.length + 1) s

/-- Reads a whole text; nothing but space may follow the value. -/
def run (reader : JsonReader α) (source : Text) : Except JsonError α :=
  match reader source with
  | .error e => .error (JsonError.ofFailure source e)
  | .ok (a, rest) =>
    match skipSpace rest with
    | [] => .ok a
    | t => .error (JsonError.ofFailure source ⟨.trailingCharacters, t, 1, true⟩)

end JsonReader

namespace Json

/-- Reads a whole text as a value. The members of objects come in the order of their keys, and the
last value of a key counts. -/
def parse (source : Text) : Except JsonError Json :=
  JsonReader.run (JsonReader.value JsonReader.depthLimit) source

end Json

end DesignParams
