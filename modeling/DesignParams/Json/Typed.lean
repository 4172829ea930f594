import DesignParams.Json.Reader

/-!
# Reading JSON by type

Readers for values of a known type: scalars, choices among names, lists, dictionaries and records.
A value of another type is a fault that says what was found and what was expected. A record is an
object with named fields, in any order, or a list of them in their own order.
-/
set_option autoImplicit false

namespace DesignParams

namespace JsonReader

variable {α σ : Type}

def mismatch (expected : Text) (s : Text) : Except JsonFailure (α × Text) :=
  match skipSpace s with
  | [] => fail .endInValue [] 0
  | c :: t =>
    if c = 'n' then found (ident .null "ull".toList t)
    else if c = 't' then found (ident (.bool true) "rue".toList t)
    else if c = 'f' then found (ident (.bool false) "alse".toList t)
    else if c = '-' then found ((number true t).map fun (n, rest) => (.ofNumber n, rest))
    else if isAsciiDigit c then
      found ((number false (c :: t)).map fun (n, rest) => (.ofNumber n, rest))
    else if c = '"' then found ((string t).map fun (text, rest) => (.string text, rest))
    else if c = '[' then found (.ok (.sequence, c :: t))
    else if c = '\x7B' then found (.ok (.map, c :: t))
    else fail .expectedValue (c :: t) 1
where
  found (result : Except JsonFailure (Found × Text)) : Except JsonFailure (α × Text) :=
    match result with
    | .error e => .error e
    | .ok (what, rest) => fail (.invalidType what expected) rest 0

/-! ## Scalars -/

def text (expected : Text) (s : Text) : Except JsonFailure (Text × Text) :=
  match skipSpace s with
  | '"' :: t => string t
  | t => mismatch expected t

def boolean (s : Text) : Except JsonFailure (Bool × Text) :=
  match skipSpace s with
  | 't' :: t => ident true "rue".toList t
  | 'f' :: t => ident false "alse".toList t
  | t => mismatch "a boolean".toList t

def numeric (expected : Text) (convert : JsonNumber → Except JsonFault α) (s : Text) :
    Except JsonFailure (α × Text) :=
  match skipSpace s with
  | [] => fail .endInValue [] 0
  | c :: t =>
    if c = '-' then accept (number true t)
    else if isAsciiDigit c then accept (number false (c :: t))
    else mismatch expected (c :: t)
where
  accept (result : Except JsonFailure (JsonNumber × Text)) : Except JsonFailure (α × Text) :=
    match result with
    | .error e => .error e
    | .ok (n, rest) =>
      match convert n with
      | .ok a => .ok (a, rest)
      | .error fault => fail fault rest 0

def decimal : JsonReader Binary64 :=
  numeric "f64".toList fun n => .ok n.toBinary64

def natural : JsonReader Nat :=
  numeric "usize".toList fun
    | .natural n => .ok n
    | .negative n => .error (.invalidValue (.integer (-(n : Int))) "usize".toList)
    | .decimal x => .error (.invalidType (.decimal x) "usize".toList)

def integer : JsonReader Int :=
  numeric "i64".toList fun
    | .natural n =>
      if n < Nat.pow 2 63 then .ok n else .error (.invalidValue (.integer n) "i64".toList)
    | .negative n => .ok (-(n : Int))
    | .decimal x => .error (.invalidType (.decimal x) "i64".toList)

def optional (reader : JsonReader α) (s : Text) : Except JsonFailure (Option α × Text) :=
  match skipSpace s with
  | 'n' :: t => ident none "ull".toList t
  | t => (reader t).map fun (a, rest) => (some a, rest)

/-! ## Choices -/

def named (names : List Text) (ofName? : Text → Option α) (name rest : Text) :
    Except JsonFailure (α × Text) :=
  match ofName? name with
  | some a => .ok (a, rest)
  | none => fail (.unknownVariant name names) rest 0

def emptyContent (s : Text) : Except JsonFailure (Unit × Text) :=
  match skipSpace s with
  | 'n' :: t => ident () "ull".toList t
  | t => mismatch "unit".toList t

/-- One of several names, as a string or as the only key of an object that holds null. -/
def choice (names : List Text) (ofName? : Text → Option α) (s : Text) :
    Except JsonFailure (α × Text) :=
  match skipSpace s with
  | [] => fail .endInValue [] 0
  | c :: t =>
    if c = '"' then do
      let (name, rest) ← string t
      named names ofName? name rest
    else if c = '\x7B' then do
      let (name, rest) ← text "variant identifier".toList t
      let (a, rest) ← named names ofName? name rest
      let rest ← colon rest
      let (_, rest) ← emptyContent rest
      match skipSpace rest with
      | '\x7D' :: rest => return (a, rest)
      | [] => fail .endInObject [] 0
      | rest => fail .expectedValue rest 0
    else fail .expectedValue (c :: t) 1

/-! ## Collections -/

def sequence (item : JsonReader α) (s : Text) : Except JsonFailure (List α × Text) :=
  match skipSpace s with
  | '[' :: t => list item t
  | t => mismatch "a sequence".toList t

/-- An object with values of one type; the last value of a key counts. -/
def dictionary (item : JsonReader α) (s : Text) : Except JsonFailure (Entries α × Text) :=
  match skipSpace s with
  | '\x7B' :: t =>
    object
      (fun entries key => .ok fun u =>
        (item u).map fun (a, rest) => (Entries.insert key a entries, rest))
      [] .ok t
  | t => mismatch "a map".toList t

/-! ## Records -/

structure Slot (σ : Type) where
  name : Text
  /-- May the field be left out? -/
  isOptional : Bool
  isFilled : σ → Bool
  fill : σ → JsonReader σ

def slot (name : String) (get : σ → Option α) (set : σ → α → σ) (reader : JsonReader α) : Slot σ where
  name := name.toList
  isOptional := false
  isFilled state := (get state).isSome
  fill state s := (reader s).map fun (a, rest) => (set state a, rest)

def optionalSlot (name : String) (get : σ → Option (Option α)) (set : σ → Option α → σ)
    (reader : JsonReader α) : Slot σ :=
  { slot name get set (optional reader) with isOptional := true }

/-- Reads the value of the field with the given key; values of unknown keys are passed over. -/
def slotFor (slots : List (Slot σ)) (state : σ) (key : Text) : Except JsonFault (JsonReader σ) :=
  match slots.find? (·.name == key) with
  | none => .ok fun s => (skip s).map fun (_, rest) => (state, rest)
  | some field =>
    if field.isFilled state then .error (.duplicateField key) else .ok (field.fill state)

/-- Fills fields in order, from the one with the given index on, with the items of a list. Optional
fields may be missing at its end. -/
def fillInOrder (expected : Text) : List (Slot σ) → Nat → σ → Text → Except JsonFailure (σ × Text)
  | [], _, state, s => .ok (state, s)
  | field :: fields, index, state, s =>
    match nextItem? (index == 0) s with
    | .error e => .error e
    | .ok none =>
      if field.isOptional then fillInOrder expected fields (index + 1) state s
      else .error ⟨.invalidLength index expected, s, 0, false⟩
    | .ok (some t) =>
      match field.fill state t with
      | .error e => .error e
      | .ok (next, rest) => fillInOrder expected fields (index + 1) next rest

def listEnd (s : Text) : Except JsonFailure Text :=
  match skipSpace s with
  | [] => fail .endInList [] 0
  | ']' :: t => .ok t
  | ',' :: t =>
    match skipSpace t with
    | ']' :: u => fail .trailingComma (']' :: u) 1
    | u => fail .trailingCharacters u 1
  | t => fail .trailingCharacters t 1

def record (title : String) (slots : List (Slot σ)) (start : σ) (finish : σ → Except JsonFault α)
    (s : Text) : Except JsonFailure (α × Text) :=
  match skipSpace s with
  | '\x7B' :: t => object (slotFor slots) start finish t
  | '[' :: t =>
    let expected := "struct ".toList ++ title.toList ++ " with ".toList ++
      Text.ofNat slots.length ++ " elements".toList
    match fillInOrder expected slots 0 start t with
    | .error e => .error (settleInList e)
    | .ok (state, rest) =>
      match listEnd rest, finish state with
      | .error e, _ => .error e
      | .ok rest, .ok a => .ok (a, rest)
      | .ok rest, .error fault => fail fault rest 0
  | t => mismatch ("struct ".toList ++ title.toList) t

def need (name : String) : Option α → Except JsonFault α
  | some a => .ok a
  | none => .error (.missingField name.toList)

end JsonReader

end DesignParams
