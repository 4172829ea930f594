import DesignParams.Number.Literal
import DesignParams.Parameter

/-!
# The root block

A rigged stylesheet holds one root block: a `:root` rule between two sentinel comments that
declares the custom properties the rest of the stylesheet reads. A new block takes the place of an
old one, and keeps those of its declarations that are still read.
-/
set_option autoImplicit false

namespace DesignParams

namespace RootBlock

def opening : Text :=
  "/* rigger:start */".toList

def closing : Text :=
  "/* rigger:end */".toList

/-- A text cut around its root block; `inner` is what stands between the sentinels. -/
structure Split where
  before : Text
  inner : Text
  after : Text
deriving DecidableEq, Repr

/-- The first opening sentinel and the first closing one behind it bound the root block. -/
def split? (content : Text) : Option Split :=
  match Text.splitOnce? opening content with
  | none => none
  | some (before, rest) =>
    (Text.splitOnce? closing rest).map fun (inner, after) => ⟨before, inner, after⟩

/-! ## References -/

/-- What every generated custom property begins with. -/
def lead : Text :=
  "--rig-".toList

def isNameChar (c : Char) : Bool :=
  isAsciiLetter c || isAsciiDigit c || c = '_' || c = '-'

def name? (s : Text) : Option (Text × Text) :=
  match Text.after? lead s with
  | none => none
  | some rest =>
    let tail := rest.takeWhile isNameChar
    if tail.isEmpty then none else some (lead ++ tail, rest.dropWhile isNameChar)

/-- The generated name that a reference at the start of a text reads, and the rest behind it. -/
def reference? (s : Text) : Option (Text × Text) :=
  match Text.after? "var(".toList s with
  | none => none
  | some rest => name? (Text.trimStart rest)

theorem length_name? {s name rest : Text} (h : name? s = some (name, rest)) :
    rest.length < s.length := by
  simp only [name?] at h
  split at h
  · simp at h
  · rename_i found hFound
    split at h
    · simp at h
    · simp only [Option.some.injEq, Prod.mk.injEq] at h
      obtain ⟨-, rfl⟩ := h
      have h1 := congrArg List.length (Text.append_of_after? hFound)
      have h2 := (List.dropWhile_sublist isNameChar (l := found)).length_le
      have h3 : lead.length = 6 := by decide
      simp only [List.length_append] at h1
      omega

theorem length_reference? {s name rest : Text} (h : reference? s = some (name, rest)) :
    rest.length < s.length := by
  simp only [reference?] at h
  split at h
  · simp at h
  · rename_i found hFound
    have h1 := congrArg List.length (Text.append_of_after? hFound)
    have h2 := (List.dropWhile_sublist isBlank (l := found)).length_le
    have h3 := length_name? h
    simp only [List.length_append, Text.trimStart] at h1 h3
    omega

def references : Text → List Text
  | [] => []
  | c :: s =>
    match _hRef : reference? (c :: s) with
    | some (name, rest) => name :: references rest
    | none => references s
termination_by s => s.length
decreasing_by
  · exact length_reference? _hRef
  · simp

/-! ## Declarations of an old block -/

structure Item where
  customProperty : Text
  value : Text
deriving DecidableEq, Repr

def endsLine (s : Text) : Bool :=
  (Text.trimStart s).isEmpty || (Text.leadingBlank s).any (· = '\n')

/-- The rest behind a semicolon that ends a declaration and, but for white space, its line. -/
def lineEnd? (s : Text) : Option Text :=
  match Text.trimStart s with
  | ';' :: rest => if endsLine rest then some rest else none
  | _ => none

/-- The shortest value of one line that ends a declaration, and the rest behind its semicolon. -/
def valueFrom? : Text → Option (Text × Text)
  | [] => none
  | c :: s =>
    match lineEnd? (c :: s) with
    | some rest => some ([], rest)
    | none =>
      if c = '\n' then none else (valueFrom? s).map fun (value, rest) => (c :: value, rest)

/-- The declaration at the start of a line, white space before it apart, and the rest. -/
def item? (s : Text) : Option (Item × Text) :=
  match name? (Text.trimStart s) with
  | none => none
  | some (name, rest) =>
    match Text.trimStart rest with
    | ':' :: tail => (valueFrom? (Text.trimStart tail)).map fun (value, rest) => (⟨name, value⟩, rest)
    | _ => none

theorem length_lineEnd? {s rest : Text} (h : lineEnd? s = some rest) : rest.length < s.length := by
  simp only [lineEnd?] at h
  split at h
  · rename_i found hFound
    split at h
    · simp only [Option.some.injEq] at h
      subst h
      have h1 := (List.dropWhile_sublist isBlank (l := s)).length_le
      simp only [Text.trimStart] at hFound
      simp only [hFound, List.length_cons] at h1
      omega
    · simp at h
  · simp at h

theorem valueFrom?_eq_match (c : Char) (s : Text) :
    valueFrom? (c :: s) =
      match lineEnd? (c :: s) with
      | some rest => some ([], rest)
      | none =>
        if c = '\n' then none else (valueFrom? s).map fun (value, rest) => (c :: value, rest) :=
  (rfl)

theorem valueFrom?_eq_some {c : Char} {s rest : Text} (h : lineEnd? (c :: s) = some rest) :
    valueFrom? (c :: s) = some ([], rest) := by
  rw [valueFrom?_eq_match, h]

theorem valueFrom?_cons {c : Char} {s : Text} (h : lineEnd? (c :: s) = none) :
    valueFrom? (c :: s) =
      if c = '\n' then none else (valueFrom? s).map fun (value, rest) => (c :: value, rest) := by
  rw [valueFrom?_eq_match, h]

theorem length_valueFrom? {s value rest : Text} (h : valueFrom? s = some (value, rest)) :
    rest.length < s.length := by
  induction s generalizing value with
  | nil => cases h
  | cons c s ih =>
    cases hEnd : lineEnd? (c :: s) with
    | some found =>
      rw [valueFrom?_eq_some hEnd] at h
      cases h
      exact length_lineEnd? hEnd
    | none =>
      rw [valueFrom?_cons hEnd] at h
      split at h
      · cases h
      · obtain ⟨⟨v, r⟩, hv, hEq⟩ := Option.map_eq_some_iff.mp h
        obtain ⟨-, rfl⟩ := Prod.mk.inj hEq
        exact Nat.lt_succ_of_lt (ih hv)

theorem length_item? {s rest : Text} {item : Item} (h : item? s = some (item, rest)) :
    rest.length < s.length := by
  have hTrim (t : Text) : (Text.trimStart t).length ≤ t.length :=
    (List.dropWhile_sublist isBlank (l := t)).length_le
  simp only [item?] at h
  split at h
  · simp at h
  · rename_i name behind hName
    split at h
    · rename_i tail hTail
      simp only [Option.map_eq_some_iff, Prod.mk.injEq] at h
      obtain ⟨p, hv, -, rfl⟩ := h
      have h1 := length_name? hName
      have h2 := length_valueFrom? hv
      have h3 := hTrim s
      have h4 := hTrim behind
      have h5 := hTrim tail
      simp only [hTail, List.length_cons] at h4
      omega
    · simp at h

def itemsFrom (atLineStart : Bool) : Text → List Item
  | [] => []
  | c :: s =>
    if atLineStart then
      match _hItem : item? (c :: s) with
      | some (item, rest) => item :: itemsFrom false rest
      | none => itemsFrom (c = '\n') s
    else itemsFrom (c = '\n') s
termination_by s => s.length
decreasing_by
  · exact length_item? _hItem
  · simp
  · simp

def items (inner : Text) : List Item :=
  itemsFrom true (opening ++ inner ++ closing)

def distinct : List Text → List Item → List Item
  | _, [] => []
  | seen, item :: rest =>
    if seen.contains item.customProperty then distinct seen rest
    else item :: distinct (item.customProperty :: seen) rest

/-- The declarations of the old block that the text outside it still reads and that no parameter
declares, in block order. -/
def carried (content : Text) (params : List Parameter) : List Item :=
  match split? content with
  | none => []
  | some parts =>
    let referenced := references (parts.before ++ parts.after)
    let declared := params.map (·.customProperty)
    (distinct [] (items parts.inner)).filter fun item =>
      referenced.contains item.customProperty && !declared.contains item.customProperty

/-! ## The new block -/

def parameterId? (customProperty : Text) : Option Text :=
  match Text.after? lead customProperty with
  | none => none
  | some rest =>
    match Text.after? "tw-".toList rest with
    | some token => some ("rig.tw.".toList ++ token)
    | none => some ("rig.".toList ++ rest)

/-- The value of a carried declaration: the override of its parameter id, a number in the unit of
the old value, or else the old value. -/
def Item.effectiveValue (item : Item) (overrides : Overrides) : Text :=
  match (parameterId? item.customProperty).bind (Entries.find? · overrides) with
  | none => item.value
  | some value => value.render ((Quantity.parse? item.value).map (·.unit))

def ofParameter (overrides : Overrides) (p : Parameter) : Item :=
  ⟨p.customProperty, (p.effectiveValue overrides).render p.unit⟩

def ofCarried (overrides : Overrides) (item : Item) : Item :=
  ⟨item.customProperty, item.effectiveValue overrides⟩

def Item.line (item : Item) : Text :=
  "  ".toList ++ item.customProperty ++ ": ".toList ++ item.value ++ ";".toList

def write (items : List Item) : Text :=
  Text.join ['\n'] ([opening, ":root \x7B".toList] ++ items.map Item.line ++ ["\x7D".toList, closing])

def build (params : List Parameter) (carried : List Item) (overrides : Overrides) : Text :=
  write (params.map (ofParameter overrides) ++ carried.map (ofCarried overrides))

/-- Puts a block in the place of the old one, or before the text with a blank line between. -/
def inject (content block : Text) : Text :=
  match split? content with
  | some parts => parts.before ++ block ++ parts.after
  | none => block ++ "\n\n".toList ++ content

end RootBlock

end DesignParams
