import DesignParams.Stylesheet.Declaration

/-!
# Sheets

A sheet is a stylesheet before it is written: style rules with their declarations, at-rules with
rules inside, and at-rules without a block. It is written with white space and comments between its
items, and it says which declarations stand in it.
-/
set_option autoImplicit false

namespace DesignParams

namespace Sheet

/-! ## Texts of a sheet -/

def isValueChar (c : Char) : Bool :=
  isAsciiLetter c || isAsciiDigit c || Token.isSpace c || ['.', '#', '%', ',', '-'].contains c

def isPreludeChar (c : Char) : Bool :=
  isValueChar c || c = ':'

def isSelectorChar (c : Char) : Bool :=
  isAsciiLetter c || isAsciiDigit c || Token.isSpace c || ['.', '#', ':', ',', '-'].contains c

/-- Allowed characters, and round brackets around texts of the same kind. -/
inductive IsBalanced (allowed : Char → Bool) : Text → Prop
  | plain {s : Text} (h : s.all allowed = true) : IsBalanced allowed s
  | parens {before inside after : Text} (h : before.all allowed = true)
      (inner : IsBalanced allowed inside) (rest : IsBalanced allowed after) :
      IsBalanced allowed (before ++ '(' :: (inside ++ ')' :: after))

/-- Does no address begin in the text, in letters of either case? -/
def LacksAddress (s : Text) : Prop :=
  ¬ "url(".toList <:+: Text.asciiLowered s

instance (s : Text) : Decidable (LacksAddress s) :=
  inferInstanceAs (Decidable (¬ _))

structure Selector where
  text : Text
  start : text.head?.any (fun c => isAsciiLetter c || ['.', '#', ':'].contains c) = true
  all : text.all isSelectorChar = true

structure Property where
  text : Text
  start : text.head?.any isAsciiLetter = true
  all : (text.all fun c => isAsciiLetter c || isAsciiDigit c || c = '-') = true

structure Value where
  text : Text
  ne_nil : text ≠ []
  trimmed : Text.trim text = text
  balanced : IsBalanced isValueChar text
  lacksAddress : LacksAddress text

/-- A letter behind a dash or none, and letters and dashes behind it. -/
structure AtName where
  text : Text
  start : text.head?.any isAsciiLetter = true ∨
    (text.head? = some '-' ∧ text.tail.head?.any isAsciiLetter = true)
  all : (text.all fun c => isAsciiLetter c || c = '-') = true
  ne_charset : Text.eqIgnoringCase text "charset".toList = false

structure Prelude where
  text : Text
  gap : text.head?.all Token.isSpace = true
  balanced : IsBalanced isPreludeChar text
  lacksAddress : LacksAddress text

structure Blank where
  text : Text
  all : text.all Token.isSpace = true

structure Comment where
  text : Text
  not_infix : ¬ ['*', '/'] <:+: text

structure Trivia where
  lead : Blank
  more : List (Comment × Blank)

structure Line where
  lead : Trivia
  property : Property
  value : Value

inductive Item where
  | style (lead : Trivia) (selector : Selector) (lines : List Line) (tail : Trivia)
  | group (lead : Trivia) (name : AtName) (prelude : Prelude) (items : List Item) (tail : Trivia)
  | statement (lead : Trivia) (name : AtName) (prelude : Prelude)

end Sheet

structure Sheet where
  items : List Sheet.Item
  tail : Sheet.Trivia

namespace Sheet

/-! ## Printing -/

def Comment.print (c : Comment) : Text :=
  '/' :: '*' :: (c.text ++ ['*', '/'])

def printComments : List (Comment × Blank) → Text
  | [] => []
  | (c, b) :: more => c.print ++ b.text ++ printComments more

def Trivia.print (t : Trivia) : Text :=
  t.lead.text ++ printComments t.more

def Line.print (l : Line) : Text :=
  l.lead.print ++ (l.property.text ++ (": ".toList ++ (l.value.text ++ [';'])))

def printLines (lines : List Line) : Text :=
  lines.flatMap Line.print

def header (name : AtName) (prelude : Prelude) : Text :=
  '@' :: (name.text ++ prelude.text)

mutual

def printItem : Item → Text
  | .style lead selector lines tail =>
    lead.print ++ (selector.text ++ '\x7B' :: (printLines lines ++ (tail.print ++ ['\x7D'])))
  | .group lead name prelude items tail =>
    lead.print ++ (header name prelude ++ '\x7B' :: (printItems items ++ (tail.print ++ ['\x7D'])))
  | .statement lead name prelude => lead.print ++ (header name prelude ++ [';'])

def printItems : List Item → Text
  | [] => []
  | item :: items => printItem item ++ printItems items

end

def print (sheet : Sheet) : Text :=
  printItems sheet.items ++ sheet.tail.print

example :
    print ⟨[.group ⟨⟨[], rfl⟩, []⟩ ⟨"media".toList, .inl rfl, rfl, rfl⟩
      ⟨" (width)".toList, rfl,
        @IsBalanced.parens isPreludeChar [' '] "width".toList [] rfl (.plain rfl) (.plain rfl),
        by decide +kernel⟩
      [.style ⟨⟨[' '], rfl⟩, []⟩ ⟨".a".toList, rfl, rfl⟩
        [⟨⟨⟨[], rfl⟩, [(⟨"b".toList, by decide⟩, ⟨[], rfl⟩)]⟩, ⟨"color".toList, rfl, rfl⟩,
          ⟨"red".toList, by decide, by decide, .plain rfl, by decide +kernel⟩⟩]
        ⟨⟨[' '], rfl⟩, []⟩]
      ⟨⟨[], rfl⟩, []⟩], ⟨⟨['\n'], rfl⟩, []⟩⟩ =
    "@media (width)\x7B .a\x7B/*b*/color: red; \x7D\x7D\n".toList := by
  rfl

/-! ## What a sheet declares -/

def oneSpaced (s : Text) : Text :=
  Text.join [' '] (Text.words s)

def selectorIn (headers : List Text) (selector : Text) : Text :=
  Text.join [' '] ((headers ++ [selector]).map oneSpaced)

def declared (selector : Text) (p : Property) (start : Nat) (v : Value) : Declaration :=
  { property := Text.asciiLowered p.text, value := v.text, start
    stop := start + Text.byteLength v.text, selector, position := ⟨0, 0⟩ }

def Line.declaration (selector : Text) (offset : Nat) (l : Line) : Declaration :=
  declared selector l.property
    (offset + Text.byteLength (l.lead.print ++ (l.property.text ++ ": ".toList))) l.value

def lineDeclarations (selector : Text) : Nat → List Line → List Declaration
  | _, [] => []
  | offset, l :: lines =>
    l.declaration selector offset ::
      lineDeclarations selector (offset + Text.byteLength l.print) lines

/-- At-rules that declare nothing, by their names in lower case. -/
def skippedNames : List Text :=
  ["keyframes".toList, "-webkit-keyframes".toList, "font-face".toList, "page".toList]

mutual

/-- The declarations of an item that begins at a byte offset inside at-rules with these headers. -/
def itemDeclarations (headers : List Text) (offset : Nat) : Item → List Declaration
  | .style lead selector lines _ =>
    lineDeclarations (selectorIn headers selector.text)
      (offset + Text.byteLength (lead.print ++ (selector.text ++ ['\x7B']))) lines
  | .group lead name prelude items _ =>
    if Text.asciiLowered name.text ∈ skippedNames then []
    else
      itemsDeclarations (headers ++ [header name prelude])
        (offset + Text.byteLength (lead.print ++ (header name prelude ++ ['\x7B']))) items
  | .statement .. => []

def itemsDeclarations (headers : List Text) (offset : Nat) : List Item → List Declaration
  | [] => []
  | item :: items =>
    itemDeclarations headers offset item ++
      itemsDeclarations headers (offset + Text.byteLength (printItem item)) items

end

def declarations (sheet : Sheet) : List Declaration :=
  Declaration.located sheet.print (itemsDeclarations [] 0 sheet.items)

end Sheet

end DesignParams
