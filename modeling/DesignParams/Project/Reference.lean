import DesignParams.Path
import DesignParams.Text.Blank
import DesignParams.Text.Case

/-!
# References to stylesheets

Stylesheets import stylesheets, pages link them and scripts import them. A reference is found by
the shape of its text alone, so one inside a comment counts as well. It loses its query and its
fragment, and is resolved against the directory of the file it stands in.
-/
set_option autoImplicit false

namespace DesignParams

namespace Reference

def isQuoteMark (c : Char) : Bool :=
  c = '\'' || c = '"'

def extension : Text :=
  ".css".toList

/-- A reference up to its query or fragment, trimmed. -/
def withoutQuery (target : Text) : Text :=
  Text.trim (target.takeWhile fun c => c ≠ '?' && c ≠ '#')

/-- What `find?` finds at the places of a text, from left to right; `skip` characters are left out
first. It gives what it found and the rest behind it, where the search goes on. -/
def findFrom (find? : Text → Option (Text × Text)) : Nat → Text → List Text
  | _, [] => []
  | skip + 1, _ :: s => findFrom find? skip s
  | 0, c :: s =>
    match find? (c :: s) with
    | some (target, rest) => target :: findFrom find? (s.length - rest.length) s
    | none => findFrom find? 0 s

/-- The targets in a text, without their queries; those of which nothing is left do not count. -/
def targets (find? : Text → Option (Text × Text)) (s : Text) : List Text :=
  ((findFrom find? 0 s).map withoutQuery).filter (· ≠ [])

/-! ## In stylesheets -/

/-- The longest part at the start of a text that ends with the extension and holds more. -/
def throughExtension? : Text → Option (Text × Text)
  | [] => none
  | c :: s =>
    match throughExtension? s with
    | some (target, rest) => some (c :: target, rest)
    | none =>
      (Text.afterFolded? extension s).map fun rest => (c :: s.take extension.length, rest)

def isBareChar (c : Char) : Bool :=
  c ≠ '\'' && c ≠ '"' && c ≠ ')' && !isBlank c

/-- The target at the start of a text, behind one quote if there is one. -/
def bareTarget? (s : Text) : Option (Text × Text) :=
  let quoted := if s.head?.any isQuoteMark then s.drop 1 else s
  (throughExtension? (quoted.takeWhile isBareChar)).map fun (target, rest) =>
    (target, rest ++ quoted.dropWhile isBareChar)

def stylesheetImport? (s : Text) : Option (Text × Text) :=
  match Text.afterFolded? "@import".toList s with
  | none => none
  | some t =>
    if (Text.leadingBlank t).isEmpty then none
    else
      let u := Text.trimStart t
      match (Text.afterFolded? "url(".toList u).bind bareTarget? with
      | some found => some found
      | none => bareTarget? u

/-! ## In pages and scripts -/

/-- The text between the quote that a text begins with and the next quote of either kind, and the
rest behind that one. -/
def quotedTarget? : Text → Option (Text × Text)
  | [] => none
  | q :: s =>
    if isQuoteMark q then
      match s.dropWhile (!isQuoteMark ·) with
      | [] => none
      | _ :: rest => some (s.takeWhile (!isQuoteMark ·), rest)
    else none

/-- The link target of an attribute at the start of a text, and the rest behind its tag. -/
def linkTarget? (s : Text) : Option (Text × Text) :=
  match (Text.afterFolded? "href=".toList s).bind quotedTarget? with
  | none => none
  | some (target, behind) =>
    match behind.dropWhile (· ≠ '>') with
    | [] => none
    | _ :: rest => if Text.containsFolded extension (target.drop 1) then some (target, rest) else none

/-- The target of the last attribute of a tag that links a stylesheet. At least one character
stands before it. -/
def lastLink? : Text → Option (Text × Text)
  | [] => none
  | c :: s =>
    if c = '>' then none
    else
      match lastLink? s with
      | some found => some found
      | none => linkTarget? s

def link? (s : Text) : Option (Text × Text) :=
  (Text.afterFolded? "<link".toList s).bind lastLink?

/-- Is this what stands between `import` and the module name: space, or bindings and `from`? -/
def isImportGap (gap : Text) : Bool :=
  (!gap.isEmpty && Text.isAllBlank gap) || endsWithFrom
where
  endsWithFrom : Bool :=
    match Text.after? "from".toList.reverse (Text.trimEnd gap).reverse with
    | none => false
    | some beforeFrom =>
      -- It is read backwards: white space at both ends, and bindings between.
      gap.getLast?.any isBlank && 3 ≤ beforeFrom.length && beforeFrom.head?.any isBlank &&
        beforeFrom.getLast?.any isBlank

/-- A script import at the start of a text, of a module that satisfies `keep`. -/
def scriptImport? (keep : Text → Bool) (s : Text) : Option (Text × Text) :=
  match Text.after? "import".toList s with
  | none => none
  | some t =>
    if isImportGap (t.takeWhile (!isQuoteMark ·)) then
      (quotedTarget? (t.dropWhile (!isQuoteMark ·))).filter fun found => keep found.1
    else none

def isStylesheetName (name : Text) : Bool :=
  Text.contains (name.drop 1) extension

def isModuleName (name : Text) : Bool :=
  Text.endsWith (name.drop 1) ".module.css".toList

/-! ## The references of a file -/

def ofStylesheet (s : Text) : List Text :=
  targets stylesheetImport? s

def ofPage (s : Text) : List Text :=
  targets link? s

def ofScript (s : Text) : List Text :=
  targets (scriptImport? isStylesheetName) s

def modulesOfScript (s : Text) : List Text :=
  targets (scriptImport? isModuleName) s

/-- The file that a reference found in a file of this directory means. A target is relative to
the directory only if it begins with a dot, and to the project otherwise. -/
def resolve? (directory : Path) (target : Text) : Option Path :=
  match withoutQuery target with
  | [] => none
  | c :: rest =>
    if c = '/' then Path.normalize? ⟨rest⟩
    else if c = '.' then Path.normalize? (directory.append ⟨c :: rest⟩)
    else Path.normalize? ⟨c :: rest⟩

end Reference

end DesignParams
