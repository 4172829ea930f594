import DesignParams.Text.Entries

/-!
# Paths

A path keeps the text it was written with. Two paths are the same file name when their components
are equal: repeated and trailing slashes and inner `.` segments do not count, a leading `.` and
every `..` do.
-/
set_option autoImplicit false

namespace DesignParams

structure Path where
  text : Text
deriving DecidableEq, Repr

namespace Path

inductive Component where
  | root
  | current
  | parent
  | name (text : Text)
deriving DecidableEq, Repr

namespace Component

def ofSegment : Text → Component
  | ['.', '.'] => .parent
  | s => .name s

def text : Component → Text
  | .root => ['/']
  | .current => ['.']
  | .parent => ['.', '.']
  | .name s => s

/-- Roots come before `.`, `.` before `..`, and `..` before names, which compare as texts. -/
def order : Component → Component → Ordering
  | .name s, .name t => Text.order s t
  | a, b => compare (rank a) (rank b)
where
  rank : Component → Nat
    | .root => 0
    | .current => 1
    | .parent => 2
    | .name _ => 3

end Component

def ofString (s : String) : Path :=
  ⟨s.toList⟩

def isAbsolute (p : Path) : Bool :=
  p.text.head? = some '/'

/-- Is the segment a component of its own wherever it stands? -/
def isCounted (segment : Text) : Bool :=
  segment ≠ [] ∧ segment ≠ ['.']

/-- The slash-separated segments that count: neither empty nor `.`. -/
def segments (p : Path) : List Text :=
  (Text.splitOn '/' p.text).filter isCounted

def components (p : Path) : List Component :=
  let first :=
    if p.isAbsolute then [.root]
    else if (Text.splitOn '/' p.text).head? = some ['.'] then [.current]
    else []
  first ++ p.segments.map .ofSegment

def same (p q : Path) : Bool :=
  p.components == q.components

def orderComponents : List Component → List Component → Ordering
  | [], [] => .eq
  | [], _ :: _ => .lt
  | _ :: _, [] => .gt
  | a :: s, b :: t => (Component.order a b).then (orderComponents s t)

def order (p q : Path) : Ordering :=
  orderComponents p.components q.components

def ofNames (names : List Text) : Path :=
  ⟨Text.join ['/'] names⟩

/-- A path taken relative to a base; an absolute one replaces the base. -/
def append (base p : Path) : Path :=
  if p.isAbsolute then p
  else if base.text = [] then p
  else if base.text.getLast? = some '/' then ⟨base.text ++ p.text⟩
  else ⟨base.text ++ '/' :: p.text⟩

/-- Resolves a `..` against the names before it, on a reversed list of names. -/
def cancel : List Component → List Text → Option (List Text)
  | [], names => some names
  | .root :: rest, names => cancel rest names
  | .current :: rest, names => cancel rest names
  | .parent :: _, [] => none
  | .parent :: rest, _ :: names => cancel rest names
  | .name s :: rest, names => cancel rest (s :: names)

/-- Resolves `.` and `..` without looking at any file. A path that climbs above its start, or that
no name is left of, has no normal form. -/
def normalize? (p : Path) : Option Path :=
  match cancel p.components [] with
  | none | some [] => none
  | some names => some (ofNames names.reverse)

def fileName? (p : Path) : Option Text :=
  match p.components.getLast? with
  | some (.name s) => some s
  | _ => none

def ofComponents : List Component → Path
  | .root :: rest => ⟨'/' :: Text.join ['/'] (rest.map Component.text)⟩
  | components => ⟨Text.join ['/'] (components.map Component.text)⟩

/-- What is left of a path without its last component; a root has no parent. -/
def parent? (p : Path) : Option Path :=
  match p.components.getLast? with
  | none | some .root => none
  | some _ => some (ofComponents p.components.dropLast)

/-- The directory that references in a file are relative to. -/
def directory (p : Path) : Path :=
  (parent? p).getD ⟨[]⟩

/-- What follows the last dot of the file name, unless the name begins there or is `..`. -/
def extension? (p : Path) : Option Text :=
  match p.fileName? with
  | none => none
  | some name =>
    let tail := name.reverse.takeWhile (· ≠ '.')
    if tail.length + 1 < name.length then some tail.reverse else none

def hasExtension (p : Path) (extensions : List Text) : Bool :=
  match p.extension? with
  | some e => extensions.contains e
  | none => false

def dropCounted : Nat → List Text → List Text
  | _, [] => []
  | count, s :: rest =>
    if isCounted s then
      match count with
      | 0 => s :: rest
      | n + 1 => dropCounted n rest
    else dropCounted count rest

def dropTail (segments : List Text) : List Text :=
  (segments.reverse.dropWhile (!isCounted ·)).reverse

/-- What follows the components of a base, as it was written, but for slashes at either end. A
base without components takes nothing away from the beginning. -/
def relativeTo? (p base : Path) : Option Path :=
  let all := Text.splitOn '/' p.text
  if base.components = [] then
    some (if p.segments = [] then ofComponents p.components else ⟨Text.join ['/'] (dropTail all)⟩)
  else if base.components.isPrefixOf p.components then
    some ⟨Text.join ['/'] (dropTail (dropCounted base.segments.length all))⟩
  else none

/-- A path as a project with the given root sees it: an absolute path below the root is taken
relative to the root. -/
def within (root p : Path) : Path :=
  if p.isAbsolute then (p.relativeTo? root).getD p else p

end Path

end DesignParams
