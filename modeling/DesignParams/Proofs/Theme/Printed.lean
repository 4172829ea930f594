import DesignParams.Proofs.Theme.Listing
import DesignParams.Proofs.List.First
import DesignParams.Proofs.Text.Cut

/-!
# Printed themes

A theme is written as one object literal that holds an object literal for each section. The members
of a section are leaves, which set a quoted key to a quoted value, and groups, which set a quoted
key to an object literal of leaves.
-/
set_option autoImplicit false

namespace DesignParams

namespace Theme

/-- A text that can stand between double quotes and names no section. -/
structure Literal where
  text : Text
  quote_not_mem : '"' ∉ text
  backslash_not_mem : '\\' ∉ text
  not_infix : ∀ s : Section, ¬ s.key <:+: text

structure Leaf where
  key : Literal
  value : Literal
  value_ne_nil : value.text ≠ []

inductive Member where
  | leaf (leaf : Leaf)
  | group (key : Literal) (leaves : List Leaf)

abbrev Table := List Member

/-! ## Printing -/

def assignment (key value : Text) : Text :=
  key ++ (": ".toList ++ value)

def body (members : List Text) : Text :=
  ' ' :: (Text.join ", ".toList members ++ [' '])

def object (members : List Text) : Text :=
  '\x7B' :: (body members ++ ['\x7D'])

def quoted (l : Literal) : Text :=
  '"' :: (l.text ++ ['"'])

def printLeaf (l : Leaf) : Text :=
  assignment (quoted l.key) (quoted l.value)

def printMember : Member → Text
  | .leaf l => printLeaf l
  | .group key leaves => assignment (quoted key) (object (leaves.map printLeaf))

def printSection (t : Section × Table) : Text :=
  assignment t.1.key (object (t.2.map printMember))

def print (theme : List (Section × Table)) : Text :=
  object (theme.map printSection)

/-! ## What is printed -/

/-- The entries of a member: a leaf is one, and each leaf of a group is one under the joined key. -/
def memberEntries (s : Section) : Member → List Entry
  | .leaf l => [⟨s, l.key.text, l.value.text⟩]
  | .group key leaves => leaves.map fun l => ⟨s, key.text ++ '-' :: l.key.text, l.value.text⟩

def entries (theme : List (Section × Table)) : List Entry :=
  Section.all.flatMap fun s =>
    (theme.filter (·.1 = s)).flatMap fun t => t.2.flatMap (memberEntries s)

end Theme

end DesignParams
