import DesignParams.Text.Basic

/-!
# Entries

A finite map from texts, as a list of entries in increasing order of their keys.
-/
set_option autoImplicit false

namespace DesignParams

abbrev Entries (α : Type) := List (Text × α)

namespace Entries

variable {α : Type}

def find? (key : Text) : Entries α → Option α
  | [] => none
  | (k, v) :: entries => if k = key then some v else find? key entries

/-- Enters a value in its place, over an earlier value of the same key. -/
def insert (key : Text) (value : α) : Entries α → Entries α
  | [] => [(key, value)]
  | (k, v) :: entries =>
    match Text.order key k with
    | .lt => (key, value) :: (k, v) :: entries
    | .eq => (key, value) :: entries
    | .gt => (k, v) :: insert key value entries

def erase (key : Text) (entries : Entries α) : Entries α :=
  entries.filter fun entry => entry.1 ≠ key

/-- The entries of a list in which the last value of a key counts. -/
def ofList (pairs : List (Text × α)) : Entries α :=
  pairs.foldl (fun entries pair => insert pair.1 pair.2 entries) []

end Entries

end DesignParams
