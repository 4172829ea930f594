import DesignParams.Diff.Unified
import DesignParams.Document.Encode

/-!
# Reports

What an edit would change, and what it has written.
-/
set_option autoImplicit false

namespace DesignParams

structure PlanReport where
  file : Path
  params : Nat
  inserted : Nat
  deleted : Nat
  diff : Text
deriving DecidableEq, Repr

structure WriteReport where
  files : List Path
  params : Nat
deriving DecidableEq, Repr

namespace PlanReport

def ofTexts (file : Path) (params : Nat) (old new : Text) : PlanReport :=
  let edits := Diff.edits old new
  { file, params
    inserted := Diff.insertedLines edits
    deleted := Diff.deletedLines edits
    diff := Diff.unified old new file.text }

def toJson (r : PlanReport) : Json :=
  .object
    [("file".toList, r.file.toJson),
      ("params".toList, .ofNat r.params),
      ("inserted".toList, .ofNat r.inserted),
      ("deleted".toList, .ofNat r.deleted),
      ("diff".toList, .string r.diff)]

end PlanReport

def WriteReport.toJson (r : WriteReport) : Json :=
  .object
    [("files".toList, .array (r.files.map Path.toJson)),
      ("params".toList, .ofNat r.params)]

end DesignParams
