import DesignParams.Document.Basic
import DesignParams.Rewire

/-!
# Edit plans

An edit gives a project's main stylesheet a new text and describes its parameters in a
configuration. Both come from the same scan.
-/
set_option autoImplicit false

namespace DesignParams

structure EditPlan where
  file : Path
  content : Text
  config : Config
deriving DecidableEq, Repr

/-- The edit of a scanned project whose main stylesheet has the given text; a project without one
has no edit. -/
def ProjectScan.plan? (scan : ProjectScan) (current : Text) (overrides : Overrides)
    (generatedAt : Instant) : Option EditPlan :=
  scan.stylesheet.map fun file =>
    { file
      content := rewire current scan.params overrides
      config := scan.config generatedAt }

end DesignParams
