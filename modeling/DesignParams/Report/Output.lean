import DesignParams.Json.Printer
import DesignParams.Report.Style
import DesignParams.Yaml.Printer

/-!
# Output formats

A report is written as text, with styles or without, or as a data document.
-/
set_option autoImplicit false

namespace DesignParams

inductive OutputFormat where
  | text (styling : Styling)
  | json
  | yaml
deriving DecidableEq, Repr

namespace OutputFormat

def document? (format : OutputFormat) (data : Json) : Option Text :=
  match format with
  | .text _ => none
  | .json => some data.pretty
  | .yaml => some (Yaml.document data)

def emit (format : OutputFormat) (data : Json) (render : Styling → Text) : Text :=
  match format with
  | .text styling => render styling
  | .json => data.pretty
  | .yaml => Yaml.document data

def notStructured : Text :=
  "Not a structured output mode".toList

end OutputFormat

end DesignParams
