import DesignParams.CommandLine.Arguments
import DesignParams.CommandLine.Workspace

/-!
# Messages of the command line

What is printed for a command line that is not carried out, and for a command that fails.
-/
set_option autoImplicit false

namespace DesignParams

def programName : Text :=
  "rigger".toList

def programVersion : Text :=
  "0.1.0".toList

def helpText : Text :=
  Text.join ['\n'] <| [
    "Find the design parameters in a front-end project and wire them to custom properties",
    "",
    "Usage: rigger [OPTIONS] <COMMAND>",
    "",
    "Commands:",
    "  scan [--css FILE]                            Detect the project, pick a stylesheet and list its parameters",
    "  candidates                                   Rank the stylesheets of the project",
    "  css FILE                                     Extract parameters from one stylesheet",
    "  tokens FILE [--limit N]                      Extract parameters from one theme configuration",
    "  plan [--css FILE] [--overrides FILE]         Show the changes as a unified diff",
    "  apply [--css FILE] [--overrides FILE]        Change the stylesheet and write the configuration document",
    "  snapshot [--css FILE] [--overrides FILE]     Write a snapshot of the current parameter values",
    "",
    "Options:",
    "      --root DIRECTORY   Project root [default: .]",
    "  -o, --output FORMAT    Output format [default: auto] [possible values: auto, term, text, json, yaml]",
    "  -v, --verbose          Tell which files are written",
    "  -h, --help             Print help",
    "  -V, --version          Print version"].map String.toList

namespace UsageFault

def isQuestion : UsageFault → Bool
  | .helpAsked | .versionAsked => true
  | _ => false

def message : UsageFault → Text
  | .helpAsked | .nothingGiven => helpText
  | .versionAsked => programName ++ ' ' :: programVersion
  | .missingCommand => "error: a command is needed; see --help".toList
  | .unknownCommand => "error: unknown command; see --help".toList
  | .unknownArgument => "error: unexpected argument; see --help".toList
  | .missingFile => "error: a file is needed; see --help".toList
  | .invalidValue => "error: a value is missing or not a possible one; see --help".toList
  | .invalidNumber => "error: a number is needed; see --help".toList
  | .unneededValue => "error: a value is given that is not needed; see --help".toList
  | .repeated => "error: an option is given twice; see --help".toList

end UsageFault

namespace CommandFault

/-- The lines of a fault and its causes, which are numbered if there are several. -/
def report (e : CommandFault) : Text :=
  let causes :=
    match e.causes with
    | [] => []
    | [cause] => [[], "Caused by:".toList, "    ".toList ++ cause]
    | causes =>
      [] :: "Caused by:".toList ::
        causes.mapIdx fun i cause => "    ".toList ++ Text.ofNat i ++ ": ".toList ++ cause
  Text.join ['\n'] (("Error: ".toList ++ e.message) :: causes)

end CommandFault

end DesignParams
