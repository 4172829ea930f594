import DesignParams.Text.Lines

/-!
# Styled text

A style wraps text into the escape sequences of a terminal. Plain styles wrap nothing.
-/
set_option autoImplicit false

namespace DesignParams

inductive Role where
  | heading
  | name
  | value
  | muted
  | added
  | removed
  | hunk
deriving DecidableEq, Repr

namespace Role

def code : Role → Text
  | .heading => "1".toList
  | .name => "36".toList
  | .value => "33".toList
  | .muted => "2".toList
  | .added => "32".toList
  | .removed => "31".toList
  | .hunk => "35".toList

end Role

inductive Styling where
  | plain
  | terminal
deriving DecidableEq, Repr

namespace Styling

def apply (styling : Styling) (role : Role) (s : Text) : Text :=
  match styling with
  | .plain => s
  | .terminal => "\x1B[".toList ++ role.code ++ 'm' :: s ++ "\x1B[0m".toList

def diffRole? (line : Text) : Option Role :=
  if Text.startsWith line "+++".toList ∨ Text.startsWith line "---".toList then some .heading
  else if Text.startsWith line "@@".toList then some .hunk
  else if Text.startsWith line "+".toList then some .added
  else if Text.startsWith line "-".toList then some .removed
  else none

def diffLine (styling : Styling) (line : Text) : Text :=
  match diffRole? line with
  | some role => styling.apply role line
  | none => line

def diff (styling : Styling) (s : Text) : Text :=
  Text.join ['\n'] ((Text.lines s).map styling.diffLine)

end Styling

end DesignParams
