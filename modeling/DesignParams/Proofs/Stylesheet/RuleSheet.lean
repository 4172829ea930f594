import DesignParams.Proofs.Stylesheet.Sheet
import DesignParams.Stylesheet.Pair

/-!
# Sheets of style rules

A sheet that has only style rules, in at-rules to any depth. White space may stand between any two
of its parts, and comments stand nowhere.
-/
set_option autoImplicit false

namespace DesignParams

namespace RuleSheet

structure Row where
  lead : Sheet.Blank
  property : Sheet.Property
  lacksDigits : property.text.all Declaration.isPairName = true
  gap : Sheet.Blank
  start : Sheet.Blank
  value : Sheet.Value
  stop : Sheet.Blank

structure GroupName extends Sheet.AtName where
  declares : Text.asciiLowered text ∉ Sheet.skippedNames

/-- What follows the name of an at-rule. It may follow at once, with a mark or a bracket. -/
structure Prelude where
  text : Text
  apart : text.head?.any Token.isNameChar = false
  balanced : Sheet.IsBalanced Sheet.isPreludeChar text
  lacksAddress : Sheet.LacksAddress text

inductive Rule where
  | style (lead : Sheet.Blank) (selector : Sheet.Selector) (rows : List Row) (tail : Sheet.Blank)
  | group (lead : Sheet.Blank) (name : GroupName) (prelude : Prelude) (rules : List Rule)
    (tail : Sheet.Blank)

end RuleSheet

structure RuleSheet where
  rules : List RuleSheet.Rule
  tail : Sheet.Blank

namespace RuleSheet

open Sheet (selectorIn declared)

/-! ## Printing -/

def Row.front (r : Row) : Text :=
  r.lead.text ++ (r.property.text ++ (r.gap.text ++ ':' :: r.start.text))

def Row.print (r : Row) : Text :=
  r.front ++ (r.value.text ++ (r.stop.text ++ [';']))

def printRows (rows : List Row) : Text :=
  rows.flatMap Row.print

def header (name : GroupName) (prelude : Prelude) : Text :=
  '@' :: (name.text ++ prelude.text)

mutual

def printRule : Rule → Text
  | .style lead selector rows tail =>
    lead.text ++ (selector.text ++ '\x7B' :: (printRows rows ++ tail.text ++ ['\x7D']))
  | .group lead name prelude rules tail =>
    lead.text ++ (header name prelude ++ '\x7B' :: (printRules rules ++ tail.text ++ ['\x7D']))

def printRules : List Rule → Text
  | [] => []
  | rule :: rules => printRule rule ++ printRules rules

end

def print (sheet : RuleSheet) : Text :=
  printRules sheet.rules ++ sheet.tail.text

/-! ## What the rules declare -/

def rowsDeclarations (selector : Text) : Nat → List Row → List Declaration
  | _, [] => []
  | offset, r :: rows =>
    declared selector r.property (offset + Text.byteLength r.front) r.value ::
      rowsDeclarations selector (offset + Text.byteLength r.print) rows

/-- A group as the selectors inside it show it: a space parts its name from its prelude. -/
def entry (name : GroupName) (prelude : Prelude) : Text :=
  '@' :: (name.text ++ ' ' :: prelude.text)

mutual

def ruleDeclarations (headers : List Text) (offset : Nat) : Rule → List Declaration
  | .style lead selector rows _ =>
    rowsDeclarations (selectorIn headers selector.text)
      (offset + Text.byteLength (lead.text ++ (selector.text ++ ['\x7B']))) rows
  | .group lead name prelude rules _ =>
    rulesDeclarations (headers ++ [entry name prelude])
      (offset + Text.byteLength (lead.text ++ (header name prelude ++ ['\x7B']))) rules

def rulesDeclarations (headers : List Text) (offset : Nat) : List Rule → List Declaration
  | [] => []
  | rule :: rules =>
    ruleDeclarations headers offset rule ++
      rulesDeclarations headers (offset + Text.byteLength (printRule rule)) rules

end

def declarations (sheet : RuleSheet) : List Declaration :=
  Declaration.located sheet.print (rulesDeclarations [] 0 sheet.rules)

end RuleSheet

end DesignParams
