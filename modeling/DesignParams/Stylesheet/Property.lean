import DesignParams.Parameter
import DesignParams.Text.Blank
import DesignParams.Text.Case

/-!
# Properties and their values

Which properties hold parameters, the group and the bounds of each, how a value is recognised, and
how far a parameter found in a stylesheet can be relied on.
-/
set_option autoImplicit false

namespace DesignParams

namespace Property

def allowed : List Text :=
  ["color".toList, "background-color".toList, "border-color".toList, "font-size".toList,
    "line-height".toList, "letter-spacing".toList, "margin".toList, "margin-top".toList,
    "margin-right".toList, "margin-bottom".toList, "margin-left".toList, "padding".toList,
    "padding-top".toList, "padding-right".toList, "padding-bottom".toList, "padding-left".toList,
    "border-radius".toList, "box-shadow".toList, "transition".toList, "animation".toList,
    "animation-duration".toList]

def isAllowed (property : Text) : Bool :=
  allowed.contains property

/-- Properties whose values combine several settings. -/
def compound : List Text :=
  ["box-shadow".toList, "transition".toList, "animation".toList, "animation-duration".toList]

def isReference (value : Text) : Bool :=
  Text.eqIgnoringCase (value.take 4) "var(".toList

def isColor : Text → Bool
  | '#' :: s => 3 ≤ (s.takeWhile isHexDigit).length
  | s =>
    ["rgb(".toList, "rgba(".toList, "hsl(".toList, "hsla(".toList].any (Text.startsWith s)

def group (property : Text) : Group :=
  if Text.contains property "color".toList then .colour
  else if ["font-size".toList, "line-height".toList, "letter-spacing".toList,
      "font-weight".toList].contains property then .typography
  else if Text.startsWith property "margin".toList ∨ Text.startsWith property "padding".toList then
    .spacing
  else if Text.contains property "radius".toList then .radius
  else if Text.contains property "shadow".toList then .shadow
  else if Text.contains property "transition".toList ∨ Text.contains property "animation".toList then
    .motion
  else .other

/-- Bounds with whole or decimal numbers, given in hundredths. -/
def boundsOf (min max step : Int) : Bounds :=
  let hundredths (n : Int) : Binary64 := Binary64.ofRatio (n < 0) n.natAbs 100
  ⟨hundredths min, hundredths max, hundredths step⟩

def bounds (property : Text) : Bounds :=
  if Text.contains property "line-height".toList then boundsOf 80 300 5
  else if Text.contains property "letter-spacing".toList then boundsOf (-200) 1000 10
  else if Text.contains property "radius".toList then boundsOf 0 6400 100
  else if Text.contains property "shadow".toList then boundsOf 0 3200 100
  else if Text.contains property "font-size".toList then boundsOf 800 9600 100
  else boundsOf 0 20000 100

def isSelectorGap (c : Char) : Bool :=
  isBlank c || c = '>'

/-- Does the root, the document or its body stand in a selector, between gaps or at its ends? -/
def selectsRoot (selector : Text) : Bool :=
  atGap selector || within selector
where
  /-- One of the names begins here and a gap or the end is behind it. -/
  atGap (s : Text) : Bool :=
    [":root".toList, "html".toList, "body".toList].any fun name =>
      match Text.afterFolded? name s with
      | some rest => rest.head?.all isSelectorGap
      | none => false
  within : Text → Bool
    | [] => false
    | c :: s => (isSelectorGap c && atGap s) || within s

def selectsInteraction (selector : Text) : Bool :=
  [":hover".toList, ":active".toList, ":focus".toList].any (Text.containsFolded · selector)

def isComputed (value : Text) : Bool :=
  ["calc(".toList, "var(".toList, "clamp(".toList, "min(".toList, "max(".toList].any
    (Text.containsFolded · value)

/-- The confidence in a stylesheet parameter: a sum of hundredths, between 0.2 and 0.95. -/
def confidence (property value : Text) (selector : Option Text) (kind : Kind) : Binary64 :=
  let ofKind : Int :=
    match kind with
    | .color => 20
    | .number => 15
    | .string => 0
  let ofSelector : Int :=
    match selector with
    | none => 0
    | some s => (if selectsRoot s then 10 else 0) - (if selectsInteraction s then 5 else 0)
  let ofValue : Int := if isComputed value then 10 else 0
  let ofProperty : Int := if compound.contains property then 5 else 0
  confidenceOf 20 95 (55 + ofKind + ofSelector - ofValue - ofProperty)

end Property

end DesignParams
