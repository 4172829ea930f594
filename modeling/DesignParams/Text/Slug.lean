import DesignParams.Text.Case

/-!
# Slugs

A slug is the lower-cased text's runs of `[a-z0-9]`, joined by single dashes.
-/
set_option autoImplicit false

namespace DesignParams

def isSlugChar (c : Char) : Bool :=
  ('a' ≤ c && c ≤ 'z') || isAsciiDigit c

/-- The slug character in the full lower-casing of a character, if there is one. The lower-casing
of `İ` (U+0130) is `i` with a combining dot; every other character beyond ASCII, `K` (U+212A)
apart, is lower-cased beyond ASCII. -/
def lowered (c : Char) : Text :=
  if c = '\u0130' then ['i', '\u0307'] else if c = '\u212A' then ['k'] else [asciiLower c]

namespace Text

def slugWords (s : Text) : List Text :=
  runs isSlugChar (s.flatMap lowered)

def slugify (s : Text) : Text :=
  join ['-'] (slugWords s)

end Text

end DesignParams
