import DesignParams.Text.Basic

/-!
# White space

The characters with the Unicode property White_Space, and texts trimmed of them.
-/
set_option autoImplicit false

namespace DesignParams

/-- Has the character the Unicode property White_Space? -/
def isBlank (c : Char) : Bool :=
  let n := c.toNat
  (9 ≤ n && n ≤ 13) || n = 0x20 || n = 0x85 || n = 0xA0 || n = 0x1680 ||
    (0x2000 ≤ n && n ≤ 0x200A) || n = 0x2028 || n = 0x2029 || n = 0x202F || n = 0x205F || n = 0x3000

namespace Text

def trimStart (s : Text) : Text :=
  s.dropWhile isBlank

def trimEnd (s : Text) : Text :=
  (s.reverse.dropWhile isBlank).reverse

def trim (s : Text) : Text :=
  trimEnd (trimStart s)

def leadingBlank (s : Text) : Text :=
  s.takeWhile isBlank

def isAllBlank (s : Text) : Bool :=
  s.all isBlank

def words (s : Text) : List Text :=
  runs (fun c => !isBlank c) s

theorem leadingBlank_append_trimStart (s : Text) : leadingBlank s ++ trimStart s = s :=
  List.takeWhile_append_dropWhile

end Text

end DesignParams
