import DesignParams.Text.Basic

/-!
# The identity hash

Parameters are named by a 32-bit FNV-1a hash over UTF-16 code units. Saved values are kept under
these names, so the hash is part of the stored format.
-/
set_option autoImplicit false

namespace DesignParams

def utf16Units (c : Char) : List UInt32 :=
  let n := c.toNat
  if n < 0x10000 then [n.toUInt32]
  else [(0xD800 + (n - 0x10000) / 0x400).toUInt32, (0xDC00 + (n - 0x10000) % 0x400).toUInt32]

namespace Identity

/-- One round: exclusive or with the unit, then multiplication by the FNV prime. -/
def step (hash unit : UInt32) : UInt32 :=
  (hash ^^^ unit) * 16777619

def stableHash (s : Text) : UInt32 :=
  (s.flatMap utf16Units).foldl step 0x811C9DC5

/-- The digits of a number in base 36, lower case, most significant first. -/
def base36 (n : Nat) : Text :=
  if n < 36 then [digit n] else base36 (n / 36) ++ [digit (n % 36)]
where
  digit (d : Nat) : Char :=
    if d < 10 then Char.ofNat (48 + d) else Char.ofNat (87 + d)

/-- The hash in base 36, cut to its six leading digits. -/
def shortHash (s : Text) : Text :=
  (base36 (stableHash s).toNat).take 6

end Identity

end DesignParams
