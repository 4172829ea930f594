import DesignParams.Stylesheet.Declaration

/-!
# Pairs in a malformed stylesheet

A stylesheet whose rules cannot be told apart is searched for pairs of a property and a value that
a semicolon ends. No selector is known for them.
-/
set_option autoImplicit false

namespace DesignParams

namespace Declaration

def isPairName (c : Char) : Bool :=
  isAsciiLetter c || c = '-'

def isPairValue (c : Char) : Bool :=
  c ≠ ';' && c ≠ '\x7B' && c ≠ '\x7D'

/-- The value behind a property name: what precedes it, the value, and the rest behind its
semicolon. A value that is empty but for white space is no value. -/
def pairValue? (s : Text) : Option (Text × Text × Text) :=
  let gap := s.takeWhile isBlank
  match s.dropWhile isBlank with
  | ':' :: tail =>
    let raw := tail.takeWhile isPairValue
    match tail.dropWhile isPairValue with
    | ';' :: rest =>
      let value := Text.trim raw
      if value.isEmpty then none else some (gap ++ ':' :: Text.leadingBlank raw, value, rest)
    | _ => none
  | _ => none

theorem length_pairValue? {s before value rest : Text}
    (h : pairValue? s = some (before, value, rest)) : rest.length < s.length := by
  simp only [pairValue?] at h
  split at h
  · rename_i tail hTail
    split at h
    · rename_i found hFound
      split at h
      · simp at h
      · simp only [Option.some.injEq, Prod.mk.injEq] at h
        obtain ⟨-, -, rfl⟩ := h
        have h1 := (List.dropWhile_sublist isBlank (l := s)).length_le
        have h2 := (List.dropWhile_sublist isPairValue (l := tail)).length_le
        simp only [hTail, hFound, List.length_cons] at h1 h2
        omega
    · simp at h
  · simp at h

def pairsFrom : Nat → Text → List Declaration
  | _, [] => []
  | offset, c :: s =>
    if isPairName c then
      let name := c :: s.takeWhile isPairName
      let tail := s.dropWhile isPairName
      let behind := offset + Text.byteLength name
      match _hPair : pairValue? tail with
      | some (before, value, rest) =>
        let start := behind + Text.byteLength before
        { property := Text.asciiLowered name, value, start, stop := start + Text.byteLength value,
          selector := [], position := ⟨0, 0⟩ } ::
          pairsFrom (behind + (Text.byteLength tail - Text.byteLength rest)) rest
      | none => pairsFrom behind tail
    else pairsFrom (offset + c.utf8Size) s
termination_by _ s => s.length
decreasing_by
  · have h1 := (List.dropWhile_sublist isPairName (l := s)).length_le
    have h2 : rest.length < (s.dropWhile isPairName).length := length_pairValue? _hPair
    simp only [List.length_cons]
    omega
  · have h1 := (List.dropWhile_sublist isPairName (l := s)).length_le
    simp only [List.length_cons]
    omega
  · simp

def pairs (css : Text) : List Declaration :=
  located css (pairsFrom 0 css)

def ofStylesheet (css : Text) : List Declaration :=
  (structural? css).getD (pairs css)

end Declaration

end DesignParams
