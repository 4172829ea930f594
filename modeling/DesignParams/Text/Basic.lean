/-!
# Text

Text is a list of characters, and every position in it is a count of UTF-8 bytes. The operations
here measure, cut and search such texts; a cut exists only between two characters.
-/
set_option autoImplicit false

namespace DesignParams

abbrev Text := List Char

namespace Text

def byteLength : Text → Nat
  | [] => 0
  | c :: s => c.utf8Size + byteLength s

/-- Cuts a text at a byte offset; there is no cut inside a character or past the end. -/
def splitAt? : Nat → Text → Option (Text × Text)
  | 0, s => some ([], s)
  | _ + 1, [] => none
  | n + 1, c :: s =>
    if c.utf8Size ≤ n + 1 then
      (splitAt? (n + 1 - c.utf8Size) s).map fun (before, after) => (c :: before, after)
    else none
termination_by _ s => s.length

def isBoundary (offset : Nat) (s : Text) : Bool :=
  (splitAt? offset s).isSome

def after? : Text → Text → Option Text
  | [], s => some s
  | _ :: _, [] => none
  | a :: lead, b :: s => if a = b then after? lead s else none

def startsWith (s lead : Text) : Bool :=
  (after? lead s).isSome

def endsWith (s tail : Text) : Bool :=
  startsWith s.reverse tail.reverse

def splitOnce? (needle : Text) : Text → Option (Text × Text)
  | [] => if needle.isEmpty then some ([], []) else none
  | c :: s =>
    match after? needle (c :: s) with
    | some rest => some ([], rest)
    | none => (splitOnce? needle s).map fun (before, rest) => (c :: before, rest)

def contains (s needle : Text) : Bool :=
  (splitOnce? needle s).isSome

def replaceFirst (s old new : Text) : Text :=
  match splitOnce? old s with
  | some (before, rest) => before ++ new ++ rest
  | none => s

def splitOn (mark : Char) : Text → List Text
  | [] => [[]]
  | c :: s =>
    if c = mark then [] :: splitOn mark s
    else
      match splitOn mark s with
      | part :: parts => (c :: part) :: parts
      | [] => [[c]]

/-- The maximal runs of characters that satisfy `keep`, in order. -/
def runs (keep : Char → Bool) : Text → List Text
  | [] => []
  | c :: s =>
    if keep c then (c :: s.takeWhile keep) :: runs keep (s.dropWhile keep)
    else runs keep s
termination_by s => s.length
decreasing_by
  · have := (List.dropWhile_sublist keep (l := s)).length_le
    simp only [List.length_cons]
    omega
  · simp

def join (separator : Text) (parts : List Text) : Text :=
  List.intercalate separator parts

/-- Lexicographic order by code point, which is also the order of the UTF-8 bytes. -/
def order : Text → Text → Ordering
  | [], [] => .eq
  | [], _ :: _ => .lt
  | _ :: _, [] => .gt
  | a :: s, b :: t => (compare a.toNat b.toNat).then (order s t)

def ofNat (n : Nat) : Text :=
  Nat.toDigits 10 n

def ofInt : Int → Text
  | .ofNat n => ofNat n
  | .negSucc n => '-' :: ofNat (n + 1)

def repeated (c : Char) (count : Nat) : Text :=
  List.replicate count c

theorem byteLength_append (s t : Text) : byteLength (s ++ t) = byteLength s + byteLength t := by
  induction s with
  | nil => simp [byteLength]
  | cons c s ih => simp only [List.cons_append, byteLength, ih, Nat.add_assoc]

theorem append_of_after? {lead s rest : Text} (h : after? lead s = some rest) :
    s = lead ++ rest := by
  fun_induction after? lead s with
  | case1 => simpa using h
  | case2 => simp at h
  | case3 => simp_all
  | case4 => simp at h

theorem append_of_splitOnce? {needle s before rest : Text}
    (h : splitOnce? needle s = some (before, rest)) : s = before ++ needle ++ rest := by
  induction s generalizing before with
  | nil => cases needle <;> simp_all [splitOnce?]
  | cons c s ih =>
    simp only [splitOnce?] at h
    split at h
    · rename_i found hFound
      simp only [Option.some.injEq, Prod.mk.injEq] at h
      obtain ⟨rfl, rfl⟩ := h
      simpa using append_of_after? hFound
    · simp only [Option.map_eq_some_iff, Prod.mk.injEq] at h
      obtain ⟨⟨b, r⟩, hb, rfl, rfl⟩ := h
      simpa using ih hb

theorem append_of_splitAt? {offset : Nat} {s before after : Text}
    (h : splitAt? offset s = some (before, after)) :
    s = before ++ after ∧ byteLength before = offset := by
  fun_induction splitAt? offset s generalizing before with
  | case1 s =>
    simp only [Option.some.injEq, Prod.mk.injEq] at h
    obtain ⟨rfl, rfl⟩ := h
    simp [byteLength]
  | case2 => simp at h
  | case3 n c s hSize ih =>
    simp only [Option.map_eq_some_iff, Prod.mk.injEq] at h
    obtain ⟨⟨b, a⟩, hb, rfl, rfl⟩ := h
    obtain ⟨rfl, hLength⟩ := ih hb
    simp only [List.cons_append, byteLength, hLength, true_and]
    omega
  | case4 => simp at h

end Text

end DesignParams
