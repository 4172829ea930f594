import DesignParams.Proofs.Text.Entries
import Mathlib.Data.List.Lex

/-!
# Bytes of a text

Texts are compared by their code points. That is the order of their UTF-8 bytes, for the bytes of a
lower character come first wherever two characters differ.
-/
set_option autoImplicit false

namespace DesignParams

namespace Text

def bytes (s : Text) : List Nat :=
  (s.flatMap String.utf8EncodeChar).map (·.toNat)

theorem bytes_cons (c : Char) (s : Text) :
    bytes (c :: s) = (String.utf8EncodeChar c).map (·.toNat) ++ bytes s := by
  rw [bytes, List.flatMap_cons, List.map_append, bytes]

theorem bytes_cons_ne_nil (c : Char) (s : Text) : bytes (c :: s) ≠ [] := by
  rw [bytes_cons, String.utf8EncodeChar]
  split_ifs <;> simp

theorem toNat_lt (c : Char) : c.toNat < 0x110000 := by
  rcases c.valid with h | h
  · exact Nat.lt_trans h (by decide)
  · exact h.2

theorem bytes_cons_lt {a b : Char} (h : a.toNat < b.toNat) (s t : Text) :
    bytes (a :: s) < bytes (b :: t) := by
  have hHigh := toNat_lt b
  rw [bytes_cons, bytes_cons, String.utf8EncodeChar, String.utf8EncodeChar]
  change a.val.toNat < b.val.toNat at h
  change b.val.toNat < _ at hHigh
  generalize a.val.toNat = m at h
  generalize b.val.toNat = n at h hHigh
  -- No byte overflows, and the bytes behind the first are digits to the base 64.
  have hDigit (k : Nat) : (k % 64 + 128) % 256 = k % 64 + 128 := by omega
  have hTwo (k : Nat) : (k % 32 + 192) % 256 = k % 32 + 192 := by omega
  have hThree (k : Nat) : (k % 16 + 224) % 256 = k % 16 + 224 := by omega
  have hFour (k : Nat) : (k % 8 + 240) % 256 = k % 8 + 240 := by omega
  have hSquare (k : Nat) : k / 4096 = k / 64 / 64 := by omega
  have hCube (k : Nat) : k / 262144 = k / 64 / 64 / 64 := by omega
  split_ifs <;>
    simp only [List.map_cons, List.map_nil, List.cons_append, List.nil_append,
      List.cons_lt_cons_iff, UInt8.toNat_ofNat', hDigit, hTwo, hThree, hFour, hSquare, hCube] <;>
    omega

theorem append_lt_append_iff (l : List Nat) {m n : List Nat} : l ++ m < l ++ n ↔ m < n := by
  induction l with
  | nil => rfl
  | cons k l ih => simp [ih]

/-- Texts are ordered as their bytes are. -/
theorem order_eq_lt_iff {s t : Text} : order s t = .lt ↔ bytes s < bytes t := by
  fun_induction order s t with
  | case1 => simp [bytes]
  | case2 b t =>
    obtain ⟨n, l, h⟩ := List.exists_cons_of_ne_nil (bytes_cons_ne_nil b t)
    rw [h]
    simp [bytes]
  | case3 a s => simp [bytes]
  | case4 a s b t ih =>
    rw [Ordering.then_eq_lt, Nat.compare_eq_lt, Nat.compare_eq_eq, ih]
    rcases Nat.lt_trichotomy a.toNat b.toNat with h | h | h
    · simp only [h, true_or, true_iff]
      exact bytes_cons_lt h s t
    · obtain rfl : a = b := Char.toNat_inj.mp h
      rw [bytes_cons, bytes_cons, append_lt_append_iff]
      simp
    · have hNot := (bytes_cons_lt h t s).not_gt
      simp only [hNot, iff_false, not_or, not_and]
      omega

theorem bytes_inj {s t : Text} : bytes s = bytes t ↔ s = t := by
  constructor
  · intro h
    cases hOrder : order s t with
    | lt => exact absurd (order_eq_lt_iff.mp hOrder) (h ▸ lt_irrefl _)
    | eq => exact order_eq_iff.mp hOrder
    | gt => exact absurd (order_eq_lt_iff.mp (order_gt_iff.mp hOrder)) (h ▸ lt_irrefl _)
  · rintro rfl
    rfl

end Text

end DesignParams
