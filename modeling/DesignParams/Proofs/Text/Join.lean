import DesignParams.Proofs.Text.Cut
import Mathlib.Data.List.Infix

/-!
# Joining and splitting

Parts that lack a mark are what a text is split into at the marks between them, and the other way
round.
-/
set_option autoImplicit false

namespace DesignParams

namespace Text

theorem endsWith_eq_true_iff {s tail : Text} : endsWith s tail = true ↔ tail <:+ s := by
  rw [endsWith, startsWith, Option.isSome_iff_exists]
  constructor
  · rintro ⟨rest, hRest⟩
    rw [← List.reverse_prefix]
    exact ⟨rest, (after?_eq_some_iff.mp hRest).symm⟩
  · rintro ⟨front, rfl⟩
    exact ⟨front.reverse, by rw [List.reverse_append, after?_append]⟩

/-! ## The parts between marks -/

theorem splitOn_cons_of_ne {mark c : Char} (h : c ≠ mark) (s : Text) :
    ∃ part parts, splitOn mark s = part :: parts ∧ splitOn mark (c :: s) = (c :: part) :: parts := by
  have hSome : ∃ part parts, splitOn mark s = part :: parts := by
    cases s with
    | nil => exact ⟨[], [], rfl⟩
    | cons d s =>
      rw [splitOn]
      split
      · exact ⟨[], _, rfl⟩
      · split
        · exact ⟨_, _, rfl⟩
        · exact ⟨_, _, rfl⟩
  obtain ⟨part, parts, hParts⟩ := hSome
  exact ⟨part, parts, hParts, by rw [splitOn, if_neg h, hParts]⟩

theorem mark_not_mem_of_mem_splitOn {mark : Char} {s part : Text} (h : part ∈ splitOn mark s) :
    mark ∉ part := by
  induction s generalizing part with
  | nil =>
    obtain rfl := List.mem_singleton.mp h
    exact List.not_mem_nil
  | cons c s ih =>
    by_cases hMark : c = mark
    · rw [splitOn, if_pos hMark] at h
      rcases List.mem_cons.mp h with rfl | h
      · exact List.not_mem_nil
      · exact ih h
    · obtain ⟨first, parts, hParts, hCons⟩ := splitOn_cons_of_ne hMark s
      rw [hCons] at h
      rw [hParts] at ih
      rcases List.mem_cons.mp h with rfl | h
      · intro hMem
        rcases List.mem_cons.mp hMem with rfl | hMem
        · exact hMark rfl
        · exact ih List.mem_cons_self hMem
      · exact ih (List.mem_cons_of_mem first h)

theorem splitOn_of_not_mem {mark : Char} {part : Text} (h : mark ∉ part) :
    splitOn mark part = [part] := by
  induction part with
  | nil => rfl
  | cons c part ih =>
    rw [List.mem_cons, not_or] at h
    rw [splitOn, if_neg (Ne.symm h.1), ih h.2]

theorem splitOn_append_cons {mark : Char} {part : Text} (h : mark ∉ part) (rest : Text) :
    splitOn mark (part ++ mark :: rest) = part :: splitOn mark rest := by
  induction part with
  | nil => rw [List.nil_append, splitOn, if_pos rfl]
  | cons c part ih =>
    rw [List.mem_cons, not_or] at h
    rw [List.cons_append, splitOn, if_neg (Ne.symm h.1), ih h.2]

theorem join_singleton (separator part : Text) : join separator [part] = part :=
  List.intercalate_singleton

theorem join_cons_cons (separator first second : Text) (parts : List Text) :
    join separator (first :: second :: parts) =
      first ++ separator ++ join separator (second :: parts) :=
  List.intercalate_cons_cons

theorem splitOn_join {mark : Char} {parts : List Text} (hNonempty : parts ≠ [])
    (hParts : ∀ part ∈ parts, mark ∉ part) : splitOn mark (join [mark] parts) = parts := by
  induction parts with
  | nil => exact absurd rfl hNonempty
  | cons first parts ih =>
    have hFirst := hParts first List.mem_cons_self
    cases parts with
    | nil => rw [join_singleton, splitOn_of_not_mem hFirst]
    | cons second parts =>
      rw [join_cons_cons, List.append_assoc, List.singleton_append, splitOn_append_cons hFirst,
        ih (List.cons_ne_nil _ _) fun part hPart => hParts part (List.mem_cons_of_mem first hPart)]

theorem suffix_join {separator last : Text} {parts : List Text} (h : parts.getLast? = some last) :
    last <:+ join separator parts := by
  induction parts with
  | nil => cases h
  | cons first parts ih =>
    cases parts with
    | nil =>
      obtain rfl : first = last := Option.some.inj h
      rw [join_singleton]
    | cons second parts =>
      rw [List.getLast?_cons_cons] at h
      rw [join_cons_cons]
      exact (ih h).trans (List.suffix_append _ _)

theorem join_append {separator : Text} {front back : List Text} (hFront : front ≠ [])
    (hBack : back ≠ []) :
    join separator (front ++ back) = join separator front ++ separator ++ join separator back := by
  induction front with
  | nil => exact absurd rfl hFront
  | cons first front ih =>
    cases front with
    | nil =>
      obtain ⟨second, back, rfl⟩ := List.exists_cons_of_ne_nil hBack
      rw [List.singleton_append, join_cons_cons, join_singleton]
    | cons second front =>
      rw [List.cons_append, List.cons_append, join_cons_cons, join_cons_cons,
        ← List.cons_append, ih (List.cons_ne_nil _ _)]
      simp only [List.append_assoc]

theorem join_concat {separator last : Text} {parts : List Text} (h : parts ≠ []) :
    join separator (parts ++ [last]) = join separator parts ++ separator ++ last := by
  rw [join_append h (List.cons_ne_nil last []), join_singleton]

theorem join_append_left (separator front first : Text) (parts : List Text) :
    join separator ((front ++ first) :: parts) = front ++ join separator (first :: parts) := by
  cases parts with
  | nil => rw [join_singleton, join_singleton]
  | cons second parts =>
    rw [join_cons_cons, join_cons_cons, List.append_assoc, List.append_assoc, List.append_assoc]

theorem join_eq_nil_iff {separator : Text} {parts : List Text} (h : ∀ part ∈ parts, part ≠ []) :
    join separator parts = [] ↔ parts = [] := by
  constructor
  · intro hNil
    cases parts with
    | nil => rfl
    | cons first parts =>
      have hJoin := join_append_left separator first [] parts
      rw [List.append_nil, hNil] at hJoin
      exact absurd (List.append_eq_nil_iff.mp hJoin.symm).1 (h first List.mem_cons_self)
  · rintro rfl
    exact List.intercalate_nil

end Text

end DesignParams
