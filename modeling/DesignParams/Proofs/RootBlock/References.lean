import DesignParams.Proofs.RootBlock.Line

/-!
# References of joined texts

What a text refers to is what its parts refer to, when no reference can reach from one part into the
next: the next one begins, white space apart, with a character that no reference goes on with.
-/
set_option autoImplicit false

namespace DesignParams

namespace RootBlock

/-- Is there no reference that begins in front of the text and goes on in it? -/
def Severs (s : Text) : Prop :=
  ∀ c ∈ (Text.trimStart s).head?, isNameChar c = false ∧ c ≠ '('

theorem Severs.head {s : Text} (h : Severs s) : ∀ c ∈ s.head?, isNameChar c = false ∧ c ≠ '(' := by
  intro c hc
  cases s with
  | nil => cases hc
  | cons d s =>
    obtain rfl : d = c := Option.some.inj hc
    by_cases hBlank : isBlank d = true
    · constructor
      · rw [← Bool.not_eq_true]
        intro hName
        rw [isBlank_of_isNameChar hName] at hBlank
        cases hBlank
      · rintro rfl
        exact absurd hBlank (by decide)
    · apply h
      rw [Text.trimStart, List.dropWhile_cons_of_neg hBlank]
      rfl

theorem severs_cons {c : Char} (hBlank : isBlank c = false) (hName : isNameChar c = false)
    (hOpen : c ≠ '(') (s : Text) : Severs (c :: s) := by
  intro d hd
  rw [Text.trimStart, List.dropWhile_cons_of_neg (by simp [hBlank])] at hd
  obtain rfl := Option.some.inj hd
  exact ⟨hName, hOpen⟩

theorem severs_blank {s : Text} (h : s.all isBlank = true) : Severs s := by
  intro c hc
  rw [Text.trimStart, List.dropWhile_eq_nil_iff.mpr fun d hd => List.all_eq_true.mp h d hd] at hc
  cases hc

theorem name?_append_of_head {s t : Text} (h : ∀ c ∈ t.head?, isNameChar c = false) :
    name? (s ++ t) = (name? s).map fun (name, rest) => (name, rest ++ t) := by
  have hLead : ∀ c ∈ t.head?, c ∉ lead := by
    intro c hc hMem
    have hAll : lead.all isNameChar = true := by decide
    have hName := List.all_eq_true.mp hAll c hMem
    rw [h c hc] at hName
    cases hName
  rw [name?, name?, Text.after?_append_of_head hLead]
  cases Text.after? lead s with
  | none => rfl
  | some rest =>
    have hName : (rest ++ t).takeWhile isNameChar = rest.takeWhile isNameChar := by
      rw [List.takeWhile_append, takeWhile_isNameChar h, List.append_nil]
      split
      · rename_i hAll
        exact ((List.takeWhile_prefix isNameChar).eq_of_length hAll).symm
      · rfl
    have hRest : (rest ++ t).dropWhile isNameChar = rest.dropWhile isNameChar ++ t := by
      rw [List.dropWhile_append, dropWhile_isNameChar h]
      split
      · rename_i hEmpty
        rw [List.isEmpty_iff.mp hEmpty, List.nil_append]
      · rfl
    simp only [Option.map_some]
    rw [hName, hRest]
    split
    · rfl
    · rfl

theorem reference?_append {t : Text} (h : Severs t) (s : Text) :
    reference? (s ++ t) = (reference? s).map fun (name, rest) => (name, rest ++ t) := by
  have hCall : ∀ c ∈ t.head?, c ∉ "var(".toList := by
    intro c hc hMem
    obtain ⟨hName, hOpen⟩ := h.head c hc
    have hAll : "var(".toList.all (fun d => isNameChar d || d = '(') = true := by decide
    have hChar := List.all_eq_true.mp hAll c hMem
    rw [hName, Bool.false_or] at hChar
    exact hOpen (of_decide_eq_true hChar)
  rw [reference?, reference?, Text.after?_append_of_head hCall]
  cases Text.after? "var(".toList s with
  | none => rfl
  | some rest =>
    simp only [Option.map_some]
    rw [Text.trimStart, List.dropWhile_append]
    split
    · rename_i hEmpty
      have hNone := name?_append_of_head (s := []) fun c hc => (h c hc).1
      rw [List.nil_append] at hNone
      rw [Text.trimStart, List.isEmpty_iff.mp hEmpty]
      exact hNone
    · exact name?_append_of_head fun c hc => (h.head c hc).1

theorem references_some {s name rest : Text} (h : reference? s = some (name, rest)) :
    references s = name :: references rest := by
  cases s with
  | nil => cases h
  | cons c s =>
    rw [references]
    split
    · rename_i hRead
      rw [h] at hRead
      cases hRead
      rfl
    · rename_i hRead
      rw [h] at hRead
      cases hRead

theorem references_none {c : Char} {s : Text} (h : reference? (c :: s) = none) :
    references (c :: s) = references s := by
  rw [references]
  split
  · rename_i hRead
    rw [h] at hRead
    cases hRead
  · rfl

theorem references_append {t : Text} (h : Severs t) (s : Text) :
    references (s ++ t) = references s ++ references t := by
  fun_induction references s with
  | case1 => rfl
  | case2 c s name rest hRead ih =>
    have hJoined := reference?_append h (c :: s)
    rw [hRead, Option.map_some] at hJoined
    rw [references_some hJoined, ih, List.cons_append]
  | case3 c s hNone ih =>
    have hJoined := reference?_append h (c :: s)
    rw [hNone, Option.map_none, List.cons_append] at hJoined
    rw [List.cons_append, references_none hJoined, ih]

theorem references_append_of_not_mem {s : Text} (h : 'v' ∉ s) (t : Text) :
    references (s ++ t) = references t := by
  induction s with
  | nil => rfl
  | cons c s ih =>
    rw [List.mem_cons, not_or] at h
    have hNone : reference? (c :: (s ++ t)) = none := by
      have hCall : "var(".toList = ['v', 'a', 'r', '('] := by decide
      rw [reference?, hCall, Text.after?, if_neg h.1]
    rw [List.cons_append, references_none hNone, ih h.2]

theorem references_eq_nil_of_not_mem {s : Text} (h : '(' ∉ s) : references s = [] := by
  induction s with
  | nil => rw [references]
  | cons c s ih =>
    have hNone : reference? (c :: s) = none := by
      rw [reference?]
      split
      · rfl
      · rename_i rest hAfter
        rw [Text.append_of_after? hAfter] at h
        exact absurd (List.mem_append_left rest (by decide)) h
    rw [references_none hNone]
    exact ih fun hMem => h (List.mem_cons_of_mem c hMem)

theorem references_trim (s : Text) : references (Text.trim s) = references s := by
  have hBlank {blank : Text} (h : blank.all isBlank = true) {c : Char} (hc : isBlank c = false) :
      c ∉ blank := by
    intro hMem
    rw [List.all_eq_true.mp h c hMem] at hc
    cases hc
  obtain ⟨tail, hTail, hEnd⟩ := Text.exists_trimEnd_append (Text.trimStart s)
  have hLead := Text.leadingBlank_append_trimStart s
  calc references (Text.trim s)
      = references (Text.trim s) ++ references tail := by
        rw [references_eq_nil_of_not_mem (hBlank hTail (by decide)), List.append_nil]
    _ = references (Text.trimStart s) := by
        rw [← references_append (severs_blank hTail), Text.trim, ← hEnd]
    _ = references s := by
        conv_rhs => rw [← hLead]
        rw [references_append_of_not_mem (hBlank (Text.all_leadingBlank s) (by decide))]

end RootBlock

end DesignParams
