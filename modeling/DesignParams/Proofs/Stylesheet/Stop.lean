import DesignParams.Stylesheet.Token
import Mathlib.Data.List.Basic

/-!
# Stops

A colon, a semicolon and a closing brace belong to no token that begins before them and ends where
they stand. So a token that ends at such a stop, or in front of it, is the same whatever follows
the stop. Each reader of a token has a lemma that says so.
-/
set_option autoImplicit false

namespace DesignParams

namespace Token

/-- The characters that only strings, comments, addresses and escapes run past. -/
def IsStop (x : Char) : Prop :=
  x = ':' ∨ x = ';' ∨ x = '\x7D'

section

variable {x : Char}

theorem IsStop.isSpace (h : IsStop x) : isSpace x = false := by
  rcases h with rfl | rfl | rfl <;> decide

theorem IsStop.isNewline (h : IsStop x) : isNewline x = false := by
  rcases h with rfl | rfl | rfl <;> decide

theorem IsStop.isAsciiDigit (h : IsStop x) : isAsciiDigit x = false := by
  rcases h with rfl | rfl | rfl <;> decide

theorem IsStop.isHexDigit (h : IsStop x) : isHexDigit x = false := by
  rcases h with rfl | rfl | rfl <;> decide

theorem IsStop.isNameStart (h : IsStop x) : isNameStart x = false := by
  rcases h with rfl | rfl | rfl <;> decide

theorem IsStop.isNameChar (h : IsStop x) : isNameChar x = false := by
  rcases h with rfl | rfl | rfl <;> decide

theorem IsStop.isBadInAddress (h : IsStop x) : isBadInAddress x = false := by
  rcases h with rfl | rfl | rfl <;> decide

theorem IsStop.ne (h : IsStop x) :
    x ≠ '\\' ∧ x ≠ '-' ∧ x ≠ '*' ∧ x ≠ '/' ∧ x ≠ '(' ∧ x ≠ ')' ∧ x ≠ '"' ∧ x ≠ '\'' ∧ x ≠ '.' ∧
      x ≠ '%' ∧ x ≠ '\n' ∧ x ≠ '\x00' ∧ x ≠ '+' := by
  rcases h with rfl | rfl | rfl <;> decide

end

theorem newlineLength_cons (c : Char) (s : Text) :
    newlineLength (c :: s) =
      if c = '\r' ∧ s.head? = some '\n' then 2 else if isNewline c then 1 else 0 := by
  split
  · rename_i h
    obtain ⟨rfl, h⟩ := h
    obtain ⟨t, rfl⟩ := List.head?_eq_some_iff.mp h
    rfl
  · rename_i h
    rw [newlineLength.eq_2]
    rintro tail rfl rfl
    exact h ⟨rfl, rfl⟩

theorem startsName_cons (c : Char) (s : Text) :
    startsName (c :: s) =
      if c = '-' then s.head?.any fun d => isNameStart d || d = '-' || d = '\\'
      else if c = '\\' then !startsWithNewline s
      else isNameStart c := by
  split
  · rename_i h
    subst h
    cases s <;> rfl
  · split
    · rename_i h
      subst h
      rfl
    · rename_i hDash hSlash
      exact startsName.eq_5 c s (by simp [hDash]) (by simp [hSlash])

theorem startsNumber_cons (c : Char) (s : Text) :
    startsNumber (c :: s) = if c = '.' then startsWithDigit s else isAsciiDigit c := by
  split
  · rename_i h
    subst h
    rfl
  · rename_i h
    rw [startsNumber.eq_2 _ (by simp [h])]
    rfl

theorem newlineLength_le (s : Text) : newlineLength s ≤ s.length := by
  cases s with
  | nil => exact Nat.le_refl 0
  | cons c s =>
    rw [newlineLength_cons]
    split
    · rename_i h
      obtain ⟨t, rfl⟩ := List.head?_eq_some_iff.mp h.2
      simp
    · split <;> simp

theorem length_escape_le (s : Text) : (escape s).2 ≤ s.length := by
  cases s with
  | nil => exact Nat.le_refl 0
  | cons c s =>
    rw [escape]
    split
    · simp only
      have hTake : (((c :: s).takeWhile isHexDigit).take 6).length ≤ (c :: s).length :=
        Nat.le_trans (List.length_take_le' 6 _) (List.takeWhile_sublist isHexDigit).length_le
      generalize (((c :: s).takeWhile isHexDigit).take 6).length = digits at hTake ⊢
      have hRest := newlineLength_le ((c :: s).drop digits)
      rw [List.length_drop] at hRest
      split
      · rename_i hSpace
        cases hDrop : (c :: s).drop digits with
        | nil => simp [hDrop] at hSpace
        | cons d t =>
          have hLength := congrArg List.length hDrop
          simp only [List.length_drop, List.length_cons] at hLength ⊢
          omega
      · omega
    · simp

theorem name_escape {s : Text} (h : startsWithNewline s = false) :
    name ('\\' :: s) =
      ((escape s).1 :: (name (s.drop (escape s).2)).1,
        (name (s.drop (escape s).2)).2 + (escape s).2 + 1) := by
  rw [name, if_pos rfl, if_neg (by simp [h])]

theorem name_cons {c : Char} {s : Text} (h : isNameChar c = true) :
    name (c :: s) = ((if c = '\x00' then '\uFFFD' else c) :: (name s).1, (name s).2 + 1) := by
  have hSlash : c ≠ '\\' := by
    rintro rfl
    exact absurd h (by decide)
  rw [name, if_neg hSlash, if_pos h]

theorem name_eq_nil {c : Char} {s : Text} (h : isNameChar c = false)
    (hSlash : c = '\\' → startsWithNewline s = true) : name (c :: s) = ([], 0) := by
  rw [name]
  split
  · rename_i hc
    rw [if_pos (hSlash hc)]
  · rw [if_neg (by simp [h])]

def skipLength (s : Text) : Nat :=
  if startsWithNewline s then newlineLength s else if s.isEmpty then 0 else (escape s).2

theorem stringLength_escape {quote : Char} (hQuote : quote ≠ '\\') (s : Text) :
    stringLength quote ('\\' :: s) =
      stringLength quote (s.drop (skipLength s)) + skipLength s + 1 := by
  rw [stringLength, if_neg hQuote.symm, if_neg (by decide), if_pos rfl]
  rfl

theorem length_skipLength_le (s : Text) : skipLength s ≤ s.length := by
  rw [skipLength]
  split
  · exact newlineLength_le s
  · split
    · exact Nat.zero_le _
    · exact length_escape_le s

theorem commentLength_cons (c : Char) (s : Text) :
    commentLength (c :: s) =
      if c = '*' ∧ s.head?.any (· = '/') then 2 else commentLength s + 1 := by
  split
  · rename_i h
    obtain ⟨rfl, h⟩ := h
    cases s with
    | nil => cases h
    | cons d s =>
      obtain rfl : d = '/' := of_decide_eq_true h
      rfl
  · rename_i h
    rw [commentLength.eq_3]
    rintro tail rfl rfl
    exact h ⟨rfl, rfl⟩

theorem badAddressLength_cons (c : Char) (s : Text) :
    badAddressLength (c :: s) =
      if c = ')' then 1
      else if c = '\\' ∧ s.head?.any (fun d => d = ')' ∨ d = '\\') then badAddressLength s.tail + 2
      else badAddressLength s + 1 := by
  split
  · rename_i h
    subst h
    rfl
  · split
    · rename_i h
      obtain ⟨rfl, h⟩ := h
      cases s with
      | nil => cases h
      | cons d s =>
        rcases of_decide_eq_true h with rfl | rfl <;> rfl
    · rename_i hClose hSkip
      rw [badAddressLength.eq_5 c s (by simp [hClose])]
      · rintro tail rfl rfl
        exact hSkip ⟨rfl, rfl⟩
      · rintro tail rfl rfl
        exact hSkip ⟨rfl, rfl⟩

theorem digitsLength_le (s : Text) : digitsLength s ≤ s.length :=
  (List.takeWhile_sublist isAsciiDigit).length_le

theorem fractionLength_le (s : Text) : fractionLength s ≤ s.length := by
  cases s with
  | nil => exact Nat.le_refl 0
  | cons c s =>
    by_cases hc : c = '.'
    · subst hc
      have hDigits := digitsLength_le s
      rw [fractionLength, List.length_cons]
      split <;> omega
    · rw [fractionLength.eq_2 _ (by simp [hc])]
      exact Nat.zero_le _

theorem exponentLength_le (s : Text) : exponentLength s ≤ s.length := by
  match s with
  | [] => exact Nat.le_refl 0
  | [e] => simp [exponentLength]
  | e :: c :: t =>
    have hDigits := digitsLength_le (c :: t)
    have hSigned := digitsLength_le t
    simp only [exponentLength, List.length_cons] at hDigits ⊢
    split
    · split
      · omega
      · split <;> omega
    · omega

theorem named_eq (s : Text) :
    named s =
      if (s.drop (name s).2).head?.any (· = '(') then
        if Text.eqIgnoringCase (name s).1 "url".toList then
          match addressLength? (s.drop (name s).2).tail with
          | some inner => (.other, (name s).2 + 1 + inner)
          | none => (.opener .round, (name s).2 + 1)
        else (.opener .round, (name s).2 + 1)
      else (.ident (name s).1, (name s).2) := by
  rw [named]
  simp only
  cases s.drop (name s).2 with
  | nil => rfl
  | cons c t =>
    by_cases hc : c = '('
    · subst hc
      rfl
    · simp [hc]

/-! ## The first token, by its first character -/

theorem first_quote {quote : Char} (hQuote : quote = '"' ∨ quote = '\'') (s : Text) :
    first quote s = (.other, stringLength quote s + 1) := by
  rcases hQuote with rfl | rfl <;> rfl

theorem first_hash (s : Text) :
    first '#' s =
      if startsName s ∨ startsWithDigit s ∨ s.head? = some '-' then (.other, (name s).2 + 1)
      else (.other, 1) :=
  rfl

theorem first_plus (s : Text) :
    first '+' s = if startsNumber s then (.other, numberLength s + 1) else (.other, 1) :=
  rfl

theorem first_dash (s : Text) :
    first '-' s =
      if startsNumber s then (.other, numberLength s + 1)
      else if Text.startsWith s ['-', '>'] then (.marker, 3)
      else if startsName ('-' :: s) then named ('-' :: s)
      else (.other, 1) :=
  rfl

theorem first_comment (s : Text) : first '/' ('*' :: s) = (.comment, commentLength s + 2) :=
  rfl

theorem first_slash {d : Char} (hd : d ≠ '*') (s : Text) : first '/' (d :: s) = (.other, 1) := by
  have hNumber : startsNumber ('/' :: d :: s) = false := rfl
  simp [first, hNumber, hd, isSpace, isNewline]

theorem first_at (s : Text) :
    first '@' s = if startsName s then (.atKeyword (name s).1, (name s).2 + 1) else (.other, 1) :=
  rfl

/-! ## In front of a stop -/

/-- Two readings that test the same condition agree when each branch agrees as long as it stays
within the bound. -/
theorem ite_eq_of_le {α : Type} (length : α → Nat) {p : Prop} [Decidable p] {a a' b b' : α} {n : Nat}
    (h : length (if p then a else b) ≤ n) (hThen : p → length a ≤ n → a' = a)
    (hElse : ¬ p → length b ≤ n → b' = b) : (if p then a' else b') = if p then a else b := by
  by_cases hp : p
  · rw [if_pos hp] at h
    rw [if_pos hp, if_pos hp, hThen hp h]
  · rw [if_neg hp] at h
    rw [if_neg hp, if_neg hp, hElse hp h]

section

variable {x : Char}

theorem takeWhile_stop {p : Char → Bool} (hp : p x = false) (s r : Text) :
    (s ++ x :: r).takeWhile p = s.takeWhile p := by
  induction s with
  | nil => simp [hp]
  | cons c s ih => simp only [List.cons_append, List.takeWhile_cons, ih]

theorem dropWhile_stop {p : Char → Bool} (hp : p x = false) (s r : Text) :
    (s ++ x :: r).dropWhile p = s.dropWhile p ++ x :: r := by
  induction s with
  | nil => simp [hp]
  | cons c s ih =>
    simp only [List.cons_append, List.dropWhile_cons]
    split
    · exact ih
    · rfl

theorem head?_any_stop {p : Char → Bool} (hp : p x = false) (s r : Text) :
    (s ++ x :: r).head?.any p = s.head?.any p := by
  cases s with
  | nil => simpa using hp
  | cons c s => rfl

theorem startsWith_stop {lead : Text} (hLead : x ∉ lead) (s r : Text) :
    Text.startsWith (s ++ x :: r) lead = Text.startsWith s lead := by
  induction lead generalizing s with
  | nil => simp [Text.startsWith, Text.after?]
  | cons a lead ih =>
    rw [List.mem_cons, not_or] at hLead
    cases s with
    | nil => simp [Text.startsWith, Text.after?, Ne.symm hLead.1]
    | cons c s =>
      have hRest := ih hLead.2 s
      simp only [Text.startsWith, List.cons_append, Text.after?] at hRest ⊢
      split
      · exact hRest
      · rfl

variable (hx : IsStop x) (s r r' : Text)

include hx

theorem startsWithNewline_stop : startsWithNewline (s ++ x :: r) = startsWithNewline s :=
  head?_any_stop hx.isNewline s r

theorem startsWithDigit_stop : startsWithDigit (s ++ x :: r) = startsWithDigit s :=
  head?_any_stop hx.isAsciiDigit s r

theorem newlineLength_stop : newlineLength (s ++ x :: r) = newlineLength s := by
  cases s with
  | nil => rcases hx with rfl | rfl | rfl <;> rfl
  | cons c s =>
    rw [List.cons_append, newlineLength_cons, newlineLength_cons]
    cases s with
    | nil => rcases hx with rfl | rfl | rfl <;> simp
    | cons d s => rfl

theorem escape_stop (hs : s ≠ []) : escape (s ++ x :: r) = escape s := by
  cases s with
  | nil => exact absurd rfl hs
  | cons c s =>
    have hDigits := takeWhile_stop hx.isHexDigit (c :: s) r
    rw [List.cons_append] at hDigits
    simp only [List.cons_append, escape, hDigits]
    split
    · have hLength : (((c :: s).takeWhile isHexDigit).take 6).length ≤ (c :: s).length :=
        Nat.le_trans (List.length_take_le' 6 _) (List.takeWhile_sublist isHexDigit).length_le
      have hDrop : (c :: s ++ x :: r).drop (((c :: s).takeWhile isHexDigit).take 6).length =
          (c :: s).drop (((c :: s).takeWhile isHexDigit).take 6).length ++ x :: r :=
        List.drop_append_of_le_length hLength
      rw [List.cons_append] at hDrop
      rw [hDrop, newlineLength_stop hx]
      cases ((c :: s).drop (((c :: s).takeWhile isHexDigit).take 6).length) with
      | nil => rcases hx with rfl | rfl | rfl <;> simp [newlineLength]
      | cons d t => rfl
    · rfl

theorem startsName_stop : startsName (s ++ x :: r) = startsName s := by
  cases s with
  | nil => rcases hx with rfl | rfl | rfl <;> rfl
  | cons c s =>
    have hDash : (fun d => isNameStart d || d = '-' || d = '\\') x = false := by
      simp [hx.isNameStart, hx.ne]
    rw [List.cons_append, startsName_cons, startsName_cons, startsWithNewline_stop hx,
      head?_any_stop hDash]

theorem startsNumber_stop : startsNumber (s ++ x :: r) = startsNumber s := by
  cases s with
  | nil => rcases hx with rfl | rfl | rfl <;> rfl
  | cons c s =>
    rw [List.cons_append, startsNumber_cons, startsNumber_cons, startsWithDigit_stop hx]

/-! ## Lengths -/

theorem digitsLength_stop : digitsLength (s ++ x :: r) = digitsLength s := by
  rw [digitsLength, digitsLength, takeWhile_stop hx.isAsciiDigit]

theorem fractionLength_stop : fractionLength (s ++ x :: r) = fractionLength s := by
  cases s with
  | nil => rcases hx with rfl | rfl | rfl <;> rfl
  | cons c s =>
    by_cases hc : c = '.'
    · subst hc
      rw [List.cons_append, fractionLength, fractionLength, startsWithDigit_stop hx,
        digitsLength_stop hx]
    · rw [List.cons_append, fractionLength.eq_2 _ (by simp [hc]), fractionLength.eq_2 _ (by simp [hc])]

theorem exponentLength_stop : exponentLength (s ++ x :: r) = exponentLength s := by
  match s with
  | [] => rcases hx with rfl | rfl | rfl <;> rfl
  | [e] => rcases hx with rfl | rfl | rfl <;> simp [exponentLength, isAsciiDigit]
  | e :: c :: t =>
    have hDigits := digitsLength_stop hx (c :: t) r
    rw [List.cons_append] at hDigits
    simp only [List.cons_append, exponentLength, hDigits, startsWithDigit_stop hx,
      digitsLength_stop hx]

theorem drop_escape_stop (hs : s ≠ []) :
    (s ++ x :: r).drop (escape (s ++ x :: r)).2 = s.drop (escape s).2 ++ x :: r := by
  rw [escape_stop hx s r hs]
  exact List.drop_append_of_le_length (length_escape_le s)

theorem escape_of_stop : (escape (x :: r)).2 = 1 := by
  rw [escape, if_neg (by simp [hx.isHexDigit])]

theorem skipLength_stop (hs : s ≠ []) : skipLength (s ++ x :: r) = skipLength s := by
  rw [skipLength, skipLength, startsWithNewline_stop hx, newlineLength_stop hx, escape_stop hx s r hs]
  simp [hs]

theorem drop_skipLength_stop (hs : s ≠ []) :
    (s ++ x :: r).drop (skipLength (s ++ x :: r)) = s.drop (skipLength s) ++ x :: r := by
  rw [skipLength_stop hx s r hs]
  exact List.drop_append_of_le_length (length_skipLength_le s)

theorem skipLength_of_stop : skipLength (x :: r) = 1 := by
  have hNewline : startsWithNewline (x :: r) = false := by simp [startsWithNewline, hx.isNewline]
  rw [skipLength, hNewline, escape_of_stop hx]
  rfl

theorem name_stop (h : (name (s ++ x :: r)).2 ≤ s.length) :
    name (s ++ x :: r') = name (s ++ x :: r) := by
  induction hn : s.length using Nat.strongRecOn generalizing s with
  | ind n ih =>
    subst hn
    cases s with
    | nil =>
      have hNone (t : Text) : name (x :: t) = ([], 0) :=
        name_eq_nil hx.isNameChar (fun hSlash => absurd hSlash hx.ne.1)
      rw [List.nil_append, List.nil_append, hNone, hNone]
    | cons c s =>
      rw [List.cons_append] at h
      rw [List.cons_append, List.cons_append]
      by_cases hName : isNameChar c = true
      · rw [name_cons hName, List.length_cons] at h
        rw [name_cons hName, name_cons hName, ih s.length (by simp) s (by omega) rfl]
      · rw [Bool.not_eq_true] at hName
        by_cases hSlash : c = '\\' ∧ startsWithNewline s = false
        · obtain ⟨rfl, hNewline⟩ := hSlash
          have hNewline' (t : Text) : startsWithNewline (s ++ x :: t) = false := by
            rw [startsWithNewline_stop hx, hNewline]
          rw [name_escape (hNewline' r), List.length_cons] at h
          rw [name_escape (hNewline' r), name_escape (hNewline' r')]
          by_cases hs : s = []
          · subst hs
            rw [List.nil_append, escape_of_stop hx] at h
            simp only [List.length_nil] at h
            omega
          · rw [drop_escape_stop hx s r hs, escape_stop hx s r hs] at h
            rw [drop_escape_stop hx s r hs, drop_escape_stop hx s r' hs, escape_stop hx s r hs,
              escape_stop hx s r' hs]
            have hShorter := length_escape_le s
            rw [ih _ (by simp only [List.length_drop, List.length_cons]; omega) (s.drop (escape s).2)
              (by rw [List.length_drop]; omega) rfl]
        · have hNone (t : Text) : name (c :: (s ++ x :: t)) = ([], 0) := by
            apply name_eq_nil hName
            intro hc
            rw [startsWithNewline_stop hx, ← Bool.not_eq_false]
            exact fun hNewline => hSlash ⟨hc, hNewline⟩
          rw [hNone, hNone]

theorem stringLength_stop {quote : Char} (hQuote : x ≠ quote ∧ quote ≠ '\\')
    (h : stringLength quote (s ++ x :: r) ≤ s.length) :
    stringLength quote (s ++ x :: r') = stringLength quote (s ++ x :: r) := by
  induction hn : s.length using Nat.strongRecOn generalizing s with
  | ind n ih =>
    subst hn
    cases s with
    | nil =>
      rw [List.nil_append, stringLength, if_neg hQuote.1, if_neg (by simp [hx.isNewline]),
        if_neg hx.ne.1] at h
      simp at h
    | cons c s =>
      rw [List.cons_append] at h
      rw [List.cons_append, List.cons_append]
      by_cases hSlash : c = '\\'
      · subst hSlash
        rw [stringLength_escape hQuote.2, List.length_cons] at h
        rw [stringLength_escape hQuote.2, stringLength_escape hQuote.2]
        by_cases hs : s = []
        · subst hs
          rw [List.nil_append, skipLength_of_stop hx] at h
          simp only [List.length_nil] at h
          omega
        · rw [drop_skipLength_stop hx s r hs, skipLength_stop hx s r hs] at h
          rw [drop_skipLength_stop hx s r hs, drop_skipLength_stop hx s r' hs,
            skipLength_stop hx s r hs, skipLength_stop hx s r' hs]
          have hShorter := length_skipLength_le s
          rw [ih _ (by simp only [List.length_drop, List.length_cons]; omega) (s.drop (skipLength s))
            (by rw [List.length_drop]; omega) rfl]
      · rw [stringLength, if_neg hSlash] at h
        rw [stringLength, stringLength, if_neg hSlash, if_neg hSlash]
        refine ite_eq_of_le (·) h (fun _ _ => rfl) fun _ h =>
          ite_eq_of_le (·) h (fun _ _ => rfl) fun _ h => ?_
        rw [List.length_cons] at h
        rw [ih s.length (by simp) s (by omega) rfl]

theorem commentLength_stop (h : commentLength (s ++ x :: r) ≤ s.length) :
    commentLength (s ++ x :: r') = commentLength (s ++ x :: r) := by
  have hSlash : (fun d => decide (d = '/')) x = false := by simp [hx.ne]
  induction s with
  | nil =>
    rw [List.nil_append, commentLength_cons, if_neg (by simp [hx.ne]), List.length_nil] at h
    omega
  | cons c s ih =>
    rw [List.cons_append, commentLength_cons, head?_any_stop hSlash, List.length_cons] at h
    rw [List.cons_append, List.cons_append, commentLength_cons, commentLength_cons,
      head?_any_stop hSlash, head?_any_stop hSlash]
    refine ite_eq_of_le (·) h (fun _ _ => rfl) fun _ h => ?_
    rw [ih (by omega)]

theorem badAddressLength_stop (h : badAddressLength (s ++ x :: r) ≤ s.length) :
    badAddressLength (s ++ x :: r') = badAddressLength (s ++ x :: r) := by
  have hEnd : (fun d => decide (d = ')' ∨ d = '\\')) x = false := by simp [hx.ne]
  induction hn : s.length using Nat.strongRecOn generalizing s with
  | ind n ih =>
    subst hn
    cases s with
    | nil =>
      rw [List.nil_append, badAddressLength_cons, if_neg hx.ne.2.2.2.2.2.1,
        if_neg (by simp [hx.ne]), List.length_nil] at h
      omega
    | cons c s =>
      rw [List.cons_append, badAddressLength_cons, head?_any_stop hEnd, List.length_cons] at h
      rw [List.cons_append, List.cons_append, badAddressLength_cons, badAddressLength_cons,
        head?_any_stop hEnd, head?_any_stop hEnd]
      refine ite_eq_of_le (·) h (fun _ _ => rfl) fun _ h =>
        ite_eq_of_le (·) h (fun hSkip h => ?_) fun _ h => ?_
      · cases s with
        | nil => simp at hSkip
        | cons d s =>
          simp only [List.cons_append, List.tail_cons, List.length_cons] at h ⊢
          rw [ih s.length (by simp only [List.length_cons]; omega) s (by omega) rfl]
      · rw [ih s.length (by simp) s (by omega) rfl]

theorem addressEndLength_stop (h : addressEndLength (s ++ x :: r) ≤ s.length) :
    addressEndLength (s ++ x :: r') = addressEndLength (s ++ x :: r) := by
  induction s with
  | nil =>
    rw [List.nil_append, addressEndLength, if_neg hx.ne.2.2.2.2.2.1, if_neg (by simp [hx.isSpace]),
      List.length_nil] at h
    omega
  | cons c s ih =>
    rw [List.cons_append, addressEndLength, List.length_cons] at h
    rw [List.cons_append, List.cons_append, addressEndLength, addressEndLength]
    refine ite_eq_of_le (·) h (fun _ _ => rfl) fun _ h =>
      ite_eq_of_le (·) h (fun _ h => ?_) fun _ h => ?_
    · rw [ih (by omega)]
    · rw [badAddressLength_stop hx s r r' (by omega)]

theorem addressBodyLength_stop (h : addressBodyLength (s ++ x :: r) ≤ s.length) :
    addressBodyLength (s ++ x :: r') = addressBodyLength (s ++ x :: r) := by
  induction hn : s.length using Nat.strongRecOn generalizing s with
  | ind n ih =>
    subst hn
    cases s with
    | nil =>
      rw [List.nil_append, addressBodyLength, if_neg (by simp [hx.isSpace]),
        if_neg hx.ne.2.2.2.2.2.1, if_neg (by simp [hx.isBadInAddress]), if_neg hx.ne.1,
        List.length_nil] at h
      omega
    | cons c s =>
      rw [List.cons_append, addressBodyLength, List.length_cons, startsWithNewline_stop hx] at h
      rw [List.cons_append, List.cons_append, addressBodyLength, addressBodyLength,
        startsWithNewline_stop hx, startsWithNewline_stop hx]
      refine ite_eq_of_le (·) h (fun _ h => ?blanks) fun _ h =>
        ite_eq_of_le (·) h (fun _ _ => rfl) fun _ h =>
          ite_eq_of_le (·) h (fun _ h => ?malformed) fun _ h =>
            ite_eq_of_le (·) h (fun _ h => ite_eq_of_le (·) h (fun _ h => ?newline) fun _ h => ?escape)
              fun _ h => ?other
      case blanks => rw [addressEndLength_stop hx s r r' (by omega)]
      case malformed => rw [badAddressLength_stop hx s r r' (by omega)]
      case newline => rw [badAddressLength_stop hx s r r' (by omega)]
      case escape =>
        by_cases hs : s = []
        · subst hs
          rw [List.nil_append, escape_of_stop hx, List.length_nil] at h
          omega
        · rw [drop_escape_stop hx s r hs, escape_stop hx s r hs] at h
          rw [drop_escape_stop hx s r hs, drop_escape_stop hx s r' hs, escape_stop hx s r hs,
            escape_stop hx s r' hs]
          have hShorter := length_escape_le s
          rw [ih _ (by simp only [List.length_drop, List.length_cons]; omega)
            (s.drop (escape s).2) (by rw [List.length_drop]; omega) rfl]
      case other => rw [ih s.length (by simp) s (by omega) rfl]

theorem addressLength?_stop (h : ∀ n, addressLength? (s ++ x :: r) = some n → n ≤ s.length) :
    addressLength? (s ++ x :: r') = addressLength? (s ++ x :: r) := by
  have hSpaces := congrArg List.length (List.takeWhile_append_dropWhile (p := isSpace) (l := s))
  rw [List.length_append] at hSpaces
  simp only [addressLength?, takeWhile_stop hx.isSpace, dropWhile_stop hx.isSpace] at h ⊢
  cases hRest : s.dropWhile isSpace with
  | nil =>
    have hNone := hx.ne
    simp only [hRest, List.nil_append, hNone, or_self, if_false, Option.some.injEq,
      forall_eq', List.length_nil] at h hSpaces
    rw [addressBodyLength, if_neg (by simp [hx.isSpace]), if_neg hx.ne.2.2.2.2.2.1,
      if_neg (by simp [hx.isBadInAddress]), if_neg hx.ne.1] at h
    omega
  | cons c d =>
    simp only [List.cons_append]
    split
    · rfl
    · rename_i hQuote
      simp only [hRest, List.cons_append, if_neg hQuote, Option.some.injEq, forall_eq'] at h
      have hBody := addressBodyLength_stop hx (c :: d) r r'
        (by rw [hRest] at hSpaces; rw [List.cons_append]; omega)
      rw [List.cons_append, List.cons_append] at hBody
      rw [hBody]

theorem unitLength_stop (h : unitLength (s ++ x :: r) ≤ s.length) :
    unitLength (s ++ x :: r') = unitLength (s ++ x :: r) := by
  have hName (t : Text) (ht : t.head? ≠ some '%') :
      unitLength t = if startsName t then (name t).2 else 0 := by
    rw [unitLength.eq_2]
    rintro tail rfl
    exact ht rfl
  by_cases hs : (s ++ x :: r).head? = some '%'
  · cases s with
    | nil => exact absurd (Option.some.inj hs) hx.ne.2.2.2.2.2.2.2.2.2.1
    | cons c s =>
      obtain rfl : c = '%' := Option.some.inj hs
      rfl
  · have hs' : (s ++ x :: r').head? ≠ some '%' := by
      cases s with
      | nil => exact hs
      | cons c s => exact hs
    rw [hName _ hs] at h
    rw [hName _ hs, hName _ hs', startsName_stop hx s r, startsName_stop hx s r']
    rw [startsName_stop hx s r] at h
    refine ite_eq_of_le (·) h (fun _ h => ?_) fun _ _ => rfl
    rw [name_stop hx s r r' h]

theorem numberLength_stop (h : numberLength (s ++ x :: r) ≤ s.length) :
    numberLength (s ++ x :: r') = numberLength (s ++ x :: r) := by
  have hWhole := digitsLength_le s
  have hFraction := fractionLength_le (s.drop (digitsLength s))
  have hExponent :=
    exponentLength_le (s.drop (digitsLength s + fractionLength (s.drop (digitsLength s))))
  simp only [List.length_drop] at hFraction hExponent
  have hDrop {n : Nat} (hn : n ≤ s.length) (t : Text) : (s ++ x :: t).drop n = s.drop n ++ x :: t :=
    List.drop_append_of_le_length hn
  -- The number itself is the same text; only its unit looks at the stop.
  have hSplit (t : Text) : numberLength (s ++ x :: t) =
      let number := digitsLength s + fractionLength (s.drop (digitsLength s)) +
        exponentLength (s.drop (digitsLength s + fractionLength (s.drop (digitsLength s))))
      number + unitLength (s.drop number ++ x :: t) := by
    simp only [numberLength]
    rw [digitsLength_stop hx, hDrop (by omega), fractionLength_stop hx, hDrop (by omega),
      exponentLength_stop hx, hDrop (by omega)]
  rw [hSplit] at h
  rw [hSplit, hSplit]
  simp only at h ⊢
  rw [unitLength_stop hx _ r r' (by rw [List.length_drop]; omega)]

theorem named_stop (h : (named (s ++ x :: r)).2 ≤ s.length) :
    named (s ++ x :: r') = named (s ++ x :: r) := by
  have hOpen : (fun d => decide (d = '(')) x = false := by simp [hx.ne]
  have hLe : (name (s ++ x :: r)).2 ≤ s.length := by
    refine Nat.le_trans ?_ h
    rw [named_eq]
    split
    · split
      · split
        · exact Nat.le_trans (Nat.le_succ _) (Nat.le_add_right _ _)
        · exact Nat.le_succ _
      · exact Nat.le_succ _
    · exact Nat.le_refl _
  have hDrop (t : Text) : (s ++ x :: t).drop (name (s ++ x :: r)).2 =
      s.drop (name (s ++ x :: r)).2 ++ x :: t :=
    List.drop_append_of_le_length hLe
  rw [named_eq, hDrop, head?_any_stop hOpen] at h
  rw [named_eq, named_eq, name_stop hx s r r' hLe, hDrop, hDrop, head?_any_stop hOpen,
    head?_any_stop hOpen]
  generalize hLength : (name (s ++ x :: r)).2 = length at h hLe ⊢
  refine ite_eq_of_le Prod.snd h (fun hHead h => ite_eq_of_le Prod.snd h (fun _ h => ?_) fun _ _ => rfl)
    fun _ _ => rfl
  cases hRest : s.drop length with
  | nil =>
    rw [hRest] at hHead
    cases hHead
  | cons c t =>
    have hCount := congrArg List.length hRest
    rw [List.length_drop, List.length_cons] at hCount
    rw [hRest] at h
    simp only [List.cons_append, List.tail_cons] at h ⊢
    rw [addressLength?_stop hx t r r']
    intro n hn
    rw [hn] at h
    simp only at h
    omega

theorem head?_dash_stop : (s ++ x :: r).head? = some '-' ↔ s.head? = some '-' := by
  cases s with
  | nil => simp [hx.ne]
  | cons c s => rfl

theorem first_stop_quote {c : Char} (hQuote : c = '"' ∨ c = '\'')
    (h : (first c (s ++ x :: r)).2 ≤ s.length + 1) :
    first c (s ++ x :: r') = first c (s ++ x :: r) := by
  have hClosing : x ≠ c ∧ c ≠ '\\' := by
    rcases hQuote with rfl | rfl
    · exact ⟨hx.ne.2.2.2.2.2.2.1, by decide⟩
    · exact ⟨hx.ne.2.2.2.2.2.2.2.1, by decide⟩
  rw [first_quote hQuote] at h
  rw [first_quote hQuote, first_quote hQuote,
    stringLength_stop hx s r r' hClosing (Nat.le_of_succ_le_succ h)]

theorem first_stop_hash (h : (first '#' (s ++ x :: r)).2 ≤ s.length + 1) :
    first '#' (s ++ x :: r') = first '#' (s ++ x :: r) := by
  simp only [first_hash, startsName_stop hx, startsWithDigit_stop hx, head?_dash_stop hx] at h ⊢
  refine ite_eq_of_le Prod.snd h (fun _ h => ?_) fun _ _ => rfl
  rw [name_stop hx s r r' (Nat.le_of_succ_le_succ h)]

theorem first_stop_plus (h : (first '+' (s ++ x :: r)).2 ≤ s.length + 1) :
    first '+' (s ++ x :: r') = first '+' (s ++ x :: r) := by
  rw [first_plus, startsNumber_stop hx] at h
  rw [first_plus, first_plus, startsNumber_stop hx, startsNumber_stop hx]
  refine ite_eq_of_le Prod.snd h (fun _ h => ?_) fun _ _ => rfl
  rw [numberLength_stop hx s r r' (Nat.le_of_succ_le_succ h)]

theorem first_stop_dash (h : (first '-' (s ++ x :: r)).2 ≤ s.length + 1) :
    first '-' (s ++ x :: r') = first '-' (s ++ x :: r) := by
  have hArrow : x ∉ ['-', '>'] := by rcases hx with rfl | rfl | rfl <;> decide
  have hName (t : Text) : startsName ('-' :: (s ++ x :: t)) = startsName ('-' :: s) :=
    startsName_stop hx ('-' :: s) t
  simp only [first_dash, startsNumber_stop hx, startsWith_stop hArrow, hName] at h ⊢
  refine ite_eq_of_le Prod.snd h (fun _ h => ?_) fun _ h =>
    ite_eq_of_le Prod.snd h (fun _ _ => rfl) fun _ h =>
      ite_eq_of_le Prod.snd h (fun _ h => named_stop hx ('-' :: s) r r' h) fun _ _ => rfl
  rw [numberLength_stop hx s r r' (Nat.le_of_succ_le_succ h)]

theorem first_stop_slash (h : (first '/' (s ++ x :: r)).2 ≤ s.length + 1) :
    first '/' (s ++ x :: r') = first '/' (s ++ x :: r) := by
  cases s with
  | nil =>
    rw [List.nil_append, List.nil_append, first_slash hx.ne.2.2.1, first_slash hx.ne.2.2.1]
  | cons d s =>
    rw [List.cons_append] at h
    rw [List.cons_append, List.cons_append]
    by_cases hStar : d = '*'
    · subst hStar
      rw [first_comment] at h
      rw [first_comment, first_comment, commentLength_stop hx s r r' (Nat.le_of_succ_le_succ
        (Nat.le_of_succ_le_succ h))]
    · rw [first_slash hStar, first_slash hStar]

theorem first_stop_at (h : (first '@' (s ++ x :: r)).2 ≤ s.length + 1) :
    first '@' (s ++ x :: r') = first '@' (s ++ x :: r) := by
  simp only [first_at, startsName_stop hx] at h ⊢
  refine ite_eq_of_le Prod.snd h (fun _ h => ?_) fun _ _ => rfl
  rw [name_stop hx s r r' (Nat.le_of_succ_le_succ h)]

/-- A token that ends in front of a stop is the same whatever follows the stop. -/
theorem first_stop (c : Char) (h : (first c (s ++ x :: r)).2 ≤ s.length + 1) :
    first c (s ++ x :: r') = first c (s ++ x :: r) := by
  by_cases hQuote : c = '"' ∨ c = '\''
  · exact first_stop_quote hx s r r' hQuote h
  by_cases hHash : c = '#'
  · subst hHash
    exact first_stop_hash hx s r r' h
  by_cases hPlus : c = '+'
  · subst hPlus
    exact first_stop_plus hx s r r' h
  by_cases hDash : c = '-'
  · subst hDash
    exact first_stop_dash hx s r r' h
  by_cases hSlash : c = '/'
  · subst hSlash
    exact first_stop_slash hx s r r' h
  by_cases hAt : c = '@'
  · subst hAt
    exact first_stop_at hx s r r' h
  by_cases hBracket : c = '(' ∨ c = ')' ∨ c = '[' ∨ c = ']' ∨ c = '\x7B' ∨ c = '\x7D' ∨ c = ':' ∨ c = ';'
  · rcases hBracket with rfl | rfl | rfl | rfl | rfl | rfl | rfl | rfl <;> rfl
  simp only [not_or] at hBracket
  have hNumber (t : Text) : startsNumber (c :: (s ++ x :: t)) = startsNumber (c :: s) :=
    startsNumber_stop hx (c :: s) t
  have hName (t : Text) : startsName (c :: (s ++ x :: t)) = startsName (c :: s) :=
    startsName_stop hx (c :: s) t
  have hMarker : x ∉ ['!', '-', '-'] := by rcases hx with rfl | rfl | rfl <;> decide
  -- White space, a number, the start of a marker or a name is left.
  simp only [first, takeWhile_stop hx.isSpace, hNumber, hName, startsWith_stop hMarker, hQuote,
    hHash, hPlus, hDash, hSlash, hAt, hBracket, ↓reduceIte] at h ⊢
  refine ite_eq_of_le Prod.snd h (fun _ _ => rfl) fun _ h =>
    ite_eq_of_le Prod.snd h (fun _ h => ?_) fun _ h =>
      ite_eq_of_le Prod.snd h (fun _ _ => rfl) fun _ h =>
        ite_eq_of_le Prod.snd h (fun _ h => named_stop hx (c :: s) r r' h) fun _ _ => rfl
  have hDigits : numberLength (c :: (s ++ x :: r')) = numberLength (c :: (s ++ x :: r)) :=
    numberLength_stop hx (c :: s) r r' h
  rw [hDigits]

end

end Token

end DesignParams
