import DesignParams.Proofs.Theme.Closed
import Mathlib.Data.List.Chain

/-!
# Reading parts of a script

What stands behind a character of code is read as if the script began there, and what stands before
it as if the script ended there. A comment can give way to a space, and the rest is read as before.
-/
set_option autoImplicit false

namespace DesignParams

namespace Marked

theorem toText_append (front back : List Marked) :
    toText (front ++ back) = toText front ++ toText back :=
  List.map_append

theorem toText_cons (m : Marked) (rest : List Marked) :
    toText (m :: rest) = m.char :: toText rest :=
  rfl

theorem scan_code_cons {c : Char} (hQuote : isQuote c = false) {s : Text}
    (hComment : c = '/' → s.head? ≠ some '/' ∧ s.head? ≠ some '*') :
    scan .code (c :: s) = ⟨c, .code⟩ :: scan .code s := by
  rw [scan.eq_def]
  split <;> simp_all

theorem scan_code_quote {c : Char} (hQuote : isQuote c = true) (s : Text) :
    scan .code (c :: s) = ⟨c, .string⟩ :: scan (.inString c) s := by
  have hSlash : c ≠ '/' := by
    rintro rfl
    exact absurd hQuote (by decide)
  rw [scan.eq_def]
  split <;> simp_all

theorem scan_inBlock_cons {c : Char} {s : Text} (hClose : c = '*' → s.head? ≠ some '/') :
    scan .inBlock (c :: s) = ⟨c, .comment⟩ :: scan .inBlock s := by
  rw [scan.eq_def]
  split <;> simp_all

/-- A split at a mark that is no code takes along the marks that are read together with it. -/
theorem exists_cons_of_append_code {a m : Marked} {rest front back : List Marked}
    (ha : a.cls ≠ .code) (hm : m.cls = .code) (h : a :: rest = front ++ m :: back) :
    ∃ front', front = a :: front' ∧ rest = front' ++ m :: back := by
  cases front with
  | nil =>
    obtain ⟨rfl, -⟩ := List.cons.inj h
    exact absurd hm ha
  | cons b front =>
    obtain ⟨rfl, hRest⟩ := List.cons.inj h
    exact ⟨front, rfl, hRest⟩

theorem exists_cons_of_head? {state : State} {s : Text} {front back : List Marked} {c : Char}
    (h : scan state s = front ++ back) (hHead : (toText front).head? = some c) :
    ∃ rest, s = c :: rest := by
  obtain ⟨rest, hRest⟩ := List.head?_eq_some_iff.mp hHead
  refine ⟨rest ++ toText back, ?_⟩
  rw [← toText_scan state s, h, toText_append, hRest, List.cons_append]

/-- What stands before and behind a character of code can be read alone. -/
theorem scan_of_append_code {state : State} {s : Text} {front back : List Marked} {m : Marked}
    (hm : m.cls = .code) (h : scan state s = front ++ m :: back) :
    scan state (toText front) = front ∧ ofText (toText back) = back := by
  fun_induction scan state s generalizing front with
  | case1 => simp at h
  -- Two characters are read at once at both ends of a comment.
  | case2 s ih | case3 s ih | case9 s ih =>
    obtain ⟨rest, rfl, hFirst⟩ := exists_cons_of_append_code (by simp) hm h
    obtain ⟨rest, rfl, hSecond⟩ := exists_cons_of_append_code (by simp) hm hFirst
    obtain ⟨hFront, hBack⟩ := ih hSecond
    exact ⟨by rw [toText_cons, toText_cons, scan, hFront], hBack⟩
  | case4 c s hLine hBlock hQuote ih =>
    obtain ⟨rest, rfl, hRest⟩ := exists_cons_of_append_code (by simp) hm h
    obtain ⟨hFront, hBack⟩ := ih hRest
    exact ⟨(scan_code_quote hQuote _).trans (congrArg _ hFront), hBack⟩
  | case5 c s hLine hBlock hQuote ih =>
    cases front with
    | nil =>
      obtain ⟨rfl, rfl⟩ := List.cons.inj h
      exact ⟨rfl, by rw [toText_scan]; rfl⟩
    | cons a rest =>
      obtain ⟨rfl, hRest⟩ := List.cons.inj h
      obtain ⟨hFront, hBack⟩ := ih hRest
      refine ⟨(scan_code_cons (by simpa using hQuote) fun hSlash => ⟨fun hHead => ?_,
        fun hHead => ?_⟩).trans (congrArg _ hFront), hBack⟩
      · obtain ⟨t, ht⟩ := exists_cons_of_head? hRest hHead
        exact hLine t hSlash ht
      · obtain ⟨t, ht⟩ := exists_cons_of_head? hRest hHead
        exact hBlock t hSlash ht
  | case6 quote c s next =>
    rename_i ih
    obtain ⟨rest, rfl, hRest⟩ := exists_cons_of_append_code (by simp) hm h
    obtain ⟨hFront, hBack⟩ := ih hRest
    exact ⟨by rw [toText_cons, scan, hFront], hBack⟩
  | case7 quote c s ih | case8 c s ih =>
    obtain ⟨rest, rfl, hRest⟩ := exists_cons_of_append_code (by simp) hm h
    obtain ⟨hFront, hBack⟩ := ih hRest
    exact ⟨by rw [toText_cons, scan, hFront], hBack⟩
  | case10 c s hClose ih =>
    obtain ⟨rest, rfl, hRest⟩ := exists_cons_of_append_code (by simp) hm h
    obtain ⟨hFront, hBack⟩ := ih hRest
    refine ⟨(scan_inBlock_cons fun hStar hHead => ?_).trans (congrArg _ hFront), hBack⟩
    obtain ⟨t, ht⟩ := exists_cons_of_head? hRest hHead
    exact hClose t hStar ht

/-! ## Reading on -/

/-- Does a text begin with no character that a slash before it could take for a comment? -/
def IsApart (t : Text) : Prop :=
  t.head? ≠ some '/' ∧ t.head? ≠ some '*'

theorem head?_append_of_isApart {s t : Text} {c : Char} (ht : IsApart t) (hc : c = '/' ∨ c = '*')
    (hs : s.head? ≠ some c) : (s ++ t).head? ≠ some c := by
  cases s with
  | nil =>
    rcases hc with rfl | rfl
    · exact ht.1
    · exact ht.2
  | cons d s => exact hs

/-- Is the string of a state, if it is in one, begun by a quote? -/
def State.IsQuoted : State → Prop
  | .inString quote | .escaped quote => isQuote quote = true
  | .code | .inLine | .inBlock => True

/-- A text is read to a state from which what follows it is read. -/
theorem exists_scan_append (state : State) (hState : state.IsQuoted) (s : Text) :
    ∃ next : State, next.IsQuoted ∧
      ∀ t, IsApart t → scan state (s ++ t) = scan state s ++ scan next t := by
  fun_induction scan state s with
  | case1 state => exact ⟨state, hState, fun t _ => rfl⟩
  | case2 s ih | case3 s ih | case9 s ih =>
    obtain ⟨next, hQuoted, hNext⟩ := ih trivial
    exact ⟨next, hQuoted, fun t ht => by simp only [List.cons_append, scan, hNext t ht]⟩
  | case4 c s hLine hBlock hQuote ih =>
    obtain ⟨next, hQuoted, hNext⟩ := ih hQuote
    exact ⟨next, hQuoted, fun t ht => (scan_code_quote hQuote _).trans (congrArg _ (hNext t ht))⟩
  | case5 c s hLine hBlock hQuote ih =>
    obtain ⟨next, hQuoted, hNext⟩ := ih trivial
    refine ⟨next, hQuoted, fun t ht => (scan_code_cons (by simpa using hQuote) fun hSlash =>
      ?_).trans (congrArg _ (hNext t ht))⟩
    refine ⟨head?_append_of_isApart ht (.inl rfl) fun hHead => ?_,
      head?_append_of_isApart ht (.inr rfl) fun hHead => ?_⟩
    · obtain ⟨rest, hRest⟩ := List.head?_eq_some_iff.mp hHead
      exact hLine rest hSlash hRest
    · obtain ⟨rest, hRest⟩ := List.head?_eq_some_iff.mp hHead
      exact hBlock rest hSlash hRest
  | case6 quote c s after =>
    rename_i ih
    have hAfter : after.IsQuoted := by
      simp only [after]
      split
      · exact hState
      · split
        · trivial
        · exact hState
    obtain ⟨next, hQuoted, hNext⟩ := ih hAfter
    exact ⟨next, hQuoted, fun t ht => by rw [List.cons_append, scan, hNext t ht]; rfl⟩
  | case7 quote c s ih =>
    obtain ⟨next, hQuoted, hNext⟩ := ih hState
    exact ⟨next, hQuoted, fun t ht => by rw [List.cons_append, scan, hNext t ht]; rfl⟩
  | case8 c s ih =>
    have hAfter : (if c = '\n' then State.code else .inLine).IsQuoted := by split <;> trivial
    obtain ⟨next, hQuoted, hNext⟩ := ih hAfter
    exact ⟨next, hQuoted, fun t ht => by rw [List.cons_append, scan, hNext t ht]; rfl⟩
  | case10 c s hClose ih =>
    obtain ⟨next, hQuoted, hNext⟩ := ih trivial
    refine ⟨next, hQuoted, fun t ht => (scan_inBlock_cons fun hStar => ?_).trans
      (congrArg _ (hNext t ht))⟩
    refine head?_append_of_isApart ht (.inl rfl) fun hHead => ?_
    obtain ⟨rest, hRest⟩ := List.head?_eq_some_iff.mp hHead
    exact hClose rest hStar hRest

/-! ## Comments that give way to a space -/

open Theme (blankComments)

section Blanked

variable {m : Marked} {rest : List Marked}

theorem blankComments_of_comment (h : m.cls = .comment) (inComment : Bool) :
    blankComments inComment (m :: rest) =
      if inComment then blankComments true rest else ⟨' ', .code⟩ :: blankComments true rest := by
  rw [blankComments, if_pos h]

theorem blankComments_of_not_comment (h : m.cls ≠ .comment) (inComment : Bool) :
    blankComments inComment (m :: rest) = m :: blankComments false rest := by
  rw [blankComments, if_neg h]

theorem not_comment_of_mem_blankComments {marks : List Marked} {inComment : Bool}
    (h : m ∈ blankComments inComment marks) : m.cls ≠ .comment := by
  induction marks generalizing inComment with
  | nil => cases h
  | cons a marks ih =>
    rw [blankComments] at h
    split at h
    · split at h
      · exact ih h
      · rcases List.mem_cons.mp h with rfl | h
        · simp
        · exact ih h
    · rcases List.mem_cons.mp h with rfl | h
      · assumption
      · exact ih h

theorem head?_toText_blankComments {state : State} {s : Text} {c : Char}
    (h : (toText (blankComments false (scan state s))).head? = some c) :
    c = ' ' ∨ ∃ rest, s = c :: rest := by
  cases hMarks : scan state s with
  | nil =>
    rw [hMarks] at h
    cases h
  | cons a marks =>
    rw [hMarks] at h
    by_cases hComment : a.cls = .comment
    · rw [blankComments_of_comment hComment] at h
      exact .inl (Option.some.inj h).symm
    · rw [blankComments_of_not_comment hComment] at h
      have hAll : scan state s = [a] ++ marks := hMarks
      exact .inr (exists_cons_of_head? hAll h)

/-- The state in which a text goes on to be read whose comments gave way to a space. -/
def State.resumed : State → State
  | .code | .inLine | .inBlock => .code
  | .inString quote => .inString quote
  | .escaped quote => .escaped quote

theorem scan_blanked_comment (hComment : m.cls = .comment)
    (h : scan .code (toText (blankComments true rest)) = blankComments true rest)
    (inComment : Bool) :
    scan .code (toText (blankComments inComment (m :: rest))) =
      blankComments inComment (m :: rest) := by
  rw [blankComments_of_comment hComment]
  split
  · exact h
  · rw [toText_cons, scan_code_cons (by decide) (by simp), h]

/-- A text whose comments gave way to a space is read as it was, with the space for code. -/
theorem scan_toText_blankComments (state : State) (s : Text) (inComment : Bool) :
    scan state.resumed (toText (blankComments inComment (scan state s))) =
      blankComments inComment (scan state s) := by
  fun_induction scan state s generalizing inComment with
  | case1 state => cases state <;> rfl
  | case2 s ih | case3 s ih | case9 s ih =>
    exact scan_blanked_comment rfl (scan_blanked_comment rfl (ih true) true) inComment
  | case4 c s hLine hBlock hQuote ih =>
    rw [blankComments_of_not_comment (by simp), toText_cons]
    exact (scan_code_quote hQuote _).trans (congrArg _ (ih false))
  | case5 c s hLine hBlock hQuote ih =>
    rw [blankComments_of_not_comment (by simp), toText_cons]
    refine (scan_code_cons (by simpa using hQuote) fun hSlash => ⟨fun hHead => ?_,
      fun hHead => ?_⟩).trans (congrArg _ (ih false))
    · obtain hSpace | ⟨t, ht⟩ := head?_toText_blankComments hHead
      · cases hSpace
      · exact hLine t hSlash ht
    · obtain hSpace | ⟨t, ht⟩ := head?_toText_blankComments hHead
      · cases hSpace
      · exact hBlock t hSlash ht
  | case6 quote c s next =>
    rename_i ih
    have hNext : next.resumed = next := by
      simp only [next]
      split
      · rfl
      · split <;> rfl
    rw [hNext] at ih
    rw [blankComments_of_not_comment (by simp), toText_cons, State.resumed, scan]
    exact congrArg _ (ih false)
  | case7 quote c s ih =>
    rw [blankComments_of_not_comment (by simp), toText_cons, State.resumed, scan]
    exact congrArg _ (ih false)
  | case8 c s ih =>
    have hNext : (if c = '\n' then State.code else .inLine).resumed = .code := by split <;> rfl
    rw [hNext] at ih
    exact scan_blanked_comment rfl (ih true) inComment
  | case10 c s hClose ih => exact scan_blanked_comment rfl (ih true) inComment

end Blanked

/-! ## Where comments end -/

/-- Does a comment that ends here end in a slash or a line feed? -/
def EndsComment (m next : Marked) : Prop :=
  m.cls = .comment → next.cls ≠ .comment → m.char = '/' ∨ m.char = '\n'

theorem comment_of_head?_inLine {s : Text} {m : Marked} (h : m ∈ (scan .inLine s).head?) :
    m.cls = .comment := by
  cases s with
  | nil => cases h
  | cons c s =>
    rw [scan] at h
    obtain rfl := Option.some.inj h
    rfl

theorem comment_of_head?_inBlock {s : Text} {m : Marked} (h : m ∈ (scan .inBlock s).head?) :
    m.cls = .comment := by
  cases s with
  | nil => cases h
  | cons c s =>
    by_cases hClose : c = '*' ∧ s.head? = some '/'
    · obtain ⟨rfl, hSlash⟩ := hClose
      obtain ⟨rest, rfl⟩ := List.head?_eq_some_iff.mp hSlash
      rw [scan] at h
      obtain rfl := Option.some.inj h
      rfl
    · rw [scan_inBlock_cons fun hStar hSlash => hClose ⟨hStar, hSlash⟩] at h
      obtain rfl := Option.some.inj h
      rfl

theorem isChain_cons_of_not_comment {m : Marked} {marks : List Marked} (h : m.cls ≠ .comment)
    (hMarks : marks.IsChain EndsComment) : (m :: marks).IsChain EndsComment :=
  List.isChain_cons.mpr ⟨fun _ _ hComment => absurd hComment h, hMarks⟩

theorem isChain_scan (state : State) (s : Text) : (scan state s).IsChain EndsComment := by
  fun_induction scan state s with
  | case1 => exact .nil
  | case2 s ih =>
    refine List.isChain_cons.mpr ⟨fun next _ _ _ => .inl rfl, List.isChain_cons.mpr ⟨?_, ih⟩⟩
    exact fun next _ _ _ => .inl rfl
  | case3 s ih =>
    refine List.isChain_cons.mpr ⟨fun next _ _ _ => .inl rfl, List.isChain_cons.mpr ⟨?_, ih⟩⟩
    exact fun next hNext _ hCode => absurd (comment_of_head?_inBlock hNext) hCode
  | case4 c s hLine hBlock hQuote ih | case5 c s hLine hBlock hQuote ih | case7 quote c s ih =>
    exact isChain_cons_of_not_comment (by simp) ih
  | case6 quote c s next =>
    rename_i ih
    exact isChain_cons_of_not_comment (by simp) ih
  | case8 c s ih =>
    refine List.isChain_cons.mpr ⟨fun next hNext _ hCode => ?_, ih⟩
    by_cases hFeed : c = '\n'
    · exact .inr hFeed
    · rw [if_neg hFeed] at hNext
      exact absurd (comment_of_head?_inLine hNext) hCode
  | case9 s ih =>
    refine List.isChain_cons.mpr ⟨fun next hNext _ hCode => ?_, List.isChain_cons.mpr ⟨?_, ih⟩⟩
    · obtain rfl := Option.some.inj hNext
      exact absurd rfl hCode
    · exact fun next _ _ _ => .inl rfl
  | case10 c s hClose ih =>
    refine List.isChain_cons.mpr ⟨fun next hNext _ hCode => ?_, ih⟩
    exact absurd (comment_of_head?_inBlock hNext) hCode

end Marked

end DesignParams
