import DesignParams.Proofs.Stylesheet.Exact
import DesignParams.Proofs.Theme.Commented

/-!
# Closing braces

The block at a brace ends at the first brace of code that brings the count of open braces back to
none. What stands before the block or behind it has no part in that, and neither have its strings
and comments.
-/
set_option autoImplicit false

namespace DesignParams

namespace Theme

open Marked (ofText toText)

def opener : Marked :=
  ⟨'\x7B', .code⟩

def surplus (marks : List Marked) : Int :=
  (marks.count opener : Int) - (marks.count closer : Int)

/-- Does a closing brace of code stand at this place, and are no braces open behind it? -/
def ClosesAt (marks : List Marked) (n : Nat) : Prop :=
  marks[n]? = some closer ∧ surplus (marks.take (n + 1)) = 0

instance (marks : List Marked) : DecidablePred (ClosesAt marks) := fun n =>
  inferInstanceAs (Decidable (marks[n]? = some closer ∧ surplus (marks.take (n + 1)) = 0))

/-! ## Counting braces -/

@[simp] theorem surplus_nil : surplus [] = 0 := rfl

theorem surplus_append (l l' : List Marked) : surplus (l ++ l') = surplus l + surplus l' := by
  simp only [surplus, List.count_append]
  omega

theorem surplus_cons (m : Marked) (l : List Marked) : surplus (m :: l) = surplus [m] + surplus l :=
  surplus_append [m] l

@[simp] theorem surplus_opener : surplus [opener] = 1 := by decide

@[simp] theorem surplus_closer : surplus [closer] = -1 := by decide

theorem surplus_of_ne {m : Marked} (hOpen : m ≠ opener) (hClose : m ≠ closer) :
    surplus [m] = 0 := by
  rw [surplus, List.count_singleton, List.count_singleton, if_neg (by simpa using hOpen),
    if_neg (by simpa using hClose)]
  rfl

theorem isCode_eq_true_iff {m : Marked} {c : Char} : m.isCode c = true ↔ m = ⟨c, .code⟩ := by
  obtain ⟨d, cls⟩ := m
  simp [Marked.isCode, and_comm]

/-- The search ends at a closing brace when one brace is open, and goes on with a count that is
again positive at every other mark. -/
theorem closingBrace?_cons {depth : Nat} (hDepth : 1 ≤ depth) (m : Marked) (rest : List Marked) :
    (m = closer ∧ depth = 1 ∧ closingBrace? depth (m :: rest) = some 0) ∨
      ∃ next : Nat, 1 ≤ next ∧ (next : Int) = depth + surplus [m] ∧
        closingBrace? depth (m :: rest) = (closingBrace? next rest).map (· + 1) := by
  by_cases hClose : m = closer
  · have hBrace : m.isCode '\x7D' = true := isCode_eq_true_iff.mpr hClose
    have hNotOpen : m.isCode '\x7B' = false := by rw [hClose]; rfl
    rcases Nat.lt_or_ge 1 depth with hDeep | hTop
    · refine .inr ⟨depth - 1, by omega, by rw [hClose, surplus_closer]; omega, ?_⟩
      rw [closingBrace?, if_neg (by omega), hBrace, hNotOpen]
      rfl
    · refine .inl ⟨hClose, by omega, ?_⟩
      rw [closingBrace?, if_pos ⟨hBrace, hTop⟩]
  · have hBrace : m.isCode '\x7D' = false := by rwa [← Bool.not_eq_true, isCode_eq_true_iff]
    by_cases hOpen : m = opener
    · refine .inr ⟨depth + 1, by omega, by rw [hOpen, surplus_opener]; omega, ?_⟩
      rw [closingBrace?, if_neg (by simp [hBrace]), isCode_eq_true_iff.mpr hOpen]
      rfl
    · have hNotOpen : m.isCode '\x7B' = false := by rwa [← Bool.not_eq_true, isCode_eq_true_iff]
      refine .inr ⟨depth, hDepth, by rw [surplus_of_ne hOpen hClose, Int.add_zero], ?_⟩
      exact closingBrace?_of_not_brace hNotOpen hBrace depth rest

/-! ## What a block encloses -/

/-- With so many braces open, is one left behind these marks, and was none of their closing braces
the last one? -/
structure Encloses (depth : Nat) (inner : List Marked) : Prop where
  level : (depth : Int) + surplus inner = 1
  inside : ∀ before behind, inner = before ++ closer :: behind → (depth : Int) + surplus before ≠ 1

theorem encloses_cons_iff {depth next : Nat} {m : Marked} {inner : List Marked} (hNext : 1 ≤ next)
    (hCount : (next : Int) = depth + surplus [m]) :
    Encloses depth (m :: inner) ↔ Encloses next inner := by
  constructor
  · intro h
    refine ⟨?_, fun before behind hInner => ?_⟩
    · have hLevel := h.level
      rw [surplus_cons] at hLevel
      omega
    · have hInside := h.inside (m :: before) behind (by rw [hInner, List.cons_append])
      rw [surplus_cons] at hInside
      omega
  · intro h
    refine ⟨?_, fun before behind hInner => ?_⟩
    · rw [surplus_cons, ← h.level]
      omega
    · cases before with
      | nil =>
        obtain ⟨rfl, -⟩ := List.cons.inj hInner
        rw [surplus_closer] at hCount
        rw [surplus_nil]
        omega
      | cons a before =>
        obtain ⟨rfl, hRest⟩ := List.cons.inj hInner
        have hInside := h.inside before behind hRest
        rw [surplus_cons]
        omega

theorem closingBrace?_eq_some_iff {depth n : Nat} (hDepth : 1 ≤ depth) {marks : List Marked} :
    closingBrace? depth marks = some n ↔
      ∃ inner back, marks = inner ++ closer :: back ∧ inner.length = n ∧ Encloses depth inner := by
  induction marks generalizing depth n with
  | nil => simp [closingBrace?]
  | cons m rest ih =>
    obtain ⟨rfl, rfl, hStep⟩ | ⟨next, hNext, hCount, hStep⟩ := closingBrace?_cons hDepth m rest
    · rw [hStep, Option.some.injEq]
      constructor
      · rintro rfl
        exact ⟨[], rest, rfl, rfl, by rw [surplus_nil]; rfl, fun before behind h => by simp at h⟩
      · rintro ⟨inner, back, hSplit, rfl, hInner⟩
        cases inner with
        | nil => rfl
        | cons a inner =>
          obtain ⟨rfl, -⟩ := List.cons.inj hSplit
          exact absurd rfl (hInner.inside [] inner rfl)
    · rw [hStep, Option.map_eq_some_iff]
      constructor
      · rintro ⟨k, hk, rfl⟩
        obtain ⟨inner, back, rfl, rfl, hInner⟩ := (ih hNext).mp hk
        exact ⟨m :: inner, back, rfl, rfl, (encloses_cons_iff hNext hCount).mpr hInner⟩
      · rintro ⟨inner, back, hSplit, rfl, hInner⟩
        cases inner with
        | nil =>
          obtain ⟨rfl, -⟩ := List.cons.inj hSplit
          have hLevel := hInner.level
          rw [surplus_closer] at hCount
          rw [surplus_nil] at hLevel
          omega
        | cons a inner =>
          obtain ⟨rfl, rfl⟩ := List.cons.inj hSplit
          exact ⟨inner.length, (ih hNext).mpr
            ⟨inner, back, rfl, rfl, (encloses_cons_iff hNext hCount).mp hInner⟩, rfl⟩

/-- Where some closing brace brings the count back, there is a first one that does. -/
theorem exists_encloses {depth : Nat} {marks inner back : List Marked}
    (hMarks : marks = inner ++ closer :: back) (hLevel : (depth : Int) + surplus inner = 1) :
    ∃ inner back, marks = inner ++ closer :: back ∧ Encloses depth inner := by
  induction hLength : inner.length using Nat.strong_induction_on generalizing inner back with
  | _ length ih =>
  by_cases hInside : ∃ before behind, inner = before ++ closer :: behind ∧
      (depth : Int) + surplus before = 1
  · obtain ⟨before, behind, rfl, hBefore⟩ := hInside
    rw [List.append_assoc, List.cons_append] at hMarks
    refine ih before.length ?_ hMarks hBefore rfl
    rw [← hLength, List.length_append, List.length_cons]
    omega
  · refine ⟨inner, back, hMarks, hLevel, fun before behind hInner hBefore => ?_⟩
    exact hInside ⟨before, behind, hInner, hBefore⟩

theorem closesAt_iff {marks : List Marked} {n : Nat} :
    ClosesAt marks n ↔
      ∃ inner back, marks = inner ++ closer :: back ∧ inner.length = n ∧ surplus inner = 1 := by
  constructor
  · rintro ⟨hClose, hSurplus⟩
    obtain ⟨hn, hGet⟩ := List.getElem?_eq_some_iff.mp hClose
    have hSplit : marks = marks.take n ++ closer :: marks.drop (n + 1) := by
      rw [← hGet, ← List.drop_eq_getElem_cons hn, List.take_append_drop]
    refine ⟨_, _, hSplit, List.length_take_of_le (Nat.le_of_lt hn), ?_⟩
    rw [List.take_add_one, hClose, Option.toList_some, surplus_append, surplus_closer] at hSurplus
    omega
  · rintro ⟨inner, back, rfl, rfl, hSurplus⟩
    refine ⟨by simp, ?_⟩
    rw [List.append_cons, List.take_left' (by simp), surplus_append, surplus_closer, hSurplus]
    rfl

/-- The braces of a block are those of its code. -/
theorem encloses_filter_iff {depth : Nat} {inner : List Marked} :
    Encloses depth (inner.filter (·.cls = .code)) ↔ Encloses depth inner := by
  have hSurplus (l : List Marked) : surplus (l.filter (·.cls = .code)) = surplus l := by
    rw [surplus, surplus, List.count_filter (by decide), List.count_filter (by decide)]
  constructor
  · intro h
    refine ⟨by rw [← hSurplus, h.level], fun before behind hInner => ?_⟩
    rw [← hSurplus]
    refine h.inside _ (behind.filter (·.cls = .code)) ?_
    rw [hInner, List.filter_append, List.filter_cons_of_pos (by decide)]
  · intro h
    refine ⟨by rw [hSurplus, h.level], fun before behind hFilter => ?_⟩
    obtain ⟨front, back, rfl, rfl, hBack⟩ := List.filter_eq_append_iff.mp hFilter
    obtain ⟨gap, rest, rfl, hGap, -, -⟩ := List.filter_eq_cons_iff.mp hBack
    have hNone : gap.filter (·.cls = .code) = [] :=
      List.filter_eq_nil_iff.mpr fun m hm => by simpa using hGap m hm
    have hInside := h.inside (front ++ gap) rest (by rw [List.append_assoc])
    rwa [← hSurplus, List.filter_append, hNone, List.append_nil] at hInside

/-! ## Blocks alone -/

section

variable {body back s : Text}

/-- If a closing brace behind a text is code, it is code whatever follows it. -/
theorem ofText_append_closer {marks : List Marked}
    (h : ofText (body ++ '\x7D' :: back) = ofText body ++ closer :: marks) (rest : Text) :
    ofText (body ++ '\x7D' :: rest) = ofText body ++ closer :: ofText rest := by
  have hApart (t : Text) : Marked.IsApart ('\x7D' :: t) := ⟨by simp, by simp⟩
  obtain ⟨next, -, hNext⟩ := Marked.exists_scan_append .code trivial body
  have hState : next = .code := by
    have hRead := List.append_cancel_left ((hNext _ (hApart back)).symm.trans h)
    cases next with
    | code => rfl
    | inString | escaped | inLine | inBlock => simp [Marked.scan, closer] at hRead
  rw [ofText, hNext _ (hApart rest), hState, Marked.scan_code_cons (by decide) (by simp)]
  rfl

theorem bracedBlock?_eq_some_iff :
    bracedBlock? s = some (body, back) ↔ s = '\x7B' :: (body ++ '\x7D' :: back) ∧
      ofText (body ++ ['\x7D']) = ofText body ++ [closer] ∧ Encloses 1 (ofText body) := by
  constructor
  · intro h
    rw [bracedBlock?.eq_def] at h
    split at h
    · rename_i tail
      obtain ⟨n, hClose, hBlock⟩ := Option.map_eq_some_iff.mp h
      obtain ⟨rfl, rfl⟩ := Prod.mk.inj hBlock
      obtain ⟨inner, marks, hMarks, rfl, hInner⟩ :=
        (closingBrace?_eq_some_iff (Nat.le_refl 1)).mp hClose
      have hTail : tail = toText inner ++ '\x7D' :: toText marks := by
        rw [← Marked.toText_scan .code tail]
        exact (congrArg toText hMarks).trans (Marked.toText_append _ _)
      have hLength : inner.length = (toText inner).length := (List.length_map _).symm
      have hBody : tail.take inner.length = toText inner := by
        rw [hTail, hLength, List.take_left]
      have hBack : tail.drop (inner.length + 1) = toText marks := by
        rw [hTail, hLength, List.append_cons, List.drop_left' (by simp)]
      have hAlone : ofText (toText inner) = inner := (Marked.scan_of_append_code rfl hMarks).1
      rw [hBody, hBack, hAlone]
      refine ⟨by rw [← hTail], ?_, hInner⟩
      have hRead : ofText (toText inner ++ '\x7D' :: toText marks) =
          ofText (toText inner) ++ closer :: marks := by rw [← hTail, hMarks, hAlone]
      rw [ofText_append_closer hRead [], hAlone]
      rfl
    · cases h
  · rintro ⟨rfl, hBrace, hBody⟩
    have hMarks := ofText_append_closer hBrace back
    rw [bracedBlock?, hMarks, (closingBrace?_eq_some_iff (Nat.le_refl 1)).mpr
      ⟨_, _, rfl, length_ofText body, hBody⟩, Option.map_some, List.take_left, List.append_cons,
      List.drop_left' (by simp)]

theorem exists_bracedBlock?_iff {tail : Text} :
    (∃ block, bracedBlock? ('\x7B' :: tail) = some block) ↔
      ∃ n, ClosesAt (ofText ('\x7B' :: tail)) n := by
  have hMarks : ofText ('\x7B' :: tail) = opener :: ofText tail :=
    ofText_cons (by decide) (by decide) tail
  rw [hMarks, bracedBlock?]
  constructor
  · rintro ⟨block, hBlock⟩
    obtain ⟨n, hClose, -⟩ := Option.map_eq_some_iff.mp hBlock
    obtain ⟨inner, back, hTail, -, hInner⟩ :=
      (closingBrace?_eq_some_iff (Nat.le_refl 1)).mp hClose
    refine ⟨_, closesAt_iff.mpr ⟨opener :: inner, back, by rw [hTail, List.cons_append], rfl, ?_⟩⟩
    rw [surplus_cons, surplus_opener]
    exact hInner.level
  · rintro ⟨n, hn⟩
    obtain ⟨inner, back, hSplit, -, hSurplus⟩ := closesAt_iff.mp hn
    cases inner with
    | nil =>
      obtain ⟨hFirst, -⟩ := List.cons.inj hSplit
      cases hFirst
    | cons m inner =>
      obtain ⟨rfl, hTail⟩ := List.cons.inj hSplit
      rw [surplus_cons, surplus_opener] at hSurplus
      have hLevel : ((1 : Nat) : Int) + surplus inner = 1 := hSurplus
      obtain ⟨inner, back, hTail, hInner⟩ := exists_encloses hTail hLevel
      rw [(closingBrace?_eq_some_iff (Nat.le_refl 1)).mpr ⟨inner, back, hTail, rfl, hInner⟩]
      exact ⟨_, rfl⟩

/-! ## Blocks in a source -/

theorem bracedBlockAt?_append (front : Text) :
    bracedBlockAt? (front ++ s) (Text.byteLength front) =
      (bracedBlock? s).map fun block =>
        (block.1, Text.byteLength front + 1 + Text.byteLength block.1) := by
  rw [bracedBlockAt?, Text.splitAt?_append]

theorem bracedBlockAt?_block (hBrace : ofText (body ++ ['\x7D']) = ofText body ++ [closer])
    (hBody : Encloses 1 (ofText body)) (front back : Text) :
    bracedBlockAt? (front ++ '\x7B' :: (body ++ '\x7D' :: back)) (Text.byteLength front) =
      some (body, Text.byteLength front + 1 + Text.byteLength body) := by
  rw [bracedBlockAt?_append, bracedBlock?_eq_some_iff.mpr ⟨rfl, hBrace, hBody⟩]
  rfl

theorem slice?_block (front body back : Text) :
    Text.slice? (Text.byteLength front + 1) (Text.byteLength front + 1 + Text.byteLength body)
      (front ++ '\x7B' :: (body ++ '\x7D' :: back)) = some body := by
  have hBrace : ('\x7B').utf8Size = 1 := rfl
  have hSlice := Text.slice?_append (front ++ ['\x7B']) body ('\x7D' :: back)
  rw [Text.byteLength_append, Text.byteLength_cons, hBrace, Text.byteLength_nil,
    List.append_assoc] at hSlice
  exact hSlice

theorem exists_of_bracedBlockAt? {source : Text} {offset close : Nat}
    (h : bracedBlockAt? source offset = some (body, close)) :
    ∃ front back, source = front ++ '\x7B' :: (body ++ '\x7D' :: back) ∧
      Text.byteLength front = offset ∧ close = offset + 1 + Text.byteLength body ∧
      ofText (body ++ ['\x7D']) = ofText body ++ [closer] ∧ Encloses 1 (ofText body) := by
  rw [bracedBlockAt?] at h
  split at h
  · cases h
  · rename_i front rest hSplit
    obtain ⟨rfl, hLength⟩ := Text.append_of_splitAt? hSplit
    obtain ⟨⟨inner, back⟩, hBlock, hSame⟩ := Option.map_eq_some_iff.mp h
    obtain ⟨rfl, rfl⟩ := Prod.mk.inj hSame
    obtain ⟨rfl, hBrace, hBody⟩ := bracedBlock?_eq_some_iff.mp hBlock
    exact ⟨front, back, rfl, hLength, rfl, hBrace, hBody⟩

theorem closesAt_block (hBrace : ofText (body ++ ['\x7D']) = ofText body ++ [closer])
    (hBody : Encloses 1 (ofText body)) (back : Text) :
    ClosesAt (ofText ('\x7B' :: (body ++ '\x7D' :: back))) (body.length + 1) ∧
      ∀ n ≤ body.length, ¬ ClosesAt (ofText ('\x7B' :: (body ++ '\x7D' :: back))) n := by
  have hMarks : ofText ('\x7B' :: (body ++ '\x7D' :: back)) =
      opener :: ofText body ++ closer :: ofText back := by
    rw [ofText_cons (by decide) (by decide), ofText_append_closer hBrace back]
    rfl
  have hLevel : surplus (opener :: ofText body) = 1 := by
    rw [surplus_cons, surplus_opener]
    exact hBody.level
  rw [hMarks]
  refine ⟨closesAt_iff.mpr ⟨_, _, rfl, by rw [List.length_cons, length_ofText], hLevel⟩,
    fun n hn hClose => ?_⟩
  -- A place before the end would lie inside the block.
  obtain ⟨inner, rest, hSplit, rfl, hSurplus⟩ := closesAt_iff.mp hClose
  rcases List.append_eq_append_iff.mp hSplit with ⟨gap, hInner, -⟩ | ⟨gap, hInner, hRest⟩
  · have hLong := congrArg List.length hInner
    rw [List.length_append, List.length_cons, length_ofText] at hLong
    omega
  · cases gap with
    | nil =>
      have hLong := congrArg List.length hInner
      rw [List.append_nil, List.length_cons, length_ofText] at hLong
      omega
    | cons m gap =>
      obtain ⟨rfl, -⟩ := List.cons.inj hRest
      cases inner with
      | nil =>
        obtain ⟨hFirst, -⟩ := List.cons.inj hInner
        cases hFirst
      | cons m inner =>
        obtain ⟨rfl, hBehind⟩ := List.cons.inj hInner
        rw [surplus_cons, surplus_opener] at hSurplus
        exact hBody.inside inner gap hBehind hSurplus

end

/-- The block at an offset is found exactly if the offset is at a brace and some closing brace of
code brings the count of open braces back to none; the first such brace ends it. It does not depend
on what stands before the opening brace or behind the closing one, nor on what its strings and
comments say. -/
theorem bracedBlockAt?_isFirst (source : Text) (offset : Nat) :
    ((∃ block, bracedBlockAt? source offset = some block) ↔
      ∃ front tail, source = front ++ '\x7B' :: tail ∧ Text.byteLength front = offset ∧
        ∃ n, ClosesAt (ofText ('\x7B' :: tail)) n) ∧
    ∀ body close, bracedBlockAt? source offset = some (body, close) →
      ∃ front back, source = front ++ '\x7B' :: (body ++ '\x7D' :: back) ∧
        (Text.byteLength front = offset ∧ Text.byteLength (front ++ '\x7B' :: body) = close ∧
          Text.slice? (offset + 1) close source = some body) ∧
        (ClosesAt (ofText ('\x7B' :: (body ++ '\x7D' :: back))) (body.length + 1) ∧
          ∀ n ≤ body.length, ¬ ClosesAt (ofText ('\x7B' :: (body ++ '\x7D' :: back))) n) ∧
        (∀ front' back', bracedBlockAt? (front' ++ '\x7B' :: (body ++ '\x7D' :: back'))
          (Text.byteLength front') = some (body, Text.byteLength front' + (close - offset))) ∧
        ∀ body', ofText (body' ++ ['\x7D']) = ofText body' ++ [closer] →
          (ofText body').filter (·.cls = .code) = (ofText body).filter (·.cls = .code) →
          bracedBlockAt? (front ++ '\x7B' :: (body' ++ '\x7D' :: back)) offset =
            some (body', offset + 1 + Text.byteLength body') := by
  constructor
  · constructor
    · rintro ⟨⟨body, close⟩, h⟩
      obtain ⟨front, back, rfl, hLength, -, hBrace, hBody⟩ := exists_of_bracedBlockAt? h
      exact ⟨front, _, rfl, hLength, _, (closesAt_block hBrace hBody back).1⟩
    · rintro ⟨front, tail, rfl, rfl, hClose⟩
      obtain ⟨block, hBlock⟩ := exists_bracedBlock?_iff.mpr hClose
      exact ⟨_, by rw [bracedBlockAt?_append, hBlock, Option.map_some]⟩
  · intro body close h
    obtain ⟨front, back, rfl, rfl, rfl, hBrace, hBody⟩ := exists_of_bracedBlockAt? h
    have hBrace' : ('\x7B').utf8Size = 1 := rfl
    refine ⟨front, back, rfl, ⟨rfl, ?_, slice?_block front body back⟩,
      closesAt_block hBrace hBody back, fun front' back' => ?_, fun body' hBrace'' hCode => ?_⟩
    · rw [Text.byteLength_append, Text.byteLength_cons, hBrace', Nat.add_assoc]
    · rw [bracedBlockAt?_block hBrace hBody, Nat.add_assoc, Nat.add_assoc, Nat.add_sub_cancel_left]
    · refine bracedBlockAt?_block hBrace'' (encloses_filter_iff.mp ?_) front back
      rw [hCode]
      exact encloses_filter_iff.mpr hBody

/-- Braces in a string with an escaped quote and in a comment, and other ones in their place. -/
theorem bracedBlockAt?_isFirst_comment :
    let source := "k: \x7B a: '\\'\x7D' /* \x7D */ \x7D b".toList
    let body := " a: '\\'\x7D' /* \x7D */ ".toList
    let other := " a: '\x7B' // \x7B\n ".toList
    bracedBlockAt? source 3 = some (body, 22) ∧
      bracedBlockAt? ('\x7B' :: (body ++ ['\x7D', '\x7B'])) 0 = some (body, 19) ∧
      ∃ front back, source = front ++ '\x7B' :: (body ++ '\x7D' :: back) ∧
        bracedBlockAt? (front ++ '\x7B' :: (other ++ '\x7D' :: back)) 3 = some (other, 18) := by
  intro source body other
  have hBlock : bracedBlockAt? source 3 = some (body, 22) := by decide +kernel
  obtain ⟨front, back, hSource, -, -, hElsewhere, hCode⟩ :=
    (bracedBlockAt?_isFirst source 3).2 body 22 hBlock
  exact ⟨hBlock, hElsewhere [] ['\x7B'], front, back, hSource, hCode other (by decide) (by decide)⟩

end Theme

end DesignParams
