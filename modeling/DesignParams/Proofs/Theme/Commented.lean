import DesignParams.Proofs.Theme.Head
import DesignParams.Proofs.Theme.Lexed

/-!
# Comments in a theme

Braces, commas and colons in a comment count for nothing, but the head of a section is looked for in
the bare text. So comments can give way to spaces without a change to the parameters as long as no
head takes part in a comment and the brace of each is code.
-/
set_option autoImplicit false

namespace DesignParams

namespace Theme

open Marked (toText ofText)

/-- A text with a space in the place of each run of comments. -/
def uncommented (source : Text) : Text :=
  toText (blankComments false (ofText source))

/-- Does every head of a section that starts a word, whether it is read with its comments or
without them, have no comments, and a brace that is code? -/
def HeadsInCode (source : Text) : Prop :=
  ∀ (s : Section) (front head back : List Marked), ofText source = front ++ (head ++ back) →
    (toText front).getLast?.any isWordChar = false →
    s.IsHead (toText head) ∨ s.IsHead (toText (blankComments false head)) →
    (∀ m ∈ head, m.cls ≠ .comment) ∧ ∀ m ∈ head.getLast?, m.cls = .code

theorem headsInCode_iff {source : Text} :
    HeadsInCode source ↔ ∀ s ∈ Section.all, ∀ i ∈ List.range (source.length + 1),
      ∀ j ∈ List.range (source.length + 1),
      (toText ((ofText source).take i)).getLast?.any isWordChar = false →
      s.IsHead (toText (((ofText source).drop i).take j)) ∨
        s.IsHead (toText (blankComments false (((ofText source).drop i).take j))) →
      (∀ m ∈ ((ofText source).drop i).take j, m.cls ≠ .comment) ∧
        ∀ m ∈ (((ofText source).drop i).take j).getLast?, m.cls = .code := by
  constructor
  · intro h s _ i _ j _
    refine h s _ _ (((ofText source).drop i).drop j) ?_
    rw [List.take_append_drop, List.take_append_drop]
  · intro h s front head back hSource
    have hLength : front.length + (head.length + back.length) = source.length := by
      rw [← length_ofText source, hSource, List.length_append, List.length_append]
    have hStretch := h s (by cases s <;> decide) front.length (List.mem_range.mpr (by omega))
      head.length (List.mem_range.mpr (by omega))
    rwa [hSource, List.take_left, List.drop_left, List.take_left] at hStretch

instance : DecidablePred HeadsInCode := fun _ =>
  decidable_of_iff _ headsInCode_iff.symm

theorem ofText_uncommented (source : Text) :
    ofText (uncommented source) = blankComments false (ofText source) :=
  Marked.scan_toText_blankComments .code source false

/-! ## Entries -/

theorem splitTopLevel_uncommented (source : Text) :
    splitTopLevel (uncommented source) = splitTopLevel source := by
  rw [splitTopLevel, ofText_uncommented,
    blankComments_eq_self fun m => Marked.not_comment_of_mem_blankComments, splitTopLevel]

theorem blockEntries_uncommented (s : Section) (block : Text) :
    blockEntries s (uncommented block) = blockEntries s block := by
  rw [blockEntries, blockEntries, splitTopLevel_uncommented]

theorem ofText_append_of_isAllBlank {s : Text} (h : Text.isAllBlank s = true) (rest : Text) :
    ofText (s ++ rest) = s.map (⟨·, .code⟩) ++ ofText rest := by
  induction s with
  | nil => rfl
  | cons c s ih =>
    rw [Text.isAllBlank, List.all_cons, Bool.and_eq_true] at h
    have hSlash : c ≠ '/' := by
      rintro rfl
      exact absurd h.1 (by decide)
    have hQuote : isQuote c = false := by
      refine Bool.eq_false_iff.mpr fun hQuote => ?_
      simp only [isQuote, Bool.or_eq_true, decide_eq_true_eq] at hQuote
      rcases hQuote with (rfl | rfl) | rfl
      · exact absurd h.1 (by decide)
      · exact absurd h.1 (by decide)
      · exact absurd h.1 (by decide)
    rw [List.cons_append, ofText_cons hQuote hSlash, ih h.2, List.map_cons, List.cons_append]

theorem ofText_of_isAllBlank {s : Text} (h : Text.isAllBlank s = true) :
    ofText s = s.map (⟨·, .code⟩) := by
  have hMarks := ofText_append_of_isAllBlank h []
  rwa [List.append_nil, show ofText [] = [] from rfl, List.append_nil] at hMarks

theorem partsFrom_of_isAllBlank {s : Text} (h : Text.isAllBlank s = true) (depth : Int)
    (part : Text) : partsFrom depth part (s.map (⟨·, .code⟩)) = [part.reverse ++ s] := by
  induction s generalizing depth part with
  | nil => rw [List.map_nil, partsFrom, List.append_nil]
  | cons c s ih =>
    rw [Text.isAllBlank, List.all_cons, Bool.and_eq_true] at h
    have hComma : c ≠ ',' := by
      rintro rfl
      exact absurd h.1 (by decide)
    rw [List.map_cons, partsFrom, if_pos rfl, if_neg (fun hBoth => hComma hBoth.1), ih h.2,
      List.reverse_cons, List.append_assoc, List.singleton_append]

theorem blockEntries_of_isAllBlank (s : Section) {block : Text}
    (h : Text.isAllBlank block = true) : blockEntries s block = [] := by
  have hTrim : Text.trim block = [] := by
    have hStart : Text.trimStart block = [] :=
      List.dropWhile_eq_nil_iff.mpr fun c hc => List.all_eq_true.mp h c hc
    rw [Text.trim, hStart]
    rfl
  have hClean : ∀ m ∈ block.map (⟨·, CharClass.code⟩ : Char → Marked), m.cls ≠ .comment := by
    intro m hm
    obtain ⟨c, -, rfl⟩ := List.mem_map.mp hm
    simp
  rw [blockEntries, splitTopLevel, ofText_of_isAllBlank h, blankComments_eq_self hClean,
    partsFrom_of_isAllBlank h, List.reverse_nil, List.nil_append, List.map_singleton, hTrim]
  rfl

/-! ## Blocks -/

def closer : Marked :=
  ⟨'\x7D', .code⟩

theorem eq_of_closingBrace? {depth n : Nat} {marks : List Marked}
    (h : closingBrace? depth marks = some n) :
    marks = marks.take n ++ closer :: marks.drop (n + 1) := by
  fun_induction closingBrace? depth marks generalizing n with
  | case1 => simp at h
  | case2 depth m rest hClose =>
    obtain rfl := Option.some.inj h
    have hm : m = closer := by
      obtain ⟨c, cls⟩ := m
      simpa [Marked.isCode, closer, and_comm] using hClose.1
    rw [hm]
    rfl
  | case3 depth m rest hOpen next =>
    rename_i ih
    obtain ⟨k, hk, rfl⟩ := Option.map_eq_some_iff.mp h
    exact congrArg (m :: ·) (ih hk)

theorem closingBrace?_of_not_brace {m : Marked} (hOpen : m.isCode '\x7B' = false)
    (hClose : m.isCode '\x7D' = false) (depth : Nat) (rest : List Marked) :
    closingBrace? depth (m :: rest) = (closingBrace? depth rest).map (· + 1) := by
  rw [closingBrace?, hOpen, hClose]
  simp

theorem closingBrace?_blankComments (depth : Nat) (marks : List Marked) (inComment : Bool) :
    closingBrace? depth (blankComments inComment marks) =
      (closingBrace? depth marks).map fun n => (blankComments inComment (marks.take n)).length := by
  induction marks generalizing depth inComment with
  | nil => rfl
  | cons m marks ih =>
    by_cases hComment : m.cls = .comment
    · have hNoCode (c : Char) : m.isCode c = false := by simp [Marked.isCode, hComment]
      rw [Marked.blankComments_of_comment hComment,
        closingBrace?_of_not_brace (hNoCode _) (hNoCode _), Option.map_map]
      cases inComment with
      | true =>
        rw [if_pos rfl, ih]
        refine congrArg (Option.map · _) (funext fun n => ?_)
        simp only [Function.comp_apply, List.take_succ_cons,
          Marked.blankComments_of_comment hComment, if_true]
      | false =>
        rw [if_neg Bool.false_ne_true, closingBrace?_of_not_brace (by decide) (by decide), ih,
          Option.map_map]
        refine congrArg (Option.map · _) (funext fun n => ?_)
        simp only [Function.comp_apply, List.take_succ_cons,
          Marked.blankComments_of_comment hComment, Bool.false_eq_true, if_false, List.length_cons]
    · rw [Marked.blankComments_of_not_comment hComment, closingBrace?, closingBrace?]
      split
      · rfl
      · simp only [ih, Option.map_map]
        refine congrArg (Option.map · _) (funext fun n => ?_)
        simp only [Function.comp_apply, List.take_succ_cons,
          Marked.blankComments_of_not_comment hComment, List.length_cons]

theorem blankComments_append_cons {m : Marked} (h : m.cls ≠ .comment) (front back : List Marked)
    (inComment : Bool) :
    blankComments inComment (front ++ m :: back) =
      blankComments inComment front ++ m :: blankComments false back := by
  induction front generalizing inComment with
  | nil => exact Marked.blankComments_of_not_comment h inComment
  | cons a front ih =>
    rw [List.cons_append, blankComments, blankComments]
    split
    · split
      · exact ih true
      · rw [ih true, List.cons_append]
    · rw [ih false, List.cons_append]

theorem toText_take (n : Nat) (marks : List Marked) :
    (toText marks).take n = toText (marks.take n) :=
  (List.map_take).symm

theorem toText_drop (n : Nat) (marks : List Marked) :
    (toText marks).drop n = toText (marks.drop n) :=
  (List.map_drop).symm

theorem bracedBlock?_toText {marks : List Marked} (h : ofText (toText marks) = marks) :
    bracedBlock? ('\x7B' :: toText marks) = (closingBrace? 1 marks).map fun n =>
      (toText (marks.take n), toText (marks.drop (n + 1))) := by
  rw [bracedBlock?, h]
  simp only [toText_take, toText_drop]

theorem blankComments_of_closingBrace? {depth n : Nat} {marks : List Marked}
    (h : closingBrace? depth marks = some n) :
    blankComments false marks = blankComments false (marks.take n) ++
      closer :: blankComments false (marks.drop (n + 1)) := by
  conv_lhs => rw [eq_of_closingBrace? h]
  exact blankComments_append_cons (by simp [closer]) _ _ false

theorem bracedBlock?_blankComments {marks : List Marked} (h : ofText (toText marks) = marks) :
    bracedBlock? ('\x7B' :: toText (blankComments false marks)) =
      (closingBrace? 1 marks).map fun n =>
        (toText (blankComments false (marks.take n)),
          toText (blankComments false (marks.drop (n + 1)))) := by
  have hBlanked : ofText (toText (blankComments false marks)) = blankComments false marks := by
    rw [← h]
    exact ofText_uncommented (toText marks)
  rw [bracedBlock?_toText hBlanked, closingBrace?_blankComments, Option.map_map]
  cases hClose : closingBrace? 1 marks with
  | none => rfl
  | some n =>
    simp only [Option.map_some, Function.comp_apply]
    rw [blankComments_of_closingBrace? hClose, List.take_left, List.drop_length_add_append]
    rfl

/-! ## Heads -/

theorem blankComments_append_of_clean {head : List Marked} (hClean : ∀ m ∈ head, m.cls ≠ .comment)
    (hNonempty : head ≠ []) (back : List Marked) (inComment : Bool) :
    blankComments inComment (head ++ back) = head ++ blankComments false back := by
  induction head generalizing inComment with
  | nil => exact absurd rfl hNonempty
  | cons m head ih =>
    obtain ⟨hm, hHead⟩ := List.forall_mem_cons.mp hClean
    rw [List.cons_append, Marked.blankComments_of_not_comment hm, List.cons_append]
    cases head with
    | nil => rfl
    | cons a head => rw [ih hHead (List.cons_ne_nil a head)]

/-- A character that is no space stands without comments where it stands with them. -/
theorem exists_of_blankComments_eq {marks front back : List Marked} {m : Marked} {inComment : Bool}
    (h : blankComments inComment marks = front ++ m :: back) (hm : m.char ≠ ' ') :
    ∃ before behind, marks = before ++ m :: behind ∧ m.cls ≠ .comment ∧
      blankComments inComment before = front ∧ blankComments false behind = back := by
  induction marks generalizing inComment front with
  | nil => simp [blankComments] at h
  | cons a marks ih =>
    by_cases hComment : a.cls = .comment
    · rw [Marked.blankComments_of_comment hComment] at h
      cases inComment with
      | true =>
        obtain ⟨before, behind, rfl, hCode, hFront, hBack⟩ := ih h
        refine ⟨a :: before, behind, rfl, hCode, ?_, hBack⟩
        rw [Marked.blankComments_of_comment hComment]
        exact hFront
      | false =>
        cases front with
        | nil =>
          obtain ⟨rfl, -⟩ := List.cons.inj h
          exact absurd rfl hm
        | cons b front =>
          obtain ⟨rfl, hRest⟩ := List.cons.inj h
          obtain ⟨before, behind, rfl, hCode, hFront, hBack⟩ := ih hRest
          refine ⟨a :: before, behind, rfl, hCode, ?_, hBack⟩
          rw [Marked.blankComments_of_comment hComment]
          exact congrArg (⟨' ', .code⟩ :: ·) hFront
    · rw [Marked.blankComments_of_not_comment hComment] at h
      cases front with
      | nil =>
        obtain ⟨rfl, hBack⟩ := List.cons.inj h
        exact ⟨[], marks, rfl, hComment, rfl, hBack⟩
      | cons b front =>
        obtain ⟨rfl, hRest⟩ := List.cons.inj h
        obtain ⟨before, behind, rfl, hCode, hFront, hBack⟩ := ih hRest
        refine ⟨a :: before, behind, rfl, hCode, ?_, hBack⟩
        rw [Marked.blankComments_of_not_comment hComment, hFront]

variable {source : Text} {front marks : List Marked} {s : Section} {body : Text}

/-- A section opens behind marks that are no comments, of which the last is a brace of code. -/
theorem HeadsInCode.exists_head (h : HeadsInCode source) (hSource : ofText source = front ++ marks)
    (hOpen : Section.opening? s.key (toText front).getLast? (toText marks) = some body) :
    ∃ head back, marks = head ++ ⟨'\x7B', .code⟩ :: back ∧ toText back = body ∧
      s.IsHead (toText (head ++ [⟨'\x7B', .code⟩])) ∧
      ∀ m ∈ head ++ [⟨'\x7B', .code⟩], m.cls ≠ .comment := by
  obtain ⟨hBefore, text, hHead, hText⟩ := Section.opening?_eq_some_iff.mp hOpen
  obtain ⟨head, back, rfl, rfl, rfl⟩ := List.map_eq_append_iff.mp hText
  obtain ⟨hClean, hCode⟩ := h s front head back hSource hBefore (.inl hHead)
  obtain ⟨lead, hLead⟩ := hHead.exists_append
  obtain ⟨lead, last, rfl, rfl, hLast⟩ := List.map_eq_append_iff.mp hLead
  obtain ⟨brace, rfl, hBrace⟩ := List.map_eq_singleton_iff.mp hLast
  have hMark : brace = ⟨'\x7B', .code⟩ := by
    have hClass := hCode brace (by simp)
    obtain ⟨c, cls⟩ := brace
    simp only at hBrace hClass
    rw [hBrace, hClass]
  rw [hMark] at hClean hHead ⊢
  exact ⟨lead, back, by simp, rfl, hHead, hClean⟩

/-- Where the marks begin with no comment, no section opens without the comments that does not open
with them. -/
theorem HeadsInCode.opening?_of_blanked (h : HeadsInCode source) {m : Marked}
    (hm : m.cls ≠ .comment) (hSource : ofText source = front ++ m :: marks) {before : Option Char}
    (hWord : before.any isWordChar = (toText front).getLast?.any isWordChar) {inComment : Bool}
    (hOpen : Section.opening? s.key before (toText (blankComments inComment (m :: marks))) =
      some body) :
    ∃ found, Section.opening? s.key (toText front).getLast? (toText (m :: marks)) = some found := by
  obtain ⟨hBefore, text, hHead, hText⟩ := Section.opening?_eq_some_iff.mp hOpen
  obtain ⟨lead, rfl⟩ := hHead.exists_append
  rw [List.append_assoc, List.singleton_append] at hText
  obtain ⟨blanked, rest, hSplit, rfl, hRest⟩ := List.map_eq_append_iff.mp hText
  obtain ⟨brace, rest, rfl, hBrace, rfl⟩ := List.map_eq_cons_iff.mp hRest
  obtain ⟨head, back, hMarks, hCode, hFront, -⟩ :=
    exists_of_blankComments_eq hSplit (by rw [hBrace]; decide)
  -- A head begins with no comment, so it does not matter what stands before it.
  have hHeadMarks : blankComments false (head ++ [brace]) = blanked ++ [brace] := by
    rw [blankComments_append_cons hCode, ← hFront]
    cases head with
    | nil => rfl
    | cons a head =>
      obtain ⟨rfl, -⟩ := List.cons.inj hMarks
      rw [Marked.blankComments_of_not_comment hm, Marked.blankComments_of_not_comment hm]
      rfl
  have hBlanked : s.IsHead (toText (blankComments false (head ++ [brace]))) := by
    rw [hHeadMarks, Marked.toText_append, Marked.toText_cons, hBrace]
    exact hHead
  rw [hMarks, List.append_cons] at hSource ⊢
  rw [hWord] at hBefore
  obtain ⟨hClean, -⟩ := h s front (head ++ [brace]) back hSource hBefore (.inr hBlanked)
  rw [blankComments_eq_self hClean] at hBlanked
  exact ⟨toText back, Section.opening?_eq_some_iff.mpr
    ⟨hBefore, _, hBlanked, Marked.toText_append _ _⟩⟩

/-! ## The search -/

/-- What stands before the rest of a text, with its comments and without them: the same character,
or the last one of a comment and a space. -/
inductive Aligned : List Marked → Bool → Option Char → Prop
  | same (front : List Marked) : Aligned front false (toText front).getLast?
  | blanked (front : List Marked) {m : Marked} (h : m.cls = .comment) :
      Aligned (front ++ [m]) true (some ' ')

theorem getLast?_toText_concat (front : List Marked) (m : Marked) :
    (toText (front ++ [m])).getLast? = some m.char := by
  rw [Marked.toText_append, List.getLast?_append]
  rfl

theorem Aligned.isWordChar {inComment : Bool} {before : Option Char} {m : Marked}
    (h : Aligned front inComment before) (hSource : ofText source = front ++ m :: marks)
    (hm : m.cls ≠ .comment) :
    before.any isWordChar = (toText front).getLast?.any isWordChar := by
  cases h with
  | same => rfl
  | blanked front hComment =>
    rename_i a
    have hChain : (ofText source).IsChain Marked.EndsComment := Marked.isChain_scan .code source
    rw [hSource, List.append_assoc, List.singleton_append] at hChain
    have hEnd := (List.isChain_append_cons_cons.mp hChain).2.1 hComment hm
    rw [getLast?_toText_concat]
    rcases hEnd with hSlash | hFeed
    · rw [hSlash]
      decide
    · rw [hFeed]
      decide

theorem not_infix_of_isAllBlank (s : Section) {t : Text} (h : Text.isAllBlank t = true) :
    ¬ s.key <:+: t := by
  have hKey : s.key.any isBlank = false := by cases s <;> decide
  obtain ⟨c, key, hFirst⟩ := List.exists_cons_of_ne_nil s.key_ne_nil
  intro hInfix
  have hBlank := List.all_eq_true.mp h c (hInfix.subset (hFirst ▸ List.mem_cons_self))
  rw [hFirst, List.any_cons, hBlank] at hKey
  cases hKey

theorem blankComments_of_isAllBlank {inner : List Marked} (hInner : ofText (toText inner) = inner)
    (hBlank : Text.isAllBlank (toText inner) = true) : blankComments false inner = inner := by
  have hClean : ∀ m ∈ inner, m.cls ≠ .comment := by
    rw [← hInner, ofText_of_isAllBlank hBlank]
    intro m hm
    obtain ⟨c, -, rfl⟩ := List.mem_map.mp hm
    simp
  exact blankComments_eq_self hClean

/-- What is found from a head on, if the same is found inside its block and behind it. -/
theorem flatMap_blocksFrom_of_head {back : List Marked} {before before' : Option Char}
    {text blanked : Text} (hBack : ofText (toText back) = back)
    (hOpen : Section.opening? s.key before text = some (toText back))
    (hBlanked : Section.opening? s.key before' blanked = some (toText (blankComments false back)))
    (hInside : (Section.blocksFrom s.key (some '\x7B') (toText back)).flatMap (blockEntries s) =
      (Section.blocksFrom s.key (some '\x7B') (toText (blankComments false back))).flatMap
        (blockEntries s))
    (hBehind : ∀ n, closingBrace? 1 back = some n →
      (Section.blocksFrom s.key (some '\x7D') (toText (back.drop (n + 1)))).flatMap
          (blockEntries s) =
        (Section.blocksFrom s.key (some '\x7D')
          (toText (blankComments false (back.drop (n + 1))))).flatMap (blockEntries s)) :
    (Section.blocksFrom s.key before text).flatMap (blockEntries s) =
      (Section.blocksFrom s.key before' blanked).flatMap (blockEntries s) := by
  have hBlock := bracedBlock?_toText hBack
  have hBlock' := bracedBlock?_blankComments hBack
  cases hClose : closingBrace? 1 back with
  | none =>
    rw [hClose] at hBlock hBlock'
    rw [Section.blocksFrom_of_unclosed hOpen hBlock,
      Section.blocksFrom_of_unclosed hBlanked hBlock']
    exact hInside
  | some n =>
    rw [hClose] at hBlock hBlock'
    rw [Section.blocksFrom_of_block hOpen hBlock, Section.blocksFrom_of_block hBlanked hBlock']
    have hInner : ofText (toText (back.take n)) = back.take n :=
      (Marked.scan_of_append_code rfl (hBack.trans (eq_of_closingBrace? hClose))).1
    have hUncommented : toText (blankComments false (back.take n)) =
        uncommented (toText (back.take n)) := by
      rw [uncommented, hInner]
    have hEntries := blockEntries_uncommented s (toText (back.take n))
    rw [← hUncommented] at hEntries
    by_cases hBlank : Text.isAllBlank (toText (back.take n)) = true
    · rw [blankComments_of_isAllBlank hInner hBlank, if_pos hBlank, if_pos hBlank]
      exact hInside
    · rw [if_neg hBlank, List.flatMap_cons, hBehind n hClose, ← hEntries]
      split
      · -- Of a block that holds nothing but comments a blank one is left, and it is passed over.
        rename_i hEmpty
        have hText : toText (blankComments false back) =
            toText (blankComments false (back.take n)) ++
              '\x7D' :: toText (blankComments false (back.drop (n + 1))) := by
          rw [blankComments_of_closingBrace? hClose, Marked.toText_append]
          rfl
        rw [blockEntries_of_isAllBlank s hEmpty, List.nil_append, hText,
          s.blocksFrom_append_cons (not_infix_of_isAllBlank s hEmpty) (by decide)]
      · rw [List.flatMap_cons]

theorem HeadsInCode.opening?_of_comment (h : HeadsInCode source) {m : Marked}
    (hm : m.cls = .comment) (hSource : ofText source = front ++ m :: marks) :
    Section.opening? s.key (toText front).getLast? (toText (m :: marks)) = none := by
  refine Option.eq_none_iff_forall_ne_some.mpr fun body hOpen => ?_
  obtain ⟨head, back, hMarks, -, -, hClean⟩ := h.exists_head hSource hOpen
  refine hClean m ?_ hm
  cases head with
  | nil => exact List.mem_singleton.mpr (List.cons.inj hMarks).1
  | cons a head =>
    obtain ⟨rfl, -⟩ := List.cons.inj hMarks
    exact List.mem_cons_self

section Search

variable {m : Marked} {inComment : Bool} {before : Option Char}

/-- The search passes over a mark of a comment, and over the space that takes its place. -/
theorem flatMap_blocksFrom_of_comment (h : HeadsInCode source) (hm : m.cls = .comment)
    (hSource : ofText source = front ++ m :: marks) (hAligned : Aligned front inComment before)
    (hRest : (Section.blocksFrom s.key (some m.char) (toText marks)).flatMap (blockEntries s) =
      (Section.blocksFrom s.key (some ' ') (toText (blankComments true marks))).flatMap
        (blockEntries s)) :
    (Section.blocksFrom s.key (toText front).getLast? (toText (m :: marks))).flatMap
        (blockEntries s) =
      (Section.blocksFrom s.key before (toText (blankComments inComment (m :: marks)))).flatMap
        (blockEntries s) := by
  have hNone := h.opening?_of_comment (s := s) hm hSource
  rw [Marked.toText_cons] at hNone ⊢
  rw [Section.blocksFrom_of_none hNone, hRest]
  cases hAligned with
  | same =>
    rw [Marked.blankComments_of_comment hm, if_neg Bool.false_ne_true, Marked.toText_cons,
      s.blocksFrom_cons (by decide)]
  | blanked => rw [Marked.blankComments_of_comment hm, if_pos rfl]

/-- Where no section opens with the comments, none opens without them. -/
theorem flatMap_blocksFrom_of_no_head (h : HeadsInCode source) (hm : m.cls ≠ .comment)
    (hSource : ofText source = front ++ m :: marks)
    (hWord : before.any isWordChar = (toText front).getLast?.any isWordChar)
    (hOpen : Section.opening? s.key (toText front).getLast? (toText (m :: marks)) = none)
    (hRest : (Section.blocksFrom s.key (some m.char) (toText marks)).flatMap (blockEntries s) =
      (Section.blocksFrom s.key (some m.char) (toText (blankComments false marks))).flatMap
        (blockEntries s)) :
    (Section.blocksFrom s.key (toText front).getLast? (toText (m :: marks))).flatMap
        (blockEntries s) =
      (Section.blocksFrom s.key before (toText (blankComments inComment (m :: marks)))).flatMap
        (blockEntries s) := by
  have hNone : Section.opening? s.key before (m.char :: toText (blankComments false marks)) =
      none := by
    refine Option.eq_none_iff_forall_ne_some.mpr fun body hBlanked => ?_
    rw [← Marked.toText_cons, ← Marked.blankComments_of_not_comment hm inComment] at hBlanked
    obtain ⟨found, hFound⟩ := h.opening?_of_blanked hm hSource hWord hBlanked
    rw [hOpen] at hFound
    cases hFound
  rw [Marked.toText_cons] at hOpen ⊢
  rw [Marked.blankComments_of_not_comment hm, Marked.toText_cons,
    Section.blocksFrom_of_none hOpen, Section.blocksFrom_of_none hNone, hRest]

/-- Where a section opens with the comments, the same one opens without them. -/
theorem flatMap_blocksFrom_of_opening (h : HeadsInCode source)
    (hSource : ofText source = front ++ marks)
    (hWord : before.any isWordChar = (toText front).getLast?.any isWordChar)
    (hOpen : Section.opening? s.key (toText front).getLast? (toText marks) = some body)
    (hNext : ∀ front' marks', marks'.length < marks.length → ofText source = front' ++ marks' →
      (Section.blocksFrom s.key (toText front').getLast? (toText marks')).flatMap (blockEntries s) =
        (Section.blocksFrom s.key (toText front').getLast?
          (toText (blankComments false marks'))).flatMap (blockEntries s)) :
    (Section.blocksFrom s.key (toText front).getLast? (toText marks)).flatMap (blockEntries s) =
      (Section.blocksFrom s.key before (toText (blankComments inComment marks))).flatMap
        (blockEntries s) := by
  obtain ⟨head, back, rfl, rfl, hHead, hClean⟩ := h.exists_head hSource hOpen
  have hBack : ofText (toText back) = back := by
    rw [← List.append_assoc] at hSource
    exact (Marked.scan_of_append_code rfl hSource).2
  have hShorter : back.length < (head ++ ⟨'\x7B', .code⟩ :: back).length := by
    rw [List.length_append, List.length_cons]
    omega
  have hInside : ofText source = (front ++ head ++ [⟨'\x7B', .code⟩]) ++ back := by
    rw [hSource]
    simp
  refine flatMap_blocksFrom_of_head hBack hOpen ?_ ?_ fun n hClose => ?_
  · rw [List.append_cons, blankComments_append_of_clean hClean (by simp)]
    exact Section.opening?_eq_some_iff.mpr
      ⟨hWord.trans (Section.opening?_eq_some_iff.mp hOpen).1, _, hHead, Marked.toText_append _ _⟩
  · have hRest := hNext _ _ hShorter hInside
    rwa [getLast?_toText_concat] at hRest
  · have hBehind : ofText source =
        (front ++ head ++ [⟨'\x7B', .code⟩] ++ back.take n ++ [closer]) ++ back.drop (n + 1) := by
      rw [hInside]
      conv_lhs => rw [eq_of_closingBrace? hClose]
      simp
    have hRest := hNext _ _ (Nat.lt_of_le_of_lt (by simp) hShorter) hBehind
    rwa [getLast?_toText_concat] at hRest

end Search

/-- Comments can give way to spaces in every search. -/
theorem flatMap_blocksFrom_blankComments (h : HeadsInCode source) (s : Section)
    {inComment : Bool} {before : Option Char} (hSource : ofText source = front ++ marks)
    (hAligned : Aligned front inComment before) :
    (Section.blocksFrom s.key (toText front).getLast? (toText marks)).flatMap (blockEntries s) =
      (Section.blocksFrom s.key before (toText (blankComments inComment marks))).flatMap
        (blockEntries s) := by
  -- On the length of what is left, since the search goes on behind a head or behind its block.
  induction hLength : marks.length using Nat.strong_induction_on
    generalizing front marks inComment before with
  | _ length ih =>
  have hNext {front' marks' : List Marked} {inComment' : Bool} {before' : Option Char}
      (hShorter : marks'.length < marks.length) (hSource' : ofText source = front' ++ marks')
      (hAligned' : Aligned front' inComment' before') :=
    ih marks'.length (hLength ▸ hShorter) hSource' hAligned' rfl
  cases marks with
  | nil =>
    rw [blankComments, show toText [] = [] from rfl, Section.blocksFrom, Section.blocksFrom]
  | cons m marks =>
    have hStep : ofText source = (front ++ [m]) ++ marks := by
      rw [hSource, List.append_assoc, List.singleton_append]
    have hLast := getLast?_toText_concat front m
    by_cases hComment : m.cls = .comment
    · have hRest := hNext (by simp) hStep (.blanked front hComment)
      rw [hLast] at hRest
      exact flatMap_blocksFrom_of_comment h hComment hSource hAligned hRest
    · have hWord := hAligned.isWordChar hSource hComment
      cases hOpen : Section.opening? s.key (toText front).getLast? (toText (m :: marks)) with
      | none =>
        have hRest := hNext (by simp) hStep (.same (front ++ [m]))
        rw [hLast] at hRest
        exact flatMap_blocksFrom_of_no_head h hComment hSource hWord hOpen hRest
      | some body =>
        exact flatMap_blocksFrom_of_opening h hSource hWord hOpen fun front' marks' hShorter hSource' =>
          hNext hShorter hSource' (.same front')

theorem allEntries_uncommented (h : HeadsInCode source) :
    allEntries (uncommented source) = allEntries source := by
  refine List.flatMap_congr fun s _ => ?_
  have hWhole := flatMap_blocksFrom_blankComments h s (List.nil_append _).symm (.same [])
  rw [show toText (ofText source) = source from Marked.toText_scan .code source] at hWhole
  exact hWhole.symm

/-- The parameters of a theme do not depend on what its comments say, as long as no head of a
section takes part in a comment and the brace of each is code. -/
theorem scan_uncommented (h : HeadsInCode source) (file : Path) (limit : Nat) :
    scan (uncommented source) file limit = scan source file limit := by
  rw [scan_eq_take, scan_eq_take, allEntries_uncommented h]

/-- The comments can give way to spaces for every limit exactly when each section has the same first
entries with them as without. That is so when no head of a section takes part in a comment and the
brace of each is code. -/
theorem scan_uncommented_iff (source : Text) :
    (∀ file : Path, (∀ limit, scan (uncommented source) file limit = scan source file limit) ↔
        ∀ s, sectionEntries (uncommented source) s = sectionEntries source s) ∧
      (HeadsInCode source →
        ∀ (file : Path) (limit : Nat), scan (uncommented source) file limit = scan source file limit) := by
  refine ⟨fun file => ?_, scan_uncommented⟩
  rw [← distinct_allEntries_inj]
  constructor
  · intro h
    have hScan := h ((named file [] (distinct [] (allEntries (uncommented source)))).length +
      (named file [] (distinct [] (allEntries source))).length)
    rw [scan_eq_take, scan_eq_take, List.take_of_length_le (Nat.le_add_right _ _),
      List.take_of_length_le (Nat.le_add_left _ _)] at hScan
    exact named_injective file [] hScan
  · intro h limit
    rw [scan_eq_take, scan_eq_take, h]

/-- A comment between entries counts for nothing, but a section that is commented out counts. -/
theorem scan_uncommented_colors :
    let between := "colors: \x7B a: 0, /* , \x7D */ b: 1 \x7D".toList
    let around := "// colors: \x7B a: 0 \x7D".toList
    let file := Path.ofString "theme.js"
    HeadsInCode between ∧
      scan "colors: \x7B a: 0,   b: 1 \x7D".toList file defaultLimit = scan between file defaultLimit ∧
      ¬ ∀ limit, scan (uncommented around) file limit = scan around file limit := by
  intro between around file
  have hHeads : HeadsInCode between := by decide +kernel
  have hText : uncommented between = "colors: \x7B a: 0,   b: 1 \x7D".toList := by decide
  have hColors : sectionEntries (uncommented around) .colors ≠ sectionEntries around .colors := by
    decide +kernel
  refine ⟨hHeads, ?_, fun h => hColors (((scan_uncommented_iff around).1 file).mp h .colors)⟩
  rw [← hText]
  exact (scan_uncommented_iff between).2 hHeads file defaultLimit

/-- A section that is commented out has its parameters all the same. -/
example : (scan "// colors: \x7B a: 0 \x7D".toList (.ofString "theme.js") defaultLimit).map (·.id) =
    ["rig.tw.colors-a".toList] := by
  decide +kernel

end Theme

end DesignParams
