import DesignParams.Proofs.Theme.Commented

/-!
# Splitting again

A list is split at the commas outside its brackets, and an entry holds none of them. So an entry is
split into itself. All entries but the last are closed: their brackets lead back to the top, and
the comma behind them is code. What is left open can only be in the last entry, and there nothing
follows it. So a list that is joined from its entries is split into them again.
-/
set_option autoImplicit false

namespace DesignParams

namespace Theme

open Marked (ofText toText)

def comma : Marked :=
  ⟨',', .code⟩

/-- How much deeper the brackets of some code lead. -/
def rise : List Marked → Int
  | [] => 0
  | m :: rest => (if m.cls = .code then nest 0 m.char else 0) + rise rest

/-- Stands no comma of code outside the brackets, of which so many are open in front? -/
def IsWhole (depth : Int) (marks : List Marked) : Prop :=
  ∀ front back, marks = front ++ comma :: back → depth + rise front ≠ 0

/-! ## Depths -/

@[simp] theorem rise_nil : rise [] = 0 := rfl

theorem rise_append (l l' : List Marked) : rise (l ++ l') = rise l + rise l' := by
  induction l with
  | nil => rw [List.nil_append, rise_nil, Int.zero_add]
  | cons m l ih => rw [List.cons_append, rise, rise, ih, Int.add_assoc]

theorem rise_cons (m : Marked) (l : List Marked) : rise (m :: l) = rise [m] + rise l :=
  rise_append [m] l

theorem nest_eq (depth : Int) (c : Char) : nest depth c = depth + nest 0 c := by
  simp only [nest]
  split_ifs <;> omega

theorem rise_singleton_of_code {m : Marked} (h : m.cls = .code) (depth : Int) :
    depth + rise [m] = nest depth m.char := by
  simp [rise, h, nest_eq depth]

theorem rise_singleton_of_not_code {m : Marked} (h : m.cls ≠ .code) : rise [m] = 0 := by
  simp [rise, h]

theorem ne_of_isBlank {c d : Char} (hc : isBlank c = true) (hd : isBlank d = false) : c ≠ d := by
  rintro rfl
  rw [hc] at hd
  cases hd

theorem nest_of_isBlank {c : Char} (h : isBlank c = true) (depth : Int) : nest depth c = depth := by
  have hOpen : ¬ (c = '\x7B' ∨ c = '[' ∨ c = '(') := by
    rintro (rfl | rfl | rfl) <;> exact absurd h (by decide)
  have hClose : ¬ (c = '\x7D' ∨ c = ']' ∨ c = ')') := by
    rintro (rfl | rfl | rfl) <;> exact absurd h (by decide)
  rw [nest, if_neg hOpen, if_neg hClose]

theorem rise_of_isAllBlank {marks : List Marked} (h : Text.isAllBlank (toText marks) = true) :
    rise marks = 0 := by
  induction marks with
  | nil => rfl
  | cons m marks ih =>
    rw [Marked.toText_cons, Text.isAllBlank, List.all_cons, Bool.and_eq_true] at h
    rw [rise_cons, ih h.2, Int.add_zero]
    by_cases hCode : m.cls = .code
    · rw [← Int.zero_add (rise [m]), rise_singleton_of_code hCode, nest_of_isBlank h.1]
    · exact rise_singleton_of_not_code hCode

/-! ## Pieces -/

section Pieces

variable {depth : Int} {m : Marked} {marks front back rest : List Marked}

theorem isWhole_cons_iff :
    IsWhole depth (m :: rest) ↔ ¬ (m = comma ∧ depth = 0) ∧ IsWhole (depth + rise [m]) rest := by
  constructor
  · refine fun h => ⟨fun ⟨hComma, hDepth⟩ => ?_, fun front back hRest => ?_⟩
    · exact h [] rest (by rw [hComma, List.nil_append]) (by rw [rise_nil, hDepth, Int.add_zero])
    · rw [Int.add_assoc, ← rise_cons]
      exact h (m :: front) back (by rw [hRest, List.cons_append])
  · rintro ⟨hFirst, hRest⟩ front back hSplit
    cases front with
    | nil =>
      obtain ⟨rfl, -⟩ := List.cons.inj hSplit
      rw [rise_nil, Int.add_zero]
      exact fun hDepth => hFirst ⟨rfl, hDepth⟩
    | cons a front =>
      obtain ⟨rfl, rfl⟩ := List.cons.inj hSplit
      rw [rise_cons, ← Int.add_assoc]
      exact hRest front back rfl

/-- A piece ends at the first comma outside all brackets. -/
theorem isWhole_or_exists (depth : Int) (marks : List Marked) :
    IsWhole depth marks ∨
      ∃ front back, marks = front ++ comma :: back ∧ IsWhole depth front ∧ depth + rise front = 0 := by
  induction marks generalizing depth with
  | nil => exact .inl fun front back h => by simp at h
  | cons m rest ih =>
    by_cases hFirst : m = comma ∧ depth = 0
    · obtain ⟨rfl, rfl⟩ := hFirst
      exact .inr ⟨[], rest, rfl, fun front back h => by simp at h, rfl⟩
    · rcases ih (depth + rise [m]) with hWhole | ⟨front, back, rfl, hFront, hDepth⟩
      · exact .inl (isWhole_cons_iff.mpr ⟨hFirst, hWhole⟩)
      · refine .inr ⟨m :: front, back, rfl, isWhole_cons_iff.mpr ⟨hFirst, hFront⟩, ?_⟩
        rw [rise_cons, ← Int.add_assoc]
        exact hDepth

theorem pieces_induction {motive : List Marked → Prop}
    (whole : ∀ marks, IsWhole 0 marks → motive marks)
    (cut : ∀ front back, IsWhole 0 front → rise front = 0 → motive back →
      motive (front ++ comma :: back)) (marks : List Marked) : motive marks := by
  induction hLength : marks.length using Nat.strong_induction_on generalizing marks with
  | _ length ih =>
  rcases isWhole_or_exists 0 marks with hWhole | ⟨front, back, rfl, hFront, hLevel⟩
  · exact whole marks hWhole
  · rw [Int.zero_add] at hLevel
    refine cut front back hFront hLevel (ih back.length ?_ back rfl)
    rw [← hLength, List.length_append, List.length_cons]
    omega

theorem partsFrom_comma (part : Text) (rest : List Marked) :
    partsFrom 0 part (comma :: rest) = part.reverse :: partsFrom 0 [] rest := by
  rw [partsFrom, comma, if_pos rfl, if_pos ⟨rfl, rfl⟩]

theorem partsFrom_cons (h : ¬ (m = comma ∧ depth = 0)) (part : Text) (rest : List Marked) :
    partsFrom depth part (m :: rest) = partsFrom (depth + rise [m]) (m.char :: part) rest := by
  rw [partsFrom]
  split
  · rename_i hCode
    have hComma : ¬ (m.char = ',' ∧ depth = 0) := by
      rintro ⟨hChar, hDepth⟩
      obtain ⟨c, cls⟩ := m
      exact h ⟨by rw [comma, ← hChar, ← hCode], hDepth⟩
    rw [if_neg hComma, rise_singleton_of_code hCode]
  · rename_i hCode
    rw [rise_singleton_of_not_code hCode, Int.add_zero]

theorem partsFrom_append (h : IsWhole depth front) (part : Text) (back : List Marked) :
    partsFrom depth part (front ++ back) =
      partsFrom (depth + rise front) ((toText front).reverse ++ part) back := by
  induction front generalizing depth part with
  | nil => rw [List.nil_append, rise_nil, Int.add_zero]; rfl
  | cons m front ih =>
    obtain ⟨hFirst, hFront⟩ := isWhole_cons_iff.mp h
    rw [List.cons_append, partsFrom_cons hFirst, ih hFront, Int.add_assoc, ← rise_cons,
      Marked.toText_cons, List.reverse_cons, List.append_assoc, List.singleton_append]

theorem partsFrom_of_isWhole (h : IsWhole depth marks) (part : Text) :
    partsFrom depth part marks = [part.reverse ++ toText marks] := by
  rw [← List.append_nil marks, partsFrom_append h, partsFrom, List.append_nil, List.reverse_append,
    List.reverse_reverse]

theorem partsFrom_append_comma (h : IsWhole 0 front) (hLevel : rise front = 0)
    (back : List Marked) :
    partsFrom 0 [] (front ++ comma :: back) = toText front :: partsFrom 0 [] back := by
  rw [partsFrom_append h, hLevel, Int.add_zero, partsFrom_comma, List.append_nil,
    List.reverse_reverse]

/-- What stands before the marks belongs to the first piece. -/
theorem exists_partsFrom (depth : Int) (marks : List Marked) :
    ∃ first more, ∀ part, partsFrom depth part marks = (part.reverse ++ first) :: more := by
  rcases isWhole_or_exists depth marks with hWhole | ⟨front, back, rfl, hFront, hDepth⟩
  · exact ⟨_, [], fun part => partsFrom_of_isWhole hWhole part⟩
  · refine ⟨toText front, partsFrom 0 [] back, fun part => ?_⟩
    rw [partsFrom_append hFront, hDepth, partsFrom_comma, List.reverse_append, List.reverse_reverse]

/-- Nothing but the commas between them is missing from the pieces. -/
theorem join_partsFrom (marks : List Marked) :
    Text.join [','] (partsFrom 0 [] marks) = toText marks := by
  induction marks using pieces_induction with
  | whole marks hWhole =>
    rw [partsFrom_of_isWhole hWhole, Text.join_singleton]
    rfl
  | cut front back hFront hLevel ih =>
    obtain ⟨first, more, hMore⟩ := exists_partsFrom 0 back
    rw [partsFrom_append_comma hFront hLevel, hMore [], Text.join_cons_cons, ← hMore [], ih,
      Marked.toText_append, Marked.toText_cons, List.append_assoc]
    rfl

end Pieces

/-! ## Entries -/

/-- An entry as a list is split into it: trimmed, without comments, and with no comma of code outside
its brackets. -/
structure IsPart (p : Text) : Prop where
  ne_nil : p ≠ []
  trimmed : Text.trim p = p
  clean : ∀ m ∈ ofText p, m.cls ≠ .comment
  whole : IsWhole 0 (ofText p)

/-- An entry that ends wherever a comma stands behind it. -/
structure IsClosedPart (p : Text) : Prop extends IsPart p where
  level : rise (ofText p) = 0
  ended : ∀ rest, ofText (p ++ ',' :: rest) = ofText p ++ comma :: ofText rest

/-- The entries of a list: all but the last are closed. -/
inductive IsParts : List Text → Prop
  | nil : IsParts []
  | last {p : Text} (h : IsPart p) : IsParts [p]
  | cons {p : Text} {parts : List Text} (h : IsClosedPart p) (hRest : IsParts parts) :
      IsParts (p :: parts)

section Entries

variable {p : Text} {parts : List Text}

theorem IsPart.splitTopLevel_eq (h : IsPart p) : splitTopLevel p = [p] := by
  have hText : toText (ofText p) = p := Marked.toText_scan .code p
  rw [splitTopLevel, blankComments_eq_self h.clean, partsFrom_of_isWhole h.whole, hText,
    List.reverse_nil, List.nil_append, List.map_singleton, h.trimmed]
  exact List.filter_cons_of_pos (by simpa using h.ne_nil)

theorem IsClosedPart.splitTopLevel_append (h : IsClosedPart p) (rest : Text) :
    splitTopLevel (p ++ ',' :: rest) = p :: splitTopLevel rest := by
  have hText : toText (ofText p) = p := Marked.toText_scan .code p
  rw [splitTopLevel, h.ended, blankComments_append_cons (by simp [comma]),
    blankComments_eq_self h.clean, partsFrom_append_comma h.whole h.level, hText, List.map_cons,
    h.trimmed, List.filter_cons_of_pos (by simpa using h.ne_nil), splitTopLevel]

theorem splitTopLevel_space (rest : Text) : splitTopLevel (' ' :: rest) = splitTopLevel rest := by
  obtain ⟨first, more, hMore⟩ := exists_partsFrom 0 (blankComments false (ofText rest))
  have hTrim : Text.trim ([' '] ++ first) = Text.trim first := by
    rw [Text.trim, Text.trimStart_append_of_blank (by decide), Text.trim]
  have hLevel : (0 : Int) + rise [⟨' ', .code⟩] = 0 := by decide
  rw [splitTopLevel, ofText_plain (by decide), Marked.blankComments_of_not_comment (by simp),
    partsFrom_cons (by simp [comma]), hLevel, hMore, List.reverse_singleton, List.map_cons, hTrim,
    splitTopLevel, hMore]
  rfl

theorem IsParts.isPart (h : IsParts parts) : ∀ p ∈ parts, IsPart p := by
  induction h with
  | nil => simp
  | last h => simpa using h
  | cons h _ ih => exact List.forall_mem_cons.mpr ⟨h.toIsPart, ih⟩

theorem splitTopLevel_nil : splitTopLevel [] = [] := by
  decide

/-- A list that is joined from its entries is split into them. -/
theorem IsParts.splitTopLevel_join (h : IsParts parts) :
    splitTopLevel (Text.join ", ".toList parts) = parts := by
  induction h with
  | nil => exact splitTopLevel_nil
  | last h =>
    rw [Text.join_singleton]
    exact h.splitTopLevel_eq
  | @cons p parts h hRest ih =>
    cases parts with
    | nil =>
      rw [Text.join_singleton]
      exact h.splitTopLevel_eq
    | cons q parts =>
      have hText : Text.join ", ".toList (p :: q :: parts) =
          p ++ ',' :: ' ' :: Text.join ", ".toList (q :: parts) := by
        rw [Text.join_cons_cons, List.append_assoc]
        rfl
      rw [hText, h.splitTopLevel_append, splitTopLevel_space, ih]

end Entries

/-! ## Trimming a piece -/

theorem isApart_append_of_isAllBlank {gap t : Text} (hGap : Text.isAllBlank gap = true)
    (ht : Marked.IsApart t) : Marked.IsApart (gap ++ t) := by
  cases gap with
  | nil => exact ht
  | cons c gap =>
    rw [Text.isAllBlank, List.all_cons, Bool.and_eq_true] at hGap
    refine ⟨fun hHead => ?_, fun hHead => ?_⟩
    · obtain rfl := Option.some.inj hHead
      exact absurd hGap.1 (by decide)
    · obtain rfl := Option.some.inj hHead
      exact absurd hGap.1 (by decide)

/-- A comma behind white space is code only if the white space is reached in code. -/
theorem eq_code_of_scan {state : Marked.State} (hState : state.IsQuoted) {gap rest : Text}
    {marks back : List Marked} (hGap : Text.isAllBlank gap = true) (hText : toText marks = gap)
    (hClean : ∀ m ∈ marks, m.cls ≠ .comment)
    (h : Marked.scan state (gap ++ ',' :: rest) = marks ++ comma :: back) : state = .code := by
  induction gap generalizing state marks with
  | nil =>
    obtain rfl := List.map_eq_nil_iff.mp hText
    cases state with
    | code => rfl
    | inString | escaped | inLine | inBlock => simp [Marked.scan, comma] at h
  | cons c gap ih =>
    obtain ⟨m, marks, rfl, rfl, hMarks⟩ := List.map_eq_cons_iff.mp hText
    obtain ⟨hm, hMarksClean⟩ := List.forall_mem_cons.mp hClean
    rw [Text.isAllBlank, List.all_cons, Bool.and_eq_true] at hGap
    rw [List.cons_append, List.cons_append] at h
    cases state with
    | code => rfl
    | inString quote =>
      have hQuote : isBlank quote = false := by
        simp only [Marked.State.IsQuoted, isQuote, Bool.or_eq_true, decide_eq_true_eq] at hState
        rcases hState with (rfl | rfl) | rfl <;> decide
      rw [Marked.scan, if_neg (ne_of_isBlank hGap.1 (by decide)),
        if_neg (ne_of_isBlank hGap.1 hQuote)] at h
      cases ih hState hGap.2 hMarks hMarksClean (List.cons.inj h).2
    | escaped quote =>
      rw [Marked.scan] at h
      have hInside : Marked.State.IsQuoted (.inString quote) := hState
      cases ih hInside hGap.2 hMarks hMarksClean (List.cons.inj h).2
    | inLine =>
      rw [Marked.scan] at h
      exact absurd (congrArg Marked.cls (List.cons.inj h).1).symm hm
    | inBlock =>
      rw [Marked.scan_inBlock_cons fun hStar => absurd hStar (ne_of_isBlank hGap.1 (by decide))] at h
      exact absurd (congrArg Marked.cls (List.cons.inj h).1).symm hm

theorem IsWhole.of_append {lead marks tail : List Marked} (h : IsWhole 0 (lead ++ (marks ++ tail)))
    (hLead : rise lead = 0) : IsWhole 0 marks := by
  intro front back hSplit
  have hFront := h (lead ++ front) (back ++ tail) (by simp [hSplit])
  rwa [rise_append, hLead, Int.zero_add] at hFront

/-- What is trimmed from a text is read as white space in front and from some state behind. -/
theorem exists_ofText_trim (s : Text) :
    ∃ lead gap next, rise lead = 0 ∧ Text.isAllBlank gap = true ∧ Marked.State.IsQuoted next ∧
      ∀ t, Marked.IsApart t →
        ofText (Text.trim s ++ t) = ofText (Text.trim s) ++ Marked.scan next t ∧
        ofText (s ++ t) = lead ++ (ofText (Text.trim s) ++ Marked.scan next (gap ++ t)) := by
  have hLead := Text.all_leadingBlank s
  obtain ⟨gap, hGap, hSplit⟩ := Text.exists_trimEnd_append (Text.trimStart s)
  obtain ⟨next, hQuoted, hNext⟩ := Marked.exists_scan_append .code trivial (Text.trim s)
  have hText : Text.leadingBlank s ++ (Text.trim s ++ gap) = s := by
    rw [Text.trim, ← hSplit, Text.leadingBlank_append_trimStart]
  refine ⟨(Text.leadingBlank s).map (⟨·, .code⟩), gap, next, rise_of_isAllBlank ?_, hGap, hQuoted,
    fun t ht => ⟨hNext t ht, ?_⟩⟩
  · rwa [toText, List.map_map, Function.comp_def, List.map_id'']
    exact fun _ => rfl
  · conv_lhs => rw [← hText]
    rw [List.append_assoc, List.append_assoc, ofText_append_of_isAllBlank hLead]
    exact congrArg _ (hNext _ (isApart_append_of_isAllBlank hGap ht))

section Trimmed

variable {s : Text}

theorem isPart_trim (hNonempty : Text.trim s ≠ []) (hClean : ∀ m ∈ ofText s, m.cls ≠ .comment)
    (hWhole : IsWhole 0 (ofText s)) : IsPart (Text.trim s) := by
  obtain ⟨lead, gap, next, hLead, hGap, -, hRead⟩ := exists_ofText_trim s
  obtain ⟨-, hMarks⟩ := hRead [] ⟨by simp, by simp⟩
  rw [List.append_nil] at hMarks
  rw [hMarks] at hClean hWhole
  exact ⟨hNonempty, Text.trim_trim s, fun m hm => hClean m (by simp [hm]), hWhole.of_append hLead⟩

theorem isClosedPart_trim (hNonempty : Text.trim s ≠ [])
    (hClean : ∀ m ∈ ofText s, m.cls ≠ .comment) (hWhole : IsWhole 0 (ofText s))
    (hLevel : rise (ofText s) = 0) {rest : Text}
    (hEnded : ofText (s ++ ',' :: rest) = ofText s ++ comma :: ofText rest) :
    IsClosedPart (Text.trim s) := by
  have hComma (t : Text) : Marked.IsApart (',' :: t) := ⟨by simp, by simp⟩
  obtain ⟨lead, gap, next, hLead, hGap, hQuoted, hRead⟩ := exists_ofText_trim s
  obtain ⟨-, hMarks⟩ := hRead [] ⟨by simp, by simp⟩
  obtain ⟨-, hBehind⟩ := hRead _ (hComma rest)
  rw [List.append_nil, List.append_nil] at hMarks
  have hGapText : toText (Marked.scan next gap) = gap := Marked.toText_scan next gap
  have hGapClean : ∀ m ∈ Marked.scan next gap, m.cls ≠ .comment := fun m hm =>
    hClean m (by simp [hMarks, hm])
  have hScan : Marked.scan next (gap ++ ',' :: rest) = Marked.scan next gap ++ comma :: ofText rest := by
    rw [hBehind, hMarks, List.append_assoc, List.append_assoc] at hEnded
    exact List.append_cancel_left (List.append_cancel_left hEnded)
  obtain rfl := eq_code_of_scan hQuoted hGap hGapText hGapClean hScan
  refine ⟨isPart_trim hNonempty hClean hWhole, ?_, fun t => ?_⟩
  · have hGapLevel : rise (Marked.scan .code gap) = 0 :=
      rise_of_isAllBlank (by rw [hGapText]; exact hGap)
    rw [hMarks, rise_append, rise_append, hLead, hGapLevel] at hLevel
    omega
  · rw [(hRead _ (hComma t)).1]
    exact congrArg _ (ofText_cons (by decide) (by decide) t)

end Trimmed

/-! ## Lists -/

/-- The trimmed pieces of marks without comments are entries, the empty ones left out. -/
theorem isParts_partsFrom {marks : List Marked} (hRead : ofText (toText marks) = marks)
    (hClean : ∀ m ∈ marks, m.cls ≠ .comment) :
    IsParts (((partsFrom 0 [] marks).map Text.trim).filter (!·.isEmpty)) := by
  induction marks using pieces_induction with
  | whole marks hWhole =>
    rw [partsFrom_of_isWhole hWhole, List.reverse_nil, List.nil_append, List.map_singleton]
    by_cases hEmpty : Text.trim (toText marks) = []
    · rw [hEmpty]
      exact .nil
    · rw [List.filter_cons_of_pos (by simpa using hEmpty)]
      exact .last (isPart_trim hEmpty (hRead.symm ▸ hClean) (hRead.symm ▸ hWhole))
  | cut front back hFront hLevel ih =>
    obtain ⟨hReadFront, hReadBack⟩ := Marked.scan_of_append_code rfl hRead
    have hBack := ih hReadBack fun m hm => hClean m (by simp [hm])
    rw [partsFrom_append_comma hFront hLevel, List.map_cons]
    by_cases hEmpty : Text.trim (toText front) = []
    · rwa [hEmpty, List.filter_cons_of_neg (by simp)]
    · rw [List.filter_cons_of_pos (by simpa using hEmpty)]
      have hMarks : ofText (toText front) = front := hReadFront
      have hEnded : ofText (toText front ++ ',' :: toText back) =
          ofText (toText front) ++ comma :: ofText (toText back) := by
        rw [hMarks, hReadBack, ← hRead, Marked.toText_append, Marked.toText_cons]
        rfl
      refine .cons (isClosedPart_trim hEmpty ?_ ?_ ?_ hEnded) hBack
      · rw [hMarks]
        exact fun m hm => hClean m (by simp [hm])
      · rwa [hMarks]
      · rwa [hMarks]

theorem isParts_splitTopLevel (source : Text) : IsParts (splitTopLevel source) :=
  isParts_partsFrom (ofText_uncommented source) fun _ => Marked.not_comment_of_mem_blankComments

/-- A list is split, whatever stands in it, into the pieces between commas of its text without
comments, trimmed and without the empty ones: at the commas outside all brackets, and at no others.
Each piece is split into itself, and a list that is joined from them into all of them. -/
theorem splitTopLevel_isStable (source : Text) :
    (∃ pieces, Text.join [','] pieces = uncommented source ∧
      splitTopLevel source = (pieces.map Text.trim).filter (!·.isEmpty)) ∧
    IsParts (splitTopLevel source) ∧
    (∀ part ∈ splitTopLevel source, part ≠ [] ∧ Text.trim part = part ∧
      (∀ m ∈ ofText part, m.cls ≠ .comment) ∧ splitTopLevel part = [part]) ∧
    splitTopLevel (Text.join ", ".toList (splitTopLevel source)) = splitTopLevel source := by
  have hParts := isParts_splitTopLevel source
  refine ⟨⟨_, join_partsFrom _, rfl⟩, hParts, fun part hPart => ?_, hParts.splitTopLevel_join⟩
  have h := hParts.isPart part hPart
  exact ⟨h.ne_nil, h.trimmed, h.clean, h.splitTopLevel_eq⟩

/-- A comment between slashes, a bracket that is never closed and a string without an end. -/
example : splitTopLevel "a, /b /* , */ / c, (d, 'e,  ".toList =
    ["a".toList, "/b   / c".toList, "(d, 'e,".toList] := by
  decide

end Theme

end DesignParams
