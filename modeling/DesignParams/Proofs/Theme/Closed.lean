import DesignParams.Theme.Entry
import DesignParams.Proofs.Text.Blank
import DesignParams.Proofs.Text.Join

/-!
# Code that closes what it opens

A text is closed if every reader of object literals passes over it inside brackets: its strings and
brackets end in it. It is an entry if a reader passes over it outside brackets as well, since no
comma of it stands there.
-/
set_option autoImplicit false

namespace DesignParams

namespace Theme

/-- Do the readers of an object literal pass over the text inside brackets? -/
structure IsClosed (s : Text) : Prop where
  marked : ∀ rest, Marked.ofText (s ++ rest) = Marked.ofText s ++ Marked.ofText rest
  clean : ∀ m ∈ Marked.ofText s, m.cls ≠ .comment
  closing : ∀ (depth : Nat) (rest : List Marked), 1 ≤ depth →
    closingBrace? depth (Marked.ofText s ++ rest) =
      (closingBrace? depth rest).map (· + s.length)
  parts : ∀ (depth : Int) (part : Text) (rest : List Marked), 1 ≤ depth →
    partsFrom depth part (Marked.ofText s ++ rest) = partsFrom depth (s.reverse ++ part) rest

/-- Do they pass over it outside brackets as well? -/
structure IsEntry (s : Text) : Prop extends IsClosed s where
  whole : ∀ (part : Text) (rest : List Marked),
    partsFrom 0 part (Marked.ofText s ++ rest) = partsFrom 0 (s.reverse ++ part) rest

theorem length_ofText (s : Text) : (Marked.ofText s).length = s.length := by
  have h := congrArg List.length (Marked.toText_scan .code s)
  rwa [Marked.toText, List.length_map] at h

section Append

variable {s t : Text}

theorem IsClosed.append (hs : IsClosed s) (ht : IsClosed t) : IsClosed (s ++ t) where
  marked rest := by rw [List.append_assoc, hs.marked, ht.marked, hs.marked, List.append_assoc]
  clean m hm := by
    rw [hs.marked, List.mem_append] at hm
    cases hm with
    | inl hm => exact hs.clean m hm
    | inr hm => exact ht.clean m hm
  closing depth rest hDepth := by
    rw [hs.marked, List.append_assoc, hs.closing depth _ hDepth, ht.closing depth _ hDepth,
      Option.map_map, List.length_append]
    congr 1
    funext n
    simp only [Function.comp_apply]
    omega
  parts depth part rest hDepth := by
    rw [hs.marked, List.append_assoc, hs.parts depth _ _ hDepth, ht.parts depth _ _ hDepth,
      List.reverse_append, List.append_assoc]

theorem IsEntry.append (hs : IsEntry s) (ht : IsEntry t) : IsEntry (s ++ t) where
  toIsClosed := hs.toIsClosed.append ht.toIsClosed
  whole part rest := by
    rw [hs.marked, List.append_assoc, hs.whole, ht.whole, List.reverse_append, List.append_assoc]

end Append

/-! ## Strings -/

/-- Marks that are no code are passed over. -/
theorem closingBrace?_append_of_not_code {marks : List Marked}
    (h : ∀ m ∈ marks, m.cls = .string) (depth : Nat) (rest : List Marked) :
    closingBrace? depth (marks ++ rest) = (closingBrace? depth rest).map (· + marks.length) := by
  induction marks with
  | nil => simp
  | cons m marks ih =>
    obtain ⟨hm, hMarks⟩ := List.forall_mem_cons.mp h
    have hCode (c : Char) : m.isCode c = false := by simp [Marked.isCode, hm]
    rw [List.cons_append, closingBrace?, hCode, hCode]
    simp only [Bool.false_eq_true, false_and, if_false]
    rw [ih hMarks, Option.map_map, List.length_cons]
    congr 1

theorem partsFrom_append_of_not_code {marks : List Marked}
    (h : ∀ m ∈ marks, m.cls = .string) (depth : Int) (part : Text) (rest : List Marked) :
    partsFrom depth part (marks ++ rest) =
      partsFrom depth ((Marked.toText marks).reverse ++ part) rest := by
  induction marks generalizing part with
  | nil => rfl
  | cons m marks ih =>
    obtain ⟨hm, hMarks⟩ := List.forall_mem_cons.mp h
    rw [List.cons_append, partsFrom, if_neg (by rw [hm]; decide), ih hMarks, Marked.toText,
      Marked.toText, List.map_cons, List.reverse_cons, List.append_assoc]
    rfl

theorem topColon?_append_of_not_code {marks : List Marked}
    (h : ∀ m ∈ marks, m.cls = .string) (rest : List Marked) :
    topColon? 0 (marks ++ rest) = (topColon? 0 rest).map (· + marks.length) := by
  induction marks with
  | nil => simp
  | cons m marks ih =>
    obtain ⟨hm, hMarks⟩ := List.forall_mem_cons.mp h
    have hCode : m.isCode ':' = false := by simp [Marked.isCode, hm]
    rw [List.cons_append, topColon?, hCode, if_neg (by simp), if_neg (by rw [hm]; decide),
      ih hMarks, Option.map_map, List.length_cons]
    congr 1

theorem scan_inString {s : Text} (hQuote : '"' ∉ s) (hBackslash : '\\' ∉ s) (rest : Text) :
    Marked.scan (.inString '"') (s ++ '"' :: rest) =
      (s ++ ['"']).map (⟨·, .string⟩) ++ Marked.ofText rest := by
  induction s with
  | nil => rfl
  | cons c s ih =>
    rw [List.mem_cons, not_or] at hQuote hBackslash
    rw [List.cons_append, Marked.scan, if_neg (Ne.symm hBackslash.1), if_neg (Ne.symm hQuote.1),
      ih hQuote.2 hBackslash.2]
    rfl

theorem ofText_quoted {s : Text} (hQuote : '"' ∉ s) (hBackslash : '\\' ∉ s) (rest : Text) :
    Marked.ofText ('"' :: (s ++ ['"']) ++ rest) =
      ('"' :: (s ++ ['"'])).map (⟨·, .string⟩) ++ Marked.ofText rest := by
  have hOpen : Marked.ofText ('"' :: (s ++ '"' :: rest)) =
      ⟨'"', .string⟩ :: Marked.scan (.inString '"') (s ++ '"' :: rest) := rfl
  rw [List.cons_append, List.append_assoc, List.singleton_append, hOpen,
    scan_inString hQuote hBackslash]
  rfl

theorem isEntry_quoted {s : Text} (hQuote : '"' ∉ s) (hBackslash : '\\' ∉ s) :
    IsEntry ('"' :: (s ++ ['"'])) := by
  have hMarks : Marked.ofText ('"' :: (s ++ ['"'])) =
      ('"' :: (s ++ ['"'])).map (⟨·, .string⟩) := by
    have h := ofText_quoted hQuote hBackslash []
    rwa [show Marked.ofText [] = [] from rfl, List.append_nil, List.append_nil] at h
  have hString : ∀ m ∈ Marked.ofText ('"' :: (s ++ ['"'])), m.cls = .string := by
    intro m hm
    rw [hMarks] at hm
    obtain ⟨c, -, rfl⟩ := List.mem_map.mp hm
    rfl
  have hText : Marked.toText (Marked.ofText ('"' :: (s ++ ['"']))) = '"' :: (s ++ ['"']) :=
    Marked.toText_scan .code _
  refine ⟨⟨fun rest => ?_, fun m hm => ?_, fun depth rest _ => ?_, fun depth part rest _ => ?_⟩,
    fun part rest => ?_⟩
  · rw [hMarks, ofText_quoted hQuote hBackslash]
  · rw [hString m hm]
    decide
  · rw [closingBrace?_append_of_not_code hString, length_ofText]
  · rw [partsFrom_append_of_not_code hString, hText]
  · rw [partsFrom_append_of_not_code hString, hText]

/-! ## Code -/

def isPlain (c : Char) : Bool :=
  !isQuote c && c != '/' && !(['\x7B', '\x7D', '[', ']', '(', ')'].contains c)

theorem ofText_cons {c : Char} (hQuote : isQuote c = false) (hSlash : c ≠ '/') (rest : Text) :
    Marked.ofText (c :: rest) = ⟨c, .code⟩ :: Marked.ofText rest := by
  rw [Marked.ofText, Marked.scan.eq_def]
  split <;> simp_all [Marked.ofText]

section Plain

variable {c : Char}

theorem ofText_plain (h : isPlain c = true) (rest : Text) :
    Marked.ofText (c :: rest) = ⟨c, .code⟩ :: Marked.ofText rest := by
  simp only [isPlain, Bool.and_eq_true, Bool.not_eq_true', bne_iff_ne] at h
  exact ofText_cons h.1.1 h.1.2 rest

theorem nest_plain (h : isPlain c = true) (depth : Int) : nest depth c = depth := by
  simp [isPlain] at h
  rw [nest, if_neg (by simp [h]), if_neg (by simp [h])]

theorem isClosed_plain (h : isPlain c = true) : IsClosed [c] := by
  have hMarks : Marked.ofText [c] = [⟨c, .code⟩] := ofText_plain h []
  have hBrace : c ≠ '\x7B' ∧ c ≠ '\x7D' := by
    simp [isPlain] at h
    exact ⟨h.2.1, h.2.2.1⟩
  refine ⟨fun rest => ?_, fun m hm => ?_, fun depth rest _ => ?_, fun depth part rest hDepth => ?_⟩
  · rw [hMarks, List.singleton_append, ofText_plain h]
    rfl
  · rw [hMarks, List.mem_singleton] at hm
    simp [hm]
  · rw [hMarks, List.singleton_append, closingBrace?]
    simp [Marked.isCode, hBrace]
  · have hTop : ¬ (c = ',' ∧ depth = 0) := by omega
    rw [hMarks, List.singleton_append, partsFrom, if_pos rfl, if_neg hTop, nest_plain h]
    rfl

theorem isEntry_plain (h : isPlain c = true) (hComma : c ≠ ',') : IsEntry [c] where
  toIsClosed := isClosed_plain h
  whole part rest := by
    have hMarks : Marked.ofText [c] = [⟨c, .code⟩] := ofText_plain h []
    have hTop : ¬ (c = ',' ∧ (0 : Int) = 0) := fun hBoth => hComma hBoth.1
    rw [hMarks, List.singleton_append, partsFrom, if_pos rfl, if_neg hTop, nest_plain h]
    rfl

end Plain

theorem isEntry_of_all {s : Text} (h : (s.all fun c => isPlain c && c != ',') = true) (hs : s ≠ []) :
    IsEntry s := by
  induction s with
  | nil => exact absurd rfl hs
  | cons c s ih =>
    rw [List.all_cons, Bool.and_eq_true, Bool.and_eq_true, bne_iff_ne] at h
    have hFirst := isEntry_plain h.1.1 h.1.2
    cases s with
    | nil => exact hFirst
    | cons d s => exact hFirst.append (ih h.2 (List.cons_ne_nil d s))

/-! ## Blocks -/

section Braced

variable {s : Text}

theorem ofText_braced (h : IsClosed s) (rest : Text) :
    Marked.ofText ('\x7B' :: (s ++ '\x7D' :: rest)) =
      ⟨'\x7B', .code⟩ :: (Marked.ofText s ++ ⟨'\x7D', .code⟩ :: Marked.ofText rest) := by
  rw [ofText_cons (by decide) (by decide), h.marked, ofText_cons (by decide) (by decide)]

theorem bracedBlock?_braced (h : IsClosed s) (rest : Text) :
    bracedBlock? ('\x7B' :: (s ++ '\x7D' :: rest)) = some (s, rest) := by
  have hClose : closingBrace? 1 (⟨'\x7D', .code⟩ :: Marked.ofText rest) = some 0 := by
    rw [closingBrace?, if_pos (by simp [Marked.isCode])]
  rw [bracedBlock?, h.marked, ofText_cons (by decide) (by decide), h.closing 1 _ (Nat.le_refl 1),
    hClose]
  simp

theorem isEntry_braced (h : IsClosed s) : IsEntry ('\x7B' :: (s ++ ['\x7D'])) := by
  have hMarks : Marked.ofText ('\x7B' :: (s ++ ['\x7D'])) =
      ⟨'\x7B', .code⟩ :: (Marked.ofText s ++ [⟨'\x7D', .code⟩]) := ofText_braced h []
  have hParts (depth : Int) (part : Text) (rest : List Marked) (hDepth : 0 ≤ depth) :
      partsFrom depth part (Marked.ofText ('\x7B' :: (s ++ ['\x7D'])) ++ rest) =
        partsFrom depth (('\x7B' :: (s ++ ['\x7D'])).reverse ++ part) rest := by
    -- The text between the braces is read one level deeper.
    have hOpen : nest depth '\x7B' = depth + 1 := rfl
    have hClose : nest (depth + 1) '\x7D' = depth := by simp [nest]
    rw [hMarks, List.cons_append, partsFrom, if_pos rfl, if_neg (by simp), hOpen, List.append_assoc,
      h.parts _ _ _ (by omega), List.singleton_append, partsFrom, if_pos rfl, if_neg (by simp),
      hClose]
    simp
  refine ⟨⟨fun rest => ?_, fun m hm => ?_, fun depth rest hDepth => ?_,
    fun depth part rest hDepth => hParts depth part rest (by omega)⟩,
    fun part rest => hParts 0 part rest (Int.le_refl 0)⟩
  · rw [hMarks, List.cons_append, List.append_assoc, List.singleton_append, ofText_braced h]
    simp
  · rw [hMarks, List.mem_cons, List.mem_append, List.mem_singleton] at hm
    rcases hm with rfl | hm | rfl
    · decide
    · exact h.clean m hm
    · decide
  · have hClose : closingBrace? (depth + 1) (⟨'\x7D', .code⟩ :: rest) =
        (closingBrace? depth rest).map (· + 1) := by
      rw [closingBrace?, if_neg (by simp [Marked.isCode]; omega)]
      simp [Marked.isCode]
    rw [hMarks, List.cons_append, closingBrace?, if_neg (by simp [Marked.isCode])]
    simp only [Marked.isCode, decide_true, Bool.true_and, if_true]
    rw [List.append_assoc, h.closing _ _ (by omega), List.singleton_append, hClose, Option.map_map,
      Option.map_map]
    congr 1
    funext n
    simp
    omega

end Braced

/-! ## Lists of entries -/

theorem isClosed_join {members : List Text} (h : ∀ e ∈ members, IsEntry e) :
    IsClosed (Text.join ", ".toList members ++ [' ']) := by
  have hBlank : IsClosed [' '] := isClosed_plain (by decide)
  induction members with
  | nil => exact hBlank
  | cons e members ih =>
    obtain ⟨he, hMembers⟩ := List.forall_mem_cons.mp h
    cases members with
    | nil =>
      rw [Text.join_singleton]
      exact he.toIsClosed.append hBlank
    | cons e' members =>
      rw [Text.join_cons_cons, List.append_assoc, List.append_assoc]
      have hComma : IsClosed [','] := isClosed_plain (by decide)
      exact he.toIsClosed.append ((hComma.append hBlank).append (ih hMembers))

theorem blankComments_eq_self {marks : List Marked} (h : ∀ m ∈ marks, m.cls ≠ .comment) :
    blankComments false marks = marks := by
  induction marks with
  | nil => rfl
  | cons m marks ih =>
    obtain ⟨hm, hMarks⟩ := List.forall_mem_cons.mp h
    rw [blankComments, if_neg hm, ih hMarks]

theorem map_trim_partsFrom {members : List Text} (h : ∀ e ∈ members, IsEntry e ∧ Text.trim e = e)
    (hNonempty : members ≠ []) {lead : Text} (hLead : lead.all isBlank = true) :
    (partsFrom 0 lead.reverse (Marked.ofText (Text.join ", ".toList members ++ [' ']))).map
      Text.trim = members := by
  have hBlank : ([' '] : Text).all isBlank = true := by decide
  -- In front of the first entry stands any white space, and in front of each other one a space.
  induction members generalizing lead with
  | nil => exact absurd rfl hNonempty
  | cons e members ih =>
    obtain ⟨⟨he, hTrim⟩, hMembers⟩ := List.forall_mem_cons.mp h
    cases members with
    | nil =>
      have hEnd : partsFrom 0 (e.reverse ++ lead.reverse) (Marked.ofText [' ']) =
          [lead ++ (e ++ [' '])] := by
        rw [ofText_plain (by decide), partsFrom, if_pos rfl, if_neg (by decide)]
        simp [Marked.ofText, Marked.scan, partsFrom]
      rw [Text.join_singleton, he.marked, he.whole, hEnd, List.map_singleton,
        Text.trim_append hLead hBlank hTrim]
    | cons e' members =>
      have hComma (rest : Text) : partsFrom 0 (e.reverse ++ lead.reverse)
          (Marked.ofText (',' :: ' ' :: rest)) =
            (lead ++ (e ++ [])) :: partsFrom 0 [' '].reverse (Marked.ofText rest) := by
        rw [ofText_plain (by decide), ofText_plain (by decide), partsFrom, if_pos rfl,
          if_pos ⟨rfl, rfl⟩, partsFrom, if_pos rfl, if_neg (by decide)]
        simp [nest]
      have hSplit : Text.join ", ".toList (e :: e' :: members) ++ [' '] =
          e ++ ',' :: ' ' :: (Text.join ", ".toList (e' :: members) ++ [' ']) := by
        rw [Text.join_cons_cons, List.append_assoc, List.append_assoc]
        rfl
      rw [hSplit, he.marked, he.whole, hComma, List.map_cons,
        ih hMembers (List.cons_ne_nil e' members) hBlank, Text.trim_append hLead rfl hTrim]

end Theme

end DesignParams
