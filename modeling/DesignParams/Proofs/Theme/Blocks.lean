import DesignParams.Proofs.Text.Occurrence
import DesignParams.Proofs.Text.Slug
import DesignParams.Proofs.Theme.Member

/-!
# Reading sections back

A section is found where its key stands, and no printed member holds the key of a section. So the
search passes over every other section and finds the bodies of its own, one after the other.
-/
set_option autoImplicit false

namespace DesignParams

namespace Section

theorem key_injective : key.Injective := by
  intro s t h
  revert h
  cases s <;> cases t <;> decide

theorem key_ne_nil (s : Section) : s.key ≠ [] := by
  cases s <;> decide

theorem not_mem_key (s : Section) {c : Char} (h : isAsciiLetter c = false) : c ∉ s.key := by
  have hLetters : s.key.all isAsciiLetter = true := by cases s <;> decide
  intro hMem
  rw [List.all_eq_true.mp hLetters c hMem] at h
  cases h

/-! ## The search -/

theorem opening?_eq_none {key s : Text} (h : ¬ key <+: s) (before : Option Char) :
    opening? key before s = none := by
  have hAfter : Text.after? key s = none := by
    rw [Option.eq_none_iff_forall_ne_some]
    intro rest hRest
    exact h ⟨rest, (Text.append_of_after? hRest).symm⟩
  rw [opening?, hAfter]
  split <;> rfl

theorem blocksFrom_append_cons (s : Section) {part : Text} (hPart : ¬ s.key <:+: part) {c : Char}
    (hc : isAsciiLetter c = false) (before : Option Char) (rest : Text) :
    blocksFrom s.key before (part ++ c :: rest) = blocksFrom s.key (some c) rest := by
  -- No key begins in the part and ends behind it, since keys are letters.
  have hPrefix {part : Text} (h : ¬ s.key <+: part) : ¬ s.key <+: part ++ c :: rest := by
    refine mt (Text.prefix_append_iff fun d hd => ?_).mp h
    obtain rfl : c = d := by simpa using hd
    exact s.not_mem_key hc
  induction part generalizing before with
  | nil =>
    have hNone := opening?_eq_none (hPrefix (mt List.prefix_nil.mp s.key_ne_nil)) before
    rw [List.nil_append] at hNone ⊢
    rw [blocksFrom]
    split
    · rfl
    · rename_i hOpen
      rw [hNone] at hOpen
      cases hOpen
  | cons d part ih =>
    rw [List.infix_cons_iff, not_or] at hPart
    have hNone := opening?_eq_none (hPrefix hPart.1) before
    rw [List.cons_append] at hNone ⊢
    rw [blocksFrom]
    split
    · exact ih hPart.2 (some d)
    · rename_i hOpen
      rw [hNone] at hOpen
      cases hOpen

theorem blocksFrom_cons (s : Section) {c : Char} (hc : isAsciiLetter c = false)
    (before : Option Char) (rest : Text) :
    blocksFrom s.key before (c :: rest) = blocksFrom s.key (some c) rest :=
  s.blocksFrom_append_cons (mt List.infix_nil.mp s.key_ne_nil) hc before rest

theorem opening?_assignment (s : Section) {before : Option Char}
    (hBefore : before.any isWordChar = false) (inside : Text) :
    opening? s.key before (s.key ++ ':' :: ' ' :: '\x7B' :: inside) = some inside := by
  have hWord : isWordChar ':' = false := by decide
  have hObject : objectBody? (':' :: ' ' :: '\x7B' :: inside) = some inside := by
    have hColon : Text.trimStart (':' :: ' ' :: '\x7B' :: inside) = ':' :: ' ' :: '\x7B' :: inside :=
      List.dropWhile_cons_of_neg (by decide)
    have hBrace : Text.trimStart (' ' :: '\x7B' :: inside) = '\x7B' :: inside :=
      (List.dropWhile_cons_of_pos (by decide)).trans (List.dropWhile_cons_of_neg (by decide))
    rw [objectBody?, hColon]
    simp only [hBrace]
  rw [opening?, hBefore, Text.after?_append]
  simp [hWord, dropQuote, hObject]

/-- A block under the key is found, unless it is blank, and the search goes on behind it. -/
theorem blocksFrom_assignment (s : Section) {before : Option Char}
    (hBefore : before.any isWordChar = false) {inside : Text} (hInside : Theme.IsClosed inside)
    (hPart : ¬ s.key <:+: inside) (rest : Text) :
    blocksFrom s.key before (s.key ++ ':' :: ' ' :: '\x7B' :: (inside ++ '\x7D' :: rest)) =
      (if Text.isAllBlank inside then [] else [inside]) ++ blocksFrom s.key (some '\x7D') rest := by
  have hOpen := s.opening?_assignment hBefore (inside ++ '\x7D' :: rest)
  have hBlock := Theme.bracedBlock?_braced hInside rest
  generalize hText : s.key ++ ':' :: ' ' :: '\x7B' :: (inside ++ '\x7D' :: rest) = text at hOpen
  cases text with
  | nil => simp at hText
  | cons c text =>
    rw [blocksFrom]
    split
    · rename_i hNone
      rw [hNone] at hOpen
      cases hOpen
    · rename_i found hFound
      obtain rfl : found = inside ++ '\x7D' :: rest := Option.some.inj (hFound.symm.trans hOpen)
      split
      · rename_i hNone
        rw [hNone] at hBlock
        cases hBlock
      · rename_i inner behind hSome
        rw [hSome, Option.some.injEq, Prod.mk.injEq] at hBlock
        obtain ⟨rfl, rfl⟩ := hBlock
        split
        · exact s.blocksFrom_append_cons hPart (by decide) _ _
        · rfl

end Section

namespace Theme

/-! ## Printed members hold no key -/

section Lacks

variable (s : Section)

theorem not_infix_append_cons {part rest : Text} {c : Char} (hc : isAsciiLetter c = false)
    (hPart : ¬ s.key <:+: part) (hRest : ¬ s.key <:+: rest) : ¬ s.key <:+: part ++ c :: rest := by
  rw [Text.infix_append_cons_iff (s.not_mem_key hc), not_or]
  exact ⟨hPart, hRest⟩

theorem not_infix_nil : ¬ s.key <:+: [] :=
  mt List.infix_nil.mp s.key_ne_nil

theorem not_infix_cons {rest : Text} {c : Char} (hc : isAsciiLetter c = false)
    (hRest : ¬ s.key <:+: rest) : ¬ s.key <:+: c :: rest :=
  not_infix_append_cons s hc (not_infix_nil s) hRest

theorem not_infix_quoted (l : Literal) : ¬ s.key <:+: quoted l :=
  not_infix_cons s (by decide)
    (not_infix_append_cons s (by decide) (l.not_infix s) (not_infix_nil s))

theorem not_infix_assignment {key value : Text} (hKey : ¬ s.key <:+: key)
    (hValue : ¬ s.key <:+: value) : ¬ s.key <:+: assignment key value :=
  not_infix_append_cons s (by decide) hKey (not_infix_cons s (by decide) hValue)

theorem not_infix_body {members : List Text} (h : ∀ e ∈ members, ¬ s.key <:+: e) :
    ¬ s.key <:+: body members := by
  refine not_infix_cons s (by decide) ?_
  induction members with
  | nil => exact not_infix_cons s (by decide) (not_infix_nil s)
  | cons e members ih =>
    obtain ⟨he, hMembers⟩ := List.forall_mem_cons.mp h
    cases members with
    | nil =>
      rw [Text.join_singleton]
      exact not_infix_append_cons s (by decide) he (not_infix_nil s)
    | cons e' members =>
      rw [Text.join_cons_cons, List.append_assoc, List.append_assoc]
      exact not_infix_append_cons s (by decide) he (not_infix_cons s (by decide) (ih hMembers))

theorem not_infix_object {members : List Text} (h : ∀ e ∈ members, ¬ s.key <:+: e) :
    ¬ s.key <:+: object members :=
  not_infix_cons s (by decide)
    (not_infix_append_cons s (by decide) (not_infix_body s h) (not_infix_nil s))

theorem not_infix_printLeaf (l : Leaf) : ¬ s.key <:+: printLeaf l :=
  not_infix_assignment s (not_infix_quoted s l.key) (not_infix_quoted s l.value)

theorem not_infix_of_mem_table {table : Table} {e : Text} (h : e ∈ table.map printMember) :
    ¬ s.key <:+: e := by
  obtain ⟨m, -, rfl⟩ := List.mem_map.mp h
  cases m with
  | leaf l => exact not_infix_printLeaf s l
  | group key leaves =>
    refine not_infix_assignment s (not_infix_quoted s key) (not_infix_object s fun e he => ?_)
    obtain ⟨l, -, rfl⟩ := List.mem_map.mp he
    exact not_infix_printLeaf s l

end Lacks

/-! ## The sections of a printed theme -/

theorem isAllBlank_body_iff {members : List Text} (h : ∀ e ∈ members, IsMember e) :
    Text.isAllBlank (body members) = true ↔ members = [] := by
  constructor
  · intro hBlank
    cases members with
    | nil => rfl
    | cons e members =>
      have he := h e List.mem_cons_self
      have hSubset : e ⊆ body (e :: members) := by
        have hPrefix := (Text.prefix_join ", ".toList e members).trans (List.prefix_append _ [' '])
        exact fun c hc => List.mem_cons_of_mem ' ' (hPrefix.subset hc)
      have hStart : Text.trimStart e = [] :=
        List.dropWhile_eq_nil_iff.mpr fun c hc => List.all_eq_true.mp hBlank c (hSubset hc)
      refine absurd ?_ he.ne_nil
      rw [← he.trimmed, Text.trim, hStart]
      rfl
  · rintro rfl
    decide

theorem flatMap_blocksFrom_printSection (s : Section) (t : Section × Table) (rest : Text) :
    (Section.blocksFrom s.key (some ' ') (printSection t ++ rest)).flatMap (blockEntries s) =
      (if t.1 = s then t.2.flatMap (memberEntries s) else []) ++
        (Section.blocksFrom s.key (some '\x7D') rest).flatMap (blockEntries s) := by
  have hMembers : ∀ e ∈ t.2.map printMember, IsMember e := fun e => isMember_of_mem_table
  have hBody := not_infix_body s fun e (he : e ∈ t.2.map printMember) =>
    not_infix_of_mem_table s he
  by_cases hSection : t.1 = s
  · have hText : printSection t ++ rest =
        s.key ++ ':' :: ' ' :: '\x7B' :: (body (t.2.map printMember) ++ '\x7D' :: rest) := by
      simp [printSection, assignment, object, hSection]
    rw [hText, s.blocksFrom_assignment (by decide) (isClosed_body hMembers) hBody, if_pos hSection,
      List.flatMap_append]
    congr 1
    split
    · rename_i hBlank
      rw [List.map_eq_nil_iff.mp ((isAllBlank_body_iff hMembers).mp hBlank)]
      rfl
    · rw [List.flatMap_singleton, blockEntries_body]
  · have hText : printSection t ++ rest =
        t.1.key ++ ':' :: ' ' :: '\x7B' :: (body (t.2.map printMember) ++ '\x7D' :: rest) := by
      simp [printSection, assignment, object]
    have hKey : ¬ s.key <:+: t.1.key := by
      have hDistinct : ∀ a ∈ Section.all, ∀ b ∈ Section.all, a ≠ b → ¬ b.key <:+: a.key := by decide
      exact hDistinct t.1 (by cases t.1 <;> decide) s (by cases s <;> decide) hSection
    -- The other key is passed over, then its colon, the brace, and what stands inside.
    rw [hText, s.blocksFrom_append_cons hKey (by decide), s.blocksFrom_cons (by decide),
      s.blocksFrom_cons (by decide), s.blocksFrom_append_cons hBody (by decide), if_neg hSection,
      List.nil_append]

theorem flatMap_blocksFrom_join (s : Section) (theme : List (Section × Table)) :
    (Section.blocksFrom s.key (some ' ')
        (Text.join ", ".toList (theme.map printSection) ++ " \x7D".toList)).flatMap
      (blockEntries s) =
      (theme.filter (·.1 = s)).flatMap fun t => t.2.flatMap (memberEntries s) := by
  have hEnd (before : Option Char) : Section.blocksFrom s.key before " \x7D".toList = [] := by
    refine (s.blocksFrom_cons (by decide) before _).trans ?_
    refine (s.blocksFrom_cons (by decide) _ _).trans ?_
    rw [Section.blocksFrom]
  have hFilter (t : Section × Table) (theme : List (Section × Table)) :
      ((t :: theme).filter (·.1 = s)).flatMap (fun t => t.2.flatMap (memberEntries s)) =
        (if t.1 = s then t.2.flatMap (memberEntries s) else []) ++
          (theme.filter (·.1 = s)).flatMap fun t => t.2.flatMap (memberEntries s) := by
    by_cases hSection : t.1 = s
    · simp [hSection]
    · simp [hSection]
  induction theme with
  | nil => exact congrArg _ (hEnd (some ' '))
  | cons t theme ih =>
    rw [hFilter]
    cases theme with
    | nil =>
      rw [List.map_singleton, Text.join_singleton, flatMap_blocksFrom_printSection, hEnd]
      rfl
    | cons t' theme =>
      rw [List.map_cons, List.map_cons, Text.join_cons_cons, List.append_assoc, List.append_assoc,
        flatMap_blocksFrom_printSection, ← ih]
      congr 2
      refine (s.blocksFrom_cons (by decide) _ _).trans ?_
      exact s.blocksFrom_cons (by decide) _ _

theorem allEntries_print (theme : List (Section × Table)) :
    allEntries (print theme) = entries theme := by
  refine List.flatMap_congr fun s _ => ?_
  have hText : print theme =
      '\x7B' :: ' ' :: (Text.join ", ".toList (theme.map printSection) ++ " \x7D".toList) := by
    simp [print, object, body]
  rw [Section.blocks, hText, s.blocksFrom_cons (by decide), s.blocksFrom_cons (by decide),
    flatMap_blocksFrom_join]

/-! ## The scan of a printed theme -/

theorem map_source_named {β : Type} (f : Source → β) (file : Path) (bases : List Text)
    (l : List Entry) :
    (named file bases l).map (fun p => f p.source) =
      l.map fun e => f (parameter file e []).source := by
  induction l generalizing bases with
  | nil => rfl
  | cons e l ih =>
    rw [named, List.map_cons, List.map_cons, ih]
    rfl

/-- Nothing of an entry is lost in its parameter. -/
theorem named_injective (file : Path) (bases : List Text) : (named file bases).Injective := by
  intro l l' h
  have hSources (l : List Entry) : (named file bases l).map
      (fun p => (p.source.property, p.source.selector, p.source.value)) =
        l.map fun e => ("tailwind.".toList ++ e.inSection.key, some e.key, e.value) :=
    map_source_named (fun s => (s.property, s.selector, s.value)) file bases l
  have hSame := hSources l
  rw [h, hSources l'] at hSame
  refine List.map_injective_iff.mpr ?_ hSame.symm
  rintro ⟨s, key, value⟩ ⟨s', key', value'⟩ hEntry
  simp only [Prod.mk.injEq, List.append_cancel_left_eq, Option.some.injEq] at hEntry
  obtain ⟨hSection, rfl, rfl⟩ := hEntry
  rw [Section.key_injective hSection]

/-- A scan reads a printed theme back: the first entry of each key in its section, in order and up
to the limit. -/
theorem scan_print (theme : List (Section × Table)) (file : Path) (limit : Nat) :
    (scan (print theme) file limit).map
        (fun p => (p.source.property, p.source.selector, p.source.value)) =
      ((firsts (fun e => (e.inSection, e.key)) (entries theme)).take limit).map
        fun e => ("tailwind.".toList ++ e.inSection.key, some e.key, e.value) := by
  rw [scan_eq_take, allEntries_print, distinct_eq_unseen, unseen_nil_left, List.map_take,
    map_source_named fun s => (s.property, s.selector, s.value), ← List.map_take]
  rfl

end Theme

end DesignParams
