import DesignParams.Proofs.Theme.Brace

/-!
# The search for sections

The blocks of a section stand one behind the other. Each is the block at the brace of a head, and a
head that begins outside all of them has none, or a blank one.
-/
set_option autoImplicit false

namespace DesignParams

namespace Section

/-- Where a block of a section stands: its head begins at `start`, and its braces are at `opening`
and `closing`. -/
structure Place where
  start : Nat
  opening : Nat
  closing : Nat
  body : Text
deriving DecidableEq, Repr

/-- Does a head of the section begin a word at `start` and end with the brace at `opening`? -/
def HeadAt (s : Section) (source : Text) (start opening : Nat) : Prop :=
  ∃ front head tail, source = front ++ (head ++ tail) ∧ Text.byteLength front = start ∧
    front.getLast?.any isWordChar = false ∧ s.IsHead head ∧
    Text.byteLength (front ++ head) = opening + 1

/-- Does a head of the section stand in front of this block, which is not blank? -/
structure IsBlock (s : Section) (source : Text) (p : Place) : Prop where
  headed : s.HeadAt source p.start p.opening
  braced : Theme.bracedBlockAt? source p.opening = some (p.body, p.closing)
  not_blank : Text.isAllBlank p.body = false

/-! ## Heads do not overlap -/

variable {s : Section} {head tail : Text}

theorem isWordChar_of_mem_key {c : Char} (h : c ∈ s.key) : isWordChar c = true := by
  have hKey : s.key.all isWordChar = true := by cases s <;> decide
  exact List.all_eq_true.mp hKey c h

theorem IsHead.exists_gap (h : s.IsHead head) :
    ∃ gap, head = s.key ++ gap ∧ ∀ c ∈ gap, isWordChar c = false := by
  obtain ⟨quote, hQuote, lead, gap, hLead, hGap, rfl⟩ := h
  have hQuotes : isWordChar '\'' = false ∧ isWordChar '"' = false := by decide
  have hMarks : isWordChar ':' = false ∧ isWordChar '\x7B' = false := by decide
  have hBlank {t : Text} (ht : t.all isBlank = true) : ∀ c ∈ t, isWordChar c = false :=
    fun c hc => isWordChar_of_isBlank (List.all_eq_true.mp ht c hc)
  refine ⟨_, rfl, fun c hc => ?_⟩
  simp only [List.mem_append, List.mem_cons, List.not_mem_nil, or_false] at hQuote hc
  rcases hc with hc | hc | rfl | hc | rfl
  · rcases hQuote with rfl | rfl | rfl
    · cases hc
    · obtain rfl := List.mem_singleton.mp hc
      exact hQuotes.1
    · obtain rfl := List.mem_singleton.mp hc
      exact hQuotes.2
  · exact hBlank hLead c hc
  · exact hMarks.1
  · exact hBlank hGap c hc
  · exact hMarks.2

theorem IsHead.exists_cons (h : s.IsHead head) :
    ∃ c rest, head = c :: rest ∧ isWordChar c = true := by
  obtain ⟨gap, rfl, -⟩ := h.exists_gap
  obtain ⟨c, key, hKey⟩ := List.exists_cons_of_ne_nil s.key_ne_nil
  exact ⟨c, key ++ gap, by rw [hKey, List.cons_append],
    isWordChar_of_mem_key (hKey ▸ List.mem_cons_self)⟩

/-- No head begins a word inside another one. -/
theorem IsHead.false_of_inside {head' before inside rest : Text} (h : s.IsHead head)
    (h' : s.IsHead head') (hHead : head = before ++ inside) (hBefore : before ≠ [])
    (hInside : inside ≠ []) (hText : inside ++ rest = head' ++ tail)
    (hWord : before.getLast?.any isWordChar = false) : False := by
  obtain ⟨gap, hKey, hGap⟩ := h.exists_gap
  obtain ⟨c, more, rfl, hLetter⟩ := h'.exists_cons
  obtain ⟨d, inside, rfl⟩ := List.exists_cons_of_ne_nil hInside
  obtain ⟨rfl, -⟩ := List.cons.inj hText
  rcases List.append_eq_append_iff.mp (hHead.symm.trans hKey) with ⟨u, hSplit, -⟩ | ⟨u, -, hSplit⟩
  · -- It would begin behind a letter of the key.
    have hLast := List.getLast?_eq_some_getLast hBefore
    have hMem : before.getLast hBefore ∈ s.key := by
      rw [hSplit]
      exact List.mem_append_left _ (List.getLast_mem hBefore)
    rw [hLast, Option.any_some, isWordChar_of_mem_key hMem] at hWord
    cases hWord
  · -- It would begin behind the key, where no letter is.
    have hMem : d ∈ gap := by
      rw [hSplit]
      exact List.mem_append_right _ List.mem_cons_self
    rw [hGap d hMem] at hLetter
    cases hLetter

/-- From a head on, every head of the section is that one or begins behind it. -/
theorem IsHead.eq_or_behind {head' before body : Text} (h : s.IsHead head) (h' : s.IsHead head')
    (hText : head ++ body = before ++ (head' ++ tail))
    (hWord : before.getLast?.any isWordChar = false) :
    (before = [] ∧ head' = head ∧ tail = body) ∨
      ∃ between, before = head ++ between ∧ body = between ++ (head' ++ tail) := by
  rcases List.append_eq_append_iff.mp hText with ⟨between, hBefore, hBody⟩ | ⟨inside, hHead, hRest⟩
  · exact .inr ⟨between, hBefore, hBody⟩
  · by_cases hNil : before = []
    · have hFirst : opening? s.key none (head ++ body) = some body :=
        opening?_eq_some_iff.mpr ⟨rfl, head, h, rfl⟩
      have hSecond : opening? s.key none (head ++ body) = some tail :=
        opening?_eq_some_iff.mpr ⟨rfl, head', h', by rw [hText, hNil, List.nil_append]⟩
      have hTail : tail = body := Option.some.inj (hSecond.symm.trans hFirst)
      rw [hNil, List.nil_append, hTail] at hText
      exact .inl ⟨hNil, (List.append_cancel_right hText).symm, hTail⟩
    · by_cases hInside : inside = []
      · rw [hInside, List.append_nil] at hHead
        rw [hInside, List.nil_append] at hRest
        exact .inr ⟨[], by rw [hHead, List.append_nil], hRest.symm⟩
      · exact (h.false_of_inside h' hHead hNil hInside hRest.symm hWord).elim

/-! ## Heads in a source -/

variable {source front text body : Text} {start opening : Nat}

/-- A head that begins behind a part of the source begins behind it in the rest. -/
theorem HeadAt.exists_append (h : s.HeadAt source start opening) (hSource : source = front ++ text)
    (hStart : Text.byteLength front ≤ start) :
    ∃ before head tail, text = before ++ (head ++ tail) ∧
      Text.byteLength (front ++ before) = start ∧ (front ++ before).getLast?.any isWordChar = false ∧
        s.IsHead head ∧ Text.byteLength (front ++ before ++ head) = opening + 1 := by
  obtain ⟨lead, head, tail, hLead, hLength, hWord, hHead, hOpening⟩ := h
  rw [← hLength] at hStart
  obtain ⟨before, rfl, hText⟩ :=
    Text.exists_append_of_byteLength_le (hSource.symm.trans hLead) hStart
  exact ⟨before, head, tail, hText, hLength, hWord, hHead, hOpening⟩

theorem HeadAt.le_of_none {c : Char} (h : s.HeadAt source start opening)
    (hSource : source = front ++ c :: text) (hStart : Text.byteLength front ≤ start)
    (hNone : opening? s.key front.getLast? (c :: text) = none) :
    Text.byteLength (front ++ [c]) ≤ start := by
  obtain ⟨before, head, tail, hText, rfl, hWord, hHead, -⟩ := h.exists_append hSource hStart
  cases before with
  | nil =>
    rw [List.append_nil] at hWord
    rw [opening?_eq_some_iff.mpr ⟨hWord, head, hHead, hText⟩] at hNone
    cases hNone
  | cons d before =>
    obtain ⟨rfl, -⟩ := List.cons.inj hText
    rw [List.append_cons front c before, Text.byteLength_append (front ++ [c]) before]
    exact Nat.le_add_right _ _

theorem HeadAt.eq_or_behind (h : s.HeadAt source start opening) (hHead : s.IsHead head)
    (hSource : source = front ++ (head ++ body)) (hStart : Text.byteLength front ≤ start) :
    (start = Text.byteLength front ∧ opening + 1 = Text.byteLength (front ++ head)) ∨
      Text.byteLength (front ++ head) ≤ start := by
  obtain ⟨before, head', tail, hText, rfl, hWord, hHead', hOpening⟩ :=
    h.exists_append hSource hStart
  have hBefore : before.getLast?.any isWordChar = false := by
    cases hLast : before.getLast? with
    | none => rfl
    | some c => rwa [List.getLast?_append, hLast, Option.some_or] at hWord
  rcases hHead.eq_or_behind hHead' hText hBefore with ⟨rfl, rfl, -⟩ | ⟨between, rfl, -⟩
  · rw [List.append_nil] at hOpening ⊢
    exact .inl ⟨rfl, hOpening.symm⟩
  · rw [← List.append_assoc, Text.byteLength_append (front ++ head)]
    exact .inr (Nat.le_add_right _ _)

/-! ## Where blocks stand -/

variable {p q : Place}

theorem IsBlock.start_lt_opening (h : s.IsBlock source p) : p.start < p.opening := by
  obtain ⟨front, head, tail, -, hStart, -, hHead, hOpening⟩ := h.headed
  obtain ⟨lead, rfl⟩ := hHead.exists_append
  obtain ⟨c, rest, hCons, hLetter⟩ := hHead.exists_cons
  have hLead : lead ≠ [] := by
    rintro rfl
    obtain ⟨rfl, -⟩ := List.cons.inj hCons
    exact absurd hLetter (by decide)
  have hPositive := Text.byteLength_pos hLead
  have hBrace : Text.byteLength ['\x7B'] = 1 := rfl
  rw [Text.byteLength_append, Text.byteLength_append, hBrace] at hOpening
  omega

theorem IsBlock.opening_lt_closing (h : s.IsBlock source p) : p.opening < p.closing := by
  obtain ⟨-, -, -, -, hClosing, -⟩ := Theme.exists_of_bracedBlockAt? h.braced
  omega

theorem IsBlock.slice? (h : s.IsBlock source p) :
    Text.slice? (p.opening + 1) p.closing source = some p.body := by
  obtain ⟨front, back, rfl, hOpening, hClosing, -⟩ := Theme.exists_of_bracedBlockAt? h.braced
  rw [hClosing, ← hOpening]
  exact Theme.slice?_block front p.body back

theorem IsBlock.closing_ne_start (h : s.IsBlock source p) (h' : s.IsBlock source q) :
    p.closing ≠ q.start := by
  intro hSame
  obtain ⟨front, back, hSource, hOpening, hClosing, -⟩ := Theme.exists_of_bracedBlockAt? h.braced
  obtain ⟨front', head, tail, hSource', hStart, -, hHead, -⟩ := h'.headed
  obtain ⟨c, rest, rfl, hLetter⟩ := hHead.exists_cons
  have hBrace : ('\x7B').utf8Size = 1 := rfl
  have hLength : Text.byteLength (front ++ '\x7B' :: p.body) = Text.byteLength front' := by
    rw [Text.byteLength_append, Text.byteLength_cons, hBrace, hStart, ← hSame, hClosing, hOpening,
      Nat.add_assoc]
  have hText : (front ++ '\x7B' :: p.body) ++ '\x7D' :: back = front' ++ (c :: rest ++ tail) := by
    rw [← hSource', hSource, List.append_assoc, List.cons_append]
  obtain ⟨rfl, -⟩ := List.cons.inj (Text.append_inj_of_byteLength hText hLength).2
  exact absurd hLetter (by decide)

/-! ## The search -/

/-- The blocks a search finds from an offset on: they stand one behind the other, and no other one
begins outside all of them. -/
structure Covers (s : Section) (source : Text) (offset : Nat) (places : List Place) : Prop where
  behind : ∀ p ∈ places, offset ≤ p.start
  block : ∀ p ∈ places, s.IsBlock source p
  ordered : places.Pairwise (·.closing < ·.start)
  complete : ∀ p, s.IsBlock source p → offset ≤ p.start →
    (∀ q ∈ places, ¬ (q.opening < p.start ∧ p.start < q.closing)) → p ∈ places

variable {offset next : Nat} {places : List Place}

theorem Covers.eq_or_apart (h : s.Covers source offset places) (hp : p ∈ places) (hq : q ∈ places) :
    p = q ∨ p.closing < q.start ∨ q.closing < p.start := by
  have hBefore : places.Pairwise fun a b => a = b ∨ a.closing < b.start ∨ b.closing < a.start :=
    h.ordered.imp fun hLess => .inr (.inl hLess)
  have hBehind : places.Pairwise fun b a => a = b ∨ a.closing < b.start ∨ b.closing < a.start :=
    h.ordered.imp fun hLess => .inr (.inr hLess)
  exact hBefore.forall_of_forall_of_flip (fun _ _ => .inl rfl) hBehind hp hq

theorem Covers.of_le (h : s.Covers source next places) (hNext : offset ≤ next)
    (hNone : ∀ p, s.IsBlock source p → offset ≤ p.start → next ≤ p.start) :
    s.Covers source offset places where
  behind p hp := Nat.le_trans hNext (h.behind p hp)
  block := h.block
  ordered := h.ordered
  complete p hp hStart := h.complete p hp (hNone p hp hStart)

theorem Covers.cons (h : s.Covers source (p.closing + 1) places) (hBlock : s.IsBlock source p)
    (hStart : offset ≤ p.start)
    (hFirst : ∀ q, s.IsBlock source q → offset ≤ q.start → q = p ∨ p.opening < q.start) :
    s.Covers source offset (p :: places) where
  behind := List.forall_mem_cons.mpr ⟨hStart, fun q hq => by
    have hOpening := hBlock.start_lt_opening
    have hClosing := hBlock.opening_lt_closing
    have hBehind := h.behind q hq
    omega⟩
  block := List.forall_mem_cons.mpr ⟨hBlock, h.block⟩
  ordered := List.pairwise_cons.mpr ⟨h.behind, h.ordered⟩
  complete q hq hOffset hOutside := by
    obtain ⟨hNot, hRest⟩ := List.forall_mem_cons.mp hOutside
    rcases hFirst q hq hOffset with rfl | hBehind
    · exact List.mem_cons_self
    · have hBrace := hBlock.closing_ne_start hq
      exact List.mem_cons_of_mem _ (h.complete q hq (by omega) hRest)

/-- A block whose head begins at once is the one at the brace of that head. -/
theorem IsBlock.exists_bracedBlock? (h : s.IsBlock source p) {lead : Text}
    (hSource : source = front ++ (lead ++ ['\x7B'] ++ body))
    (hOpening : p.opening + 1 = Text.byteLength (front ++ (lead ++ ['\x7B']))) :
    p.opening = Text.byteLength (front ++ lead) ∧
      ∃ rest, Theme.bracedBlock? ('\x7B' :: body) = some (p.body, rest) ∧
        p.closing = p.opening + 1 + Text.byteLength p.body := by
  have hBrace : Text.byteLength ['\x7B'] = 1 := rfl
  have hOffset : p.opening = Text.byteLength (front ++ lead) := by
    rw [← List.append_assoc, Text.byteLength_append, hBrace] at hOpening
    exact Nat.add_right_cancel hOpening
  have hText : source = front ++ lead ++ '\x7B' :: body := by simpa using hSource
  have hBraced := h.braced
  rw [hText, hOffset, Theme.bracedBlockAt?_append, ← hOffset] at hBraced
  obtain ⟨⟨inner, rest⟩, hBlock, hSame⟩ := Option.map_eq_some_iff.mp hBraced
  obtain ⟨rfl, hClosing⟩ := Prod.mk.inj hSame
  exact ⟨hOffset, rest, hBlock, hClosing.symm⟩

/-- A head that has no block, or a blank one, is passed over. -/
theorem IsBlock.le_of_blank (h : s.IsBlock source p) (hHead : s.IsHead head)
    (hSource : source = front ++ (head ++ body)) (hStart : Text.byteLength front ≤ p.start)
    (hBlank : ∀ inner rest, Theme.bracedBlock? ('\x7B' :: body) = some (inner, rest) →
      Text.isAllBlank inner = true) :
    Text.byteLength (front ++ head) ≤ p.start := by
  rcases h.headed.eq_or_behind hHead hSource hStart with ⟨-, hOpening⟩ | hBehind
  · obtain ⟨lead, rfl⟩ := hHead.exists_append
    obtain ⟨-, rest, hBlock, -⟩ := h.exists_bracedBlock? hSource hOpening
    have hBody := h.not_blank
    rw [hBlank _ _ hBlock] at hBody
    cases hBody
  · exact hBehind

theorem exists_covers_of_blank {before : Option Char} {bodies : List Text}
    (hOpen : opening? s.key before text = some body) (hSource : source = front ++ text)
    (hBlank : ∀ inner rest, Theme.bracedBlock? ('\x7B' :: body) = some (inner, rest) →
      Text.isAllBlank inner = true)
    (ih : ∀ {front' : Text}, source = front' ++ body → front'.getLast? = some '\x7B' →
      ∃ places, bodies = places.map (·.body) ∧ s.Covers source (Text.byteLength front') places) :
    ∃ places, bodies = places.map (·.body) ∧ s.Covers source (Text.byteLength front) places := by
  obtain ⟨-, head, hHead, rfl⟩ := opening?_eq_some_iff.mp hOpen
  obtain ⟨lead, hLead⟩ := hHead.exists_append
  have hNext : source = (front ++ head) ++ body := by rw [hSource, List.append_assoc]
  obtain ⟨places, hBodies, hPlaces⟩ := ih hNext (by simp [hLead])
  exact ⟨places, hBodies, hPlaces.of_le (by simp [Text.byteLength_append]) fun p hp hStart =>
    hp.le_of_blank hHead hSource hStart hBlank⟩

theorem Covers.cons_of_head {lead inner rest : Text}
    (h : s.Covers source (Text.byteLength (front ++ (lead ++ ['\x7B']) ++ (inner ++ ['\x7D']))) places)
    (hHead : s.IsHead (lead ++ ['\x7B'])) (hWord : front.getLast?.any isWordChar = false)
    (hSource : source = front ++ (lead ++ ['\x7B'] ++ (inner ++ '\x7D' :: rest)))
    (hBlock : Theme.bracedBlock? ('\x7B' :: (inner ++ '\x7D' :: rest)) = some (inner, rest))
    (hBlank : Text.isAllBlank inner = false) :
    s.Covers source (Text.byteLength front)
      (⟨Text.byteLength front, Text.byteLength (front ++ lead),
        Text.byteLength (front ++ lead) + 1 + Text.byteLength inner, inner⟩ :: places) := by
  have hOpen : Text.byteLength ['\x7B'] = 1 := rfl
  have hClose : Text.byteLength ['\x7D'] = 1 := rfl
  have hEnd : Text.byteLength (front ++ (lead ++ ['\x7B']) ++ (inner ++ ['\x7D'])) =
      Text.byteLength (front ++ lead) + 1 + Text.byteLength inner + 1 := by
    simp only [Text.byteLength_append, hOpen, hClose, Nat.add_assoc]
  have hText : source = front ++ lead ++ '\x7B' :: (inner ++ '\x7D' :: rest) := by
    simpa using hSource
  rw [hEnd] at h
  refine h.cons ⟨⟨front, _, _, hSource, rfl, hWord, hHead, ?_⟩, ?_, hBlank⟩ (Nat.le_refl _)
    fun q hq hStart => ?_
  · simp only [Text.byteLength_append, hOpen, Nat.add_assoc]
  · rw [hText, Theme.bracedBlockAt?_append, hBlock, Option.map_some]
  · rcases hq.headed.eq_or_behind hHead hSource hStart with ⟨hSame, hOpening⟩ | hBehind
    · obtain ⟨hOffset, back, hFound, hClosing⟩ := hq.exists_bracedBlock? hSource hOpening
      obtain ⟨hBody, -⟩ := Prod.mk.inj (Option.some.inj (hFound.symm.trans hBlock))
      obtain ⟨start, opening, closing, found⟩ := q
      simp only at hSame hOffset hBody hClosing
      exact .inl (by rw [hSame, hClosing, hOffset, hBody])
    · simp only [Text.byteLength_append, hOpen] at hBehind ⊢
      exact .inr (by omega)

/-- The search finds the blocks of the rest of a source. -/
theorem exists_covers (s : Section) {source front text : Text} (hSource : source = front ++ text) :
    ∃ places, blocksFrom s.key front.getLast? text = places.map (·.body) ∧
      s.Covers source (Text.byteLength front) places := by
  generalize hBefore : front.getLast? = before
  fun_induction blocksFrom s.key before text generalizing front with
  | case1 before =>
    refine ⟨[], rfl, by simp, by simp, .nil, fun p hp hStart => ?_⟩
    obtain ⟨lead, head, tail, hNil, -, -, hHead, -⟩ := hp.headed.exists_append hSource hStart
    obtain ⟨c, rest, rfl, -⟩ := hHead.exists_cons
    simp at hNil
  | case2 before c text hNone ih =>
    subst hBefore
    have hNext : source = (front ++ [c]) ++ text := by rw [hSource, List.append_cons]
    obtain ⟨places, hBodies, hPlaces⟩ := ih hNext (by simp)
    exact ⟨places, hBodies, hPlaces.of_le (by simp [Text.byteLength_append])
      fun p hp hStart => hp.headed.le_of_none hSource hStart hNone⟩
  | case3 before c text body hOpen hBlock ih =>
    refine exists_covers_of_blank hOpen hSource (fun inner rest hSome => ?_) ih
    rw [hBlock] at hSome
    cases hSome
  | case4 before c text body hOpen inner rest hBlock hBlank ih =>
    refine exists_covers_of_blank hOpen hSource (fun found behind hSome => ?_) ih
    obtain ⟨rfl, -⟩ := Prod.mk.inj (Option.some.inj (hBlock.symm.trans hSome))
    exact hBlank
  | case5 before c text body hOpen inner rest hBlock hBlank ih =>
    subst hBefore
    obtain ⟨hWord, head, hHead, hText⟩ := opening?_eq_some_iff.mp hOpen
    obtain ⟨lead, rfl⟩ := hHead.exists_append
    rw [hText] at hSource
    obtain ⟨hBody, -⟩ := Theme.bracedBlock?_eq_some_iff.mp hBlock
    obtain rfl := (List.cons.inj hBody).2
    have hNext : source = (front ++ (lead ++ ['\x7B']) ++ (inner ++ ['\x7D'])) ++ rest := by
      rw [hSource, List.append_cons inner, List.append_assoc front, List.append_assoc front,
        List.append_assoc (lead ++ _)]
    have hLast : (front ++ (lead ++ ['\x7B']) ++ (inner ++ ['\x7D'])).getLast? = some '\x7D' := by
      rw [← List.append_assoc, List.getLast?_concat]
    obtain ⟨places, hBodies, hPlaces⟩ := ih hNext hLast
    exact ⟨_ :: places, congrArg _ hBodies,
      hPlaces.cons_of_head hHead hWord hSource hBlock (by simpa using hBlank)⟩

structure IsListing (s : Section) (source : Text) (places : List Place) : Prop where
  block : ∀ p ∈ places, s.IsBlock source p
  within : ∀ p ∈ places, p.start < p.opening ∧ p.opening < p.closing ∧
    Text.slice? (p.opening + 1) p.closing source = some p.body
  ordered : places.Pairwise (·.closing < ·.start)
  apart : ∀ p ∈ places, ∀ q ∈ places, p.opening ≤ q.opening → q.closing ≤ p.closing → p = q
  complete : ∀ p, s.IsBlock source p →
    (∀ q ∈ places, ¬ (q.opening < p.start ∧ p.start < q.closing)) → p ∈ places

/-- The search for a section lists its blocks in the order of the source, each behind the one before
it and none inside another: all those that are not blank and whose head does not begin inside one
that is listed. -/
theorem isListing_blocks (source : Text) (s : Section) :
    ∃ places, blocks source s = places.map (·.body) ∧ s.IsListing source places := by
  obtain ⟨places, hBodies, hPlaces⟩ := s.exists_covers (List.nil_append source).symm
  refine ⟨places, hBodies, hPlaces.block, fun p hp => ?_, hPlaces.ordered, ?_, fun p hp => ?_⟩
  · have hBlock := hPlaces.block p hp
    exact ⟨hBlock.start_lt_opening, hBlock.opening_lt_closing, hBlock.slice?⟩
  · intro p hp q hq hOpening hClosing
    have hFirst := (hPlaces.block p hp).start_lt_opening
    have hSecond := (hPlaces.block q hq).start_lt_opening
    have hInside := (hPlaces.block q hq).opening_lt_closing
    rcases hPlaces.eq_or_apart hp hq with hSame | hBehind | hBefore
    · exact hSame
    · omega
    · omega
  · exact hPlaces.complete p hp (Nat.zero_le _)

end Section

end DesignParams
