import DesignParams.Proofs.Theme.Lexed
import Mathlib.Data.List.DropRight

/-!
# Segments of a script

A script falls into comments, strings and single characters of code in one way if a comment or
string begins wherever one can and runs through the first place where it can end. Each character is
marked as the segment is in which it stands.
-/
set_option autoImplicit false

namespace DesignParams

namespace Marked

/-- Does a part run through the first place where it can end, or else to the end of the text? -/
structure RunsThrough (Ends : Text → Prop) (part rest : Text) : Prop where
  ends : Ends part ∨ rest = []
  first : ∀ front, front <+: part → Ends front → front = part

/-! ## Where comments and strings end -/

def EndsLine (body : Text) : Prop :=
  ['\n'] <:+ body

def EndsBlock (body : Text) : Prop :=
  ['*', '/'] <:+ body

/-- Is what stands behind this text escaped? Of the backslashes it ends in, every second one is
escaped itself. -/
def IsEscaped (before : Text) : Prop :=
  (before.rtakeWhile (· = '\\')).length % 2 = 1

instance : DecidablePred IsEscaped := fun before =>
  inferInstanceAs (Decidable ((before.rtakeWhile (· = '\\')).length % 2 = 1))

def EndsString (quote : Char) (body : Text) : Prop :=
  ∃ inner, body = inner ++ [quote] ∧ ¬ IsEscaped inner

/-! ## Segments -/

/-- Is this text in front of the rest a whole comment or a whole string? -/
inductive IsDelimited : CharClass → Text → Text → Prop
  | line {body rest : Text} (h : RunsThrough EndsLine body rest) :
    IsDelimited .comment ('/' :: '/' :: body) rest
  | block {body rest : Text} (h : RunsThrough EndsBlock body rest) :
    IsDelimited .comment ('/' :: '*' :: body) rest
  | string {quote : Char} {body rest : Text} (hQuote : isQuote quote = true)
    (h : RunsThrough (EndsString quote) body rest) : IsDelimited .string (quote :: body) rest

structure Segment where
  cls : CharClass
  text : Text
deriving DecidableEq, Repr

def Segment.marks (segment : Segment) : List Marked :=
  segment.text.map (⟨·, segment.cls⟩)

/-- Does a text fall into these segments? A character is code if no comment and no string begins
with it. -/
inductive IsSegmented : List Segment → Text → Prop
  | nil : IsSegmented [] []
  | delimited {s rest : Text} {segment : Segment} {segments : List Segment}
    (hText : s = segment.text ++ rest) (h : IsDelimited segment.cls segment.text rest)
    (hRest : IsSegmented segments rest) : IsSegmented (segment :: segments) s
  | code {c : Char} {rest : Text} {segments : List Segment}
    (h : ∀ cls part behind, c :: rest = part ++ behind → ¬ IsDelimited cls part behind)
    (hRest : IsSegmented segments rest) : IsSegmented (⟨.code, [c]⟩ :: segments) (c :: rest)

/-! ## Parts that run through -/

section RunsThrough

variable {Ends Ends' : Text → Prop} {part part' rest rest' : Text} {c : Char}

theorem RunsThrough.unique (h : RunsThrough Ends part rest) (h' : RunsThrough Ends part' rest')
    (hText : part ++ rest = part' ++ rest') : part = part' := by
  wlog hLength : part.length ≤ part'.length generalizing part part' rest rest'
  · exact (this h' h hText.symm (by omega)).symm
  have hFront : part <+: part' :=
    List.prefix_of_prefix_length_le ⟨rest, rfl⟩ ⟨rest', hText.symm⟩ hLength
  rcases h.ends with hEnds | rfl
  · exact h'.first part hFront hEnds
  · apply hFront.eq_of_length_le
    rw [List.append_nil] at hText
    rw [hText, List.length_append]
    omega

theorem exists_runsThrough (Ends : Text → Prop) (s : Text) :
    ∃ part rest, s = part ++ rest ∧ RunsThrough Ends part rest := by
  induction s generalizing Ends with
  | nil => exact ⟨[], [], rfl, .inr rfl, fun front hFront _ => List.prefix_nil.mp hFront⟩
  | cons c s ih =>
    rcases Classical.em (Ends []) with hNow | hLater
    · exact ⟨[], c :: s, rfl, .inl hNow, fun front hFront _ => List.prefix_nil.mp hFront⟩
    · obtain ⟨part, rest, rfl, h⟩ := ih fun t => Ends (c :: t)
      refine ⟨c :: part, rest, rfl, h.ends, fun front hFront hEnds => ?_⟩
      cases front with
      | nil => exact absurd hEnds hLater
      | cons d front =>
        obtain ⟨rfl, hRest⟩ := List.cons_prefix_cons.mp hFront
        rw [h.first front hRest hEnds]

theorem RunsThrough.tail_eq_nil (h : RunsThrough Ends (c :: part) rest) (hEnds : Ends [c]) :
    part = [] := by
  have hFirst := h.first [c] (List.cons_prefix_cons.mpr ⟨rfl, List.nil_prefix⟩) hEnds
  exact (List.cons.inj hFirst).2.symm

theorem RunsThrough.rest_eq_nil (h : RunsThrough Ends [] rest) (hLater : ¬ Ends []) : rest = [] :=
  h.ends.resolve_left hLater

/-- What can end a part behind its first character is what can end the rest of it. -/
theorem RunsThrough.tail (h : RunsThrough Ends (c :: part) rest)
    (hEnds : ∀ t, t <+: part → (Ends (c :: t) ↔ Ends' t)) : RunsThrough Ends' part rest where
  ends := h.ends.imp_left (hEnds part List.prefix_rfl).mp
  first front hFront hEnd :=
    (List.cons.inj (h.first (c :: front) (List.cons_prefix_cons.mpr ⟨rfl, hFront⟩)
      ((hEnds front hFront).mpr hEnd))).2

end RunsThrough

/-! ## Reading comments -/

section Comments

variable {body rest : Text}

theorem endsLine_cons {c : Char} (hFeed : c ≠ '\n') (t : Text) :
    EndsLine (c :: t) ↔ EndsLine t := by
  rw [EndsLine, List.suffix_cons_iff, or_iff_right]
  · rfl
  · intro h
    exact hFeed (List.cons.inj h).1.symm

theorem scan_inLine_append (h : RunsThrough EndsLine body rest) :
    scan .inLine (body ++ rest) = body.map (⟨·, .comment⟩) ++ ofText rest := by
  induction body with
  | nil =>
    rw [h.rest_eq_nil (by simp [EndsLine])]
    rfl
  | cons c body ih =>
    rw [List.cons_append, scan]
    split
    · rename_i hFeed
      have hEnds : EndsLine [c] := by
        rw [hFeed]
        exact List.suffix_rfl
      rw [h.tail_eq_nil hEnds]
      rfl
    · rename_i hFeed
      rw [ih (h.tail fun t _ => endsLine_cons hFeed t)]
      rfl

theorem endsBlock_cons {c : Char} {t : Text} (hStar : c = '*' → t.head? ≠ some '/') :
    EndsBlock (c :: t) ↔ EndsBlock t := by
  rw [EndsBlock, List.suffix_cons_iff, or_iff_right]
  · rfl
  · intro h
    obtain ⟨hFirst, hSecond⟩ := List.cons.inj h
    apply hStar hFirst.symm
    rw [← hSecond]
    rfl

theorem scan_inBlock_append (h : RunsThrough EndsBlock body rest) :
    scan .inBlock (body ++ rest) = body.map (⟨·, .comment⟩) ++ ofText rest := by
  induction body with
  | nil =>
    rw [h.rest_eq_nil (by simp [EndsBlock])]
    rfl
  | cons c body ih =>
    cases body with
    | nil =>
      -- One character ends no comment, so that it is the last one of the text.
      have hEnds : ¬ EndsBlock [c] := fun hEnds => absurd hEnds.length_le (by simp)
      rw [h.ends.resolve_left hEnds, List.append_nil, scan_inBlock_cons (by simp)]
      rfl
    | cons d body =>
      rcases Classical.em (c = '*' ∧ d = '/') with ⟨rfl, rfl⟩ | hOther
      · have hBody : ['*', '/'] = '*' :: '/' :: body :=
          h.first _ (List.cons_prefix_cons.mpr ⟨rfl, List.cons_prefix_cons.mpr
            ⟨rfl, List.nil_prefix⟩⟩) List.suffix_rfl
        rw [← (List.cons.inj (List.cons.inj hBody).2).2]
        rfl
      · have hSlash (hStar : c = '*') : d ≠ '/' := fun h => hOther ⟨hStar, h⟩
        have hTail : RunsThrough EndsBlock (d :: body) rest := by
          refine h.tail fun t hFront => endsBlock_cons fun hStar => ?_
          cases t with
          | nil => simp
          | cons e t =>
            obtain ⟨rfl, -⟩ := List.cons_prefix_cons.mp hFront
            simpa using hSlash hStar
        rw [List.cons_append, scan_inBlock_cons (by simpa using hSlash), ih hTail]
        rfl

end Comments

/-! ## Reading strings -/

theorem length_backslashes_cons (c : Char) (s : Text) :
    ((c :: s).rtakeWhile (· = '\\')).length =
      if (s.rtakeWhile (· = '\\')).length = s.length ∧ c = '\\' then s.length + 1
      else (s.rtakeWhile (· = '\\')).length := by
  simp only [List.rtakeWhile, List.reverse_cons, List.takeWhile_append, List.length_reverse]
  split
  · rename_i hAll
    rw [List.length_append, List.length_reverse, List.takeWhile_cons]
    split <;> simp_all
  · rename_i hSome
    rw [if_neg fun h => hSome h.1]

theorem isEscaped_cons {c : Char} (h : c ≠ '\\') (s : Text) :
    IsEscaped (c :: s) ↔ IsEscaped s := by
  rw [IsEscaped, length_backslashes_cons, if_neg fun hBoth => h hBoth.2]
  rfl

/-- A backslash escapes what follows it, so that both can be left out. -/
theorem isEscaped_backslash (c : Char) (s : Text) : IsEscaped ('\\' :: c :: s) ↔ IsEscaped s := by
  have hLength : (s.rtakeWhile (· = '\\')).length ≤ s.length :=
    (List.rtakeWhile_suffix _ s).length_le
  have hOne := length_backslashes_cons c s
  have hTwo := length_backslashes_cons '\\' (c :: s)
  simp only [List.length_cons, and_true] at hTwo
  rw [IsEscaped, IsEscaped]
  split_ifs at hOne hTwo <;> omega

section Strings

variable {quote : Char} {body rest : Text}

theorem endsString_cons {c : Char} (hQuote : c ≠ quote) (hBackslash : c ≠ '\\') (t : Text) :
    EndsString quote (c :: t) ↔ EndsString quote t := by
  constructor
  · rintro ⟨inner, hInner, hFree⟩
    cases inner with
    | nil => exact absurd (List.cons.inj hInner).1 hQuote
    | cons d inner =>
      obtain ⟨rfl, hRest⟩ := List.cons.inj hInner
      exact ⟨inner, hRest, fun h => hFree ((isEscaped_cons hBackslash inner).mpr h)⟩
  · rintro ⟨inner, rfl, hFree⟩
    exact ⟨c :: inner, rfl, fun h => hFree ((isEscaped_cons hBackslash inner).mp h)⟩

theorem endsString_escape (hQuote : isQuote quote = true) (c : Char) (t : Text) :
    EndsString quote ('\\' :: c :: t) ↔ EndsString quote t := by
  constructor
  · rintro ⟨inner, hInner, hFree⟩
    match inner with
    | [] =>
      obtain ⟨rfl, -⟩ := List.cons.inj hInner
      exact absurd hQuote (by decide)
    | [d] =>
      obtain ⟨rfl, -⟩ := List.cons.inj hInner
      exact absurd (by decide) hFree
    | d :: e :: inner =>
      obtain ⟨rfl, hRest⟩ := List.cons.inj hInner
      obtain ⟨rfl, rfl⟩ := List.cons.inj hRest
      exact ⟨inner, rfl, fun h => hFree ((isEscaped_backslash c inner).mpr h)⟩
  · rintro ⟨inner, rfl, hFree⟩
    exact ⟨'\\' :: c :: inner, rfl, fun h => hFree ((isEscaped_backslash c inner).mp h)⟩

theorem not_endsString_nil : ¬ EndsString quote [] := by
  rintro ⟨inner, hInner, -⟩
  simp at hInner

theorem not_endsString_backslash (hQuote : isQuote quote = true) : ¬ EndsString quote ['\\'] := by
  rintro ⟨inner, hInner, -⟩
  have hJoin : [] ++ ['\\'] = inner ++ [quote] := hInner
  obtain ⟨-, hLast⟩ := List.append_inj' hJoin rfl
  obtain ⟨rfl, -⟩ := List.cons.inj hLast
  exact absurd hQuote (by decide)

/-- A string is read from its opening quote on, or from behind a backslash in it. -/
theorem scan_string_append (hQuote : isQuote quote = true) :
    (RunsThrough (EndsString quote) body rest →
      scan (.inString quote) (body ++ rest) = body.map (⟨·, .string⟩) ++ ofText rest) ∧
    (RunsThrough (fun t => EndsString quote ('\\' :: t)) body rest →
      scan (.escaped quote) (body ++ rest) = body.map (⟨·, .string⟩) ++ ofText rest) := by
  induction body with
  | nil =>
    constructor
    · intro h
      rw [h.rest_eq_nil not_endsString_nil]
      rfl
    · intro h
      rw [h.rest_eq_nil (not_endsString_backslash hQuote)]
      rfl
  | cons c body ih =>
    constructor
    · intro h
      rw [List.cons_append, scan]
      split_ifs with hBackslash hEnd
      · have hTail : RunsThrough (fun t => EndsString quote ('\\' :: t)) body rest :=
          h.tail fun t _ => by rw [hBackslash]
        rw [ih.2 hTail]
        rfl
      · have hEnds : EndsString quote [c] := ⟨[], by rw [hEnd, List.nil_append], by decide⟩
        rw [h.tail_eq_nil hEnds]
        rfl
      · rw [ih.1 (h.tail fun t _ => endsString_cons hEnd hBackslash t)]
        rfl
    · intro h
      rw [List.cons_append, scan, ih.1 (h.tail fun t _ => endsString_escape hQuote c t)]
      rfl

end Strings

/-! ## Reading segments -/

section Segments

variable {cls cls' : CharClass} {part part' rest rest' s : Text}

theorem IsDelimited.ne_nil (h : IsDelimited cls part rest) : part ≠ [] := by
  cases h <;> simp

theorem IsDelimited.ofText_append (h : IsDelimited cls part rest) :
    ofText (part ++ rest) = part.map (⟨·, cls⟩) ++ ofText rest := by
  cases h with
  | line h => exact congrArg (⟨'/', .comment⟩ :: ⟨'/', .comment⟩ :: ·) (scan_inLine_append h)
  | block h => exact congrArg (⟨'/', .comment⟩ :: ⟨'*', .comment⟩ :: ·) (scan_inBlock_append h)
  | string hQuote h =>
    exact (scan_code_quote hQuote _).trans (congrArg _ ((scan_string_append hQuote).1 h))

theorem ne_slash_of_isQuote {c : Char} (hQuote : isQuote c = true) : c ≠ '/' := by
  rintro rfl
  exact absurd hQuote (by decide)

/-- Where a comment or string begins, only this one does. -/
theorem IsDelimited.unique (h : IsDelimited cls part rest) (h' : IsDelimited cls' part' rest')
    (hText : part ++ rest = part' ++ rest') : cls = cls' ∧ part = part' := by
  cases h with
  | line h =>
    cases h' with
    | line h' =>
      obtain ⟨-, hBehind⟩ := List.cons.inj hText
      rw [h.unique h' (List.cons.inj hBehind).2]
      exact ⟨rfl, rfl⟩
    | block h' => simp at hText
    | string hQuote' h' => exact absurd (List.cons.inj hText).1.symm (ne_slash_of_isQuote hQuote')
  | block h =>
    cases h' with
    | line h' => simp at hText
    | block h' =>
      obtain ⟨-, hBehind⟩ := List.cons.inj hText
      rw [h.unique h' (List.cons.inj hBehind).2]
      exact ⟨rfl, rfl⟩
    | string hQuote' h' => exact absurd (List.cons.inj hText).1.symm (ne_slash_of_isQuote hQuote')
  | string hQuote h =>
    cases h' with
    | line h' => exact absurd (List.cons.inj hText).1 (ne_slash_of_isQuote hQuote)
    | block h' => exact absurd (List.cons.inj hText).1 (ne_slash_of_isQuote hQuote)
    | string hQuote' h' =>
      obtain ⟨rfl, hBody⟩ := List.cons.inj hText
      rw [h.unique h' hBody]
      exact ⟨rfl, rfl⟩

variable {segments segments' : List Segment}

theorem IsSegmented.unique (h : IsSegmented segments s) (h' : IsSegmented segments' s) :
    segments = segments' := by
  induction h generalizing segments' with
  | nil =>
    cases h' with
    | nil => rfl
    | delimited hText h' hRest' =>
      exact absurd (List.append_eq_nil_iff.mp hText.symm).1 h'.ne_nil
  | @delimited s rest segment segments hText h hRest ih =>
    cases h' with
    | nil => exact absurd (List.append_eq_nil_iff.mp hText.symm).1 h.ne_nil
    | @delimited _ rest' segment' segments' hText' h' hRest' =>
      obtain ⟨hCls, hPart⟩ := h.unique h' (hText.symm.trans hText')
      have hSegment : segment = segment' := by
        cases segment
        cases segment'
        exact congrArg₂ Segment.mk hCls hPart
      rw [hText, hSegment] at hText'
      rw [hSegment, ih (List.append_cancel_left hText' ▸ hRest')]
    | code hCode hRest' => exact absurd h (hCode _ _ _ hText)
  | code hCode hRest ih =>
    cases h' with
    | delimited hText' h' hRest' => exact absurd h' (hCode _ _ _ hText')
    | code hCode' hRest' => rw [ih hRest']

theorem exists_isSegmented (s : Text) : ∃ segments, IsSegmented segments s := by
  induction hLength : s.length using Nat.strong_induction_on generalizing s with
  | _ length ih =>
  cases s with
  | nil => exact ⟨[], .nil⟩
  | cons c rest =>
    rcases Classical.em (∃ cls part behind, c :: rest = part ++ behind ∧
      IsDelimited cls part behind) with ⟨cls, part, behind, hText, h⟩ | hCode
    · have hShort : behind.length < length := by
        have hPositive := List.length_pos_iff.mpr h.ne_nil
        rw [← hLength, hText, List.length_append]
        omega
      obtain ⟨segments, hSegments⟩ := ih _ hShort behind rfl
      exact ⟨⟨cls, part⟩ :: segments, .delimited hText h hSegments⟩
    · have hShort : rest.length < length := by
        rw [← hLength, List.length_cons]
        omega
      obtain ⟨segments, hSegments⟩ := ih _ hShort rest rfl
      exact ⟨_, .code (fun cls part behind hText h => hCode ⟨cls, part, behind, hText, h⟩) hSegments⟩

/-- If no comment and no string begins with a character, it is no quote and no slash in front of
another one or of a star, since each of these begins one that ends somewhere. -/
theorem ofText_cons_of_code {c : Char}
    (h : ∀ cls part behind, c :: rest = part ++ behind → ¬ IsDelimited cls part behind) :
    ofText (c :: rest) = ⟨c, .code⟩ :: ofText rest := by
  apply scan_code_cons
  · rw [← Bool.not_eq_true]
    intro hQuote
    obtain ⟨body, behind, rfl, hBody⟩ := exists_runsThrough (EndsString c) rest
    exact h _ _ _ (List.cons_append ..).symm (.string hQuote hBody)
  · rintro rfl
    constructor
    · intro hSlash
      obtain ⟨rest, rfl⟩ := List.head?_eq_some_iff.mp hSlash
      obtain ⟨body, behind, rfl, hBody⟩ := exists_runsThrough EndsLine rest
      exact h _ _ _ rfl (.line hBody)
    · intro hStar
      obtain ⟨rest, rfl⟩ := List.head?_eq_some_iff.mp hStar
      obtain ⟨body, behind, rfl, hBody⟩ := exists_runsThrough EndsBlock rest
      exact h _ _ _ rfl (.block hBody)

theorem IsSegmented.ofText_eq (h : IsSegmented segments s) :
    ofText s = segments.flatMap Segment.marks := by
  induction h with
  | nil => rfl
  | delimited hText h hRest ih => rw [hText, h.ofText_append, ih, List.flatMap_cons, Segment.marks]
  | code hCode hRest ih => rw [ofText_cons_of_code hCode, ih, List.flatMap_cons]; rfl

end Segments

/-! ## Places of characters -/

theorem map_placeFrom (offset : Nat) (marks : List Marked) :
    (placeFrom offset marks).map (·.toMarked) = marks := by
  induction marks generalizing offset with
  | nil => rfl
  | cons m marks ih => rw [placeFrom, List.map_cons, ih]

theorem getElem?_placeFrom (offset n : Nat) (marks : List Marked) :
    (placeFrom offset marks)[n]? =
      marks[n]?.map (⟨·, offset + Text.byteLength (toText (marks.take n))⟩) := by
  induction marks generalizing offset n with
  | nil => rfl
  | cons m marks ih =>
    cases n with
    | zero => rfl
    | succ n =>
      rw [placeFrom, List.getElem?_cons_succ, List.getElem?_cons_succ, ih, List.take_succ_cons,
        toText_cons, Text.byteLength_cons, Nat.add_assoc]

/-- Every character of a script is read once, in order and at its byte offset, and it is marked as
the segment is in which it stands: the script falls into segments in one way. -/
theorem existsUnique_segments (source : Text) :
    (∀ n, (placed source)[n]?.map (fun m => (m.offset, m.char)) =
      source[n]?.map fun c => (Text.byteLength (source.take n), c)) ∧
    ∃ segments, (∀ other, IsSegmented other source ↔ other = segments) ∧
      (placed source).map (·.toMarked) = segments.flatMap Segment.marks := by
  constructor
  · intro n
    have hTake : toText ((ofText source).take n) = source.take n := by
      rw [toText, List.map_take]
      exact congrArg (List.take n) (toText_scan .code source)
    have hChar : (ofText source)[n]?.map (·.char) = source[n]? := by
      rw [← List.getElem?_map]
      exact congrArg (·[n]?) (toText_scan .code source)
    rw [placed, getElem?_placeFrom, hTake, ← hChar, Option.map_map, Option.map_map, Nat.zero_add]
    rfl
  · obtain ⟨segments, hSegments⟩ := exists_isSegmented source
    refine ⟨segments, fun other => ⟨fun h => h.unique hSegments, ?_⟩, ?_⟩
    · rintro rfl
      exact hSegments
    · rw [placed, map_placeFrom, hSegments.ofText_eq]

-- The star of an opening closes no comment, and an escaped quote ends no string.
example : (placed "é/*/*/'\\''/".toList).map (fun m => (m.offset, m.cls)) =
    [(0, .code), (2, .comment), (3, .comment), (4, .comment), (5, .comment), (6, .comment),
      (7, .string), (8, .string), (9, .string), (10, .string), (11, .code)] := by
  decide

end Marked

end DesignParams
