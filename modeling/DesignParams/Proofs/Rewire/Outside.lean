import DesignParams.Proofs.Rewire.Rigged
import DesignParams.Proofs.RootBlock.References
import DesignParams.Proofs.Stylesheet.Trail

/-!
# References outside a block

No reference reaches into a value or out of it: a colon or a comment stands in front of it, and what
ends its declaration stands behind. So a splice refers outside its block to what the stylesheet
referred to there, and to the parameters.
-/
set_option autoImplicit false

namespace DesignParams

namespace Rewire

open Declaration

/-! ## Around one value -/

def Trails (s : Text) : Prop :=
  ∀ c ∈ (Text.trimStart s).head?, c = ';' ∨ c = '\x7D' ∨ c = '!'

theorem trails_append {tail rest : Text} (hTail : IsTrailer tail) (hRest : IsEnd rest) :
    Trails (tail ++ rest) := by
  intro c hc
  cases hTail with
  | blank hBlank =>
    rw [Text.trimStart_append_of_blank hBlank] at hc
    cases rest with
    | nil => cases hc
    | cons d rest =>
      have hEnds := hRest d rfl
      have hMark : isBlank d = false := by
        rcases hEnds with rfl | rfl
        · decide
        · decide
      rw [Text.trimStart, List.dropWhile_cons_of_neg (by simp [hMark])] at hc
      obtain rfl := Option.some.inj hc
      rcases hEnds with hSemicolon | hBracket
      · exact .inl hSemicolon
      · exact .inr (.inl hBracket)
  | priority hBefore =>
    have hMark : isBlank '!' = false := by decide
    rw [List.append_assoc, Text.trimStart_append_of_blank hBefore, Text.trimStart, List.cons_append,
      List.dropWhile_cons_of_neg (by simp [hMark])] at hc
    exact .inr (.inr (Option.some.inj hc).symm)

theorem Trails.severs {s : Text} (h : Trails s) : RootBlock.Severs s := by
  intro c hc
  rcases h c hc with rfl | rfl | rfl
  · decide
  · decide
  · decide

theorem Trails.severs_append {s u : Text} (h : Trails (s ++ '/' :: u)) (t : Text) :
    RootBlock.Severs (s ++ t) := by
  have hSlash : isBlank '/' = false := by decide
  rw [Trails, Text.trimStart_append_mark hSlash] at h
  cases hTrim : Text.trimStart s with
  | nil =>
    rw [hTrim] at h
    exact absurd (h '/' rfl) (by decide)
  | cons d rest =>
    intro c hc
    rw [hTrim] at h
    rw [Text.trimStart, List.dropWhile_append, if_neg] at hc
    · rw [Text.trimStart] at hTrim
      rw [hTrim] at hc
      obtain rfl := Option.some.inj hc
      rcases h d rfl with rfl | rfl | rfl
      · decide
      · decide
      · decide
    · rw [List.isEmpty_iff]
      exact hTrim.trans_ne (List.cons_ne_nil d rest)

theorem references_seat {front : Text} (h : IsSeat front) (s : Text) :
    RootBlock.references (front ++ s) = RootBlock.references front ++ RootBlock.references s := by
  obtain ⟨before, mark, blank, rfl, hMark, hBlank⟩ := h
  have hSevers (t : Text) : RootBlock.Severs (mark :: t) := by
    rcases hMark with rfl | rfl
    · exact RootBlock.severs_cons (by decide) (by decide) (by decide) t
    · exact RootBlock.severs_cons (by decide) (by decide) (by decide) t
  have hFirst : 'v' ∉ mark :: blank := by
    rw [List.mem_cons, not_or]
    constructor
    · rcases hMark with rfl | rfl
      · decide
      · decide
    · intro hMem
      exact absurd (List.all_eq_true.mp hBlank 'v' hMem) (by decide)
  have hNil := RootBlock.references_append_of_not_mem hFirst []
  rw [List.append_nil, RootBlock.references] at hNil
  rw [List.append_assoc, List.cons_append, RootBlock.references_append (hSevers _),
    RootBlock.references_append (hSevers _), hNil, List.append_nil, ← List.cons_append,
    RootBlock.references_append_of_not_mem hFirst]

theorem references_referenceTo {name : Text} (h : IsGenerated name) (rest : Text) :
    RootBlock.references (referenceTo name ++ rest) = name :: RootBlock.references rest := by
  have hBehind := RootBlock.references_append_of_not_mem (s := [')']) (by decide) rest
  rw [List.singleton_append] at hBehind
  rw [RootBlock.references_some (reference?_referenceTo h rest), hBehind]

/-- A value stands in a stylesheet between a seat and a trail. -/
theorem seat_and_trail {css : Text} {file : Path} {p : Parameter} (hp : p ∈ Stylesheet.scan css file)
    {front rest : Text} (hSplit : css = front ++ (p.source.value ++ rest))
    (hStart : p.source.start = (Text.byteLength front : Nat)) : IsSeat front ∧ Trails rest := by
  constructor
  · obtain ⟨t, hWoven⟩ := exists_woven_scan (List.Sublist.refl (Stylesheet.scan css file))
    obtain ⟨gap, behind, hCut, hLead, hAt, -⟩ := hWoven.exists_seat hp
    obtain ⟨rfl, -⟩ := Text.append_inj_of_byteLength (hSplit.symm.trans hCut) (by omega)
    exact hLead.seat
  · obtain ⟨d, hd, hDescribes⟩ := exists_describes_of_mem_scan hp
    obtain ⟨gap, tail, behind, hCut, hAt, hTail, hEnd⟩ := trailed_ofStylesheet css d hd
    have hDescribed := hDescribes.start
    obtain ⟨rfl, hRest⟩ := Text.append_inj_of_byteLength (hSplit.symm.trans hCut) (by omega)
    rw [hDescribes.value] at hRest
    obtain rfl := List.append_cancel_left hRest
    exact trails_append hTail hEnd

/-! ## Around all values -/

theorem Woven.references_subset {offset : Nat} {s t : Text} {params : List Parameter}
    (h : Woven offset s params t) (w : Text)
    (hRest : ∀ p ∈ params, ∀ front rest, s = front ++ (p.source.value ++ rest) →
      p.source.start = (offset + Text.byteLength front : Nat) → RootBlock.Severs (rest ++ w)) :
    ∀ front, ∀ name ∈ RootBlock.references (front ++ (t ++ w)),
      name ∈ RootBlock.references (front ++ (s ++ w)) ∨ name ∈ params.map (·.customProperty) := by
  induction h with
  | nil => exact fun _ _ hName => .inl hName
  | @cons offset gap value rest rewired p params lead nonempty read start stop generated tail ih =>
    intro front name hName
    have hSeat : IsSeat (front ++ gap) := lead.seat.prepend front
    have hSevers := hRest p List.mem_cons_self gap rest (by rw [read]) start
    have hTail : ∀ q ∈ params, ∀ front' rest', rest = front' ++ (q.source.value ++ rest') →
        q.source.start = (offset + Text.byteLength gap + Text.byteLength value +
          Text.byteLength front' : Nat) → RootBlock.Severs (rest' ++ w) := by
      rintro q hq front' rest' rfl hStart
      apply hRest q (List.mem_cons_of_mem p hq) (gap ++ (value ++ front')) rest'
      · simp only [List.append_assoc]
      · rw [hStart, Text.byteLength_append, Text.byteLength_append]
        omega
    have hOld : RootBlock.references (front ++ ((gap ++ (value ++ rest)) ++ w)) =
        RootBlock.references (front ++ gap) ++
          (RootBlock.references value ++ RootBlock.references (rest ++ w)) := by
      rw [← RootBlock.references_append hSevers, ← references_seat hSeat]
      simp only [List.append_assoc]
    have hNew : RootBlock.references (front ++ ((gap ++ (referenceTo p.customProperty ++ rewired)) ++ w)) =
        RootBlock.references (front ++ gap) ++
          p.customProperty :: RootBlock.references (rewired ++ w) := by
      rw [← references_referenceTo generated, ← references_seat hSeat]
      simp only [List.append_assoc]
    rw [hNew, List.mem_append, List.mem_cons] at hName
    rw [hOld, List.mem_append, List.mem_append, List.map_cons, List.mem_cons]
    rcases hName with hFront | rfl | hBehind
    · exact .inl (.inl hFront)
    · exact .inr (.inl rfl)
    · rcases ih hTail [] name hBehind with hOldName | hParam
      · exact .inl (.inr (.inr hOldName))
      · exact .inr (.inr hParam)

/-! ## Around a block -/

theorem outside_eq {css : Text} {parts : RootBlock.Split} (h : RootBlock.split? css = some parts) :
    outside css = parts.before ++ parts.after := by
  rw [outside, h]

/-- Is the value of a parameter in front of the root block, within it, or behind it with its colon?
And does it not close the block? -/
def IsClear (css : Text) (p : Parameter) : Prop :=
  ¬ RootBlock.closing <:+: p.source.value ∧ ∀ parts ∈ RootBlock.split? css,
    p.source.stop ≤ (Text.byteLength parts.before : Nat) ∨ IsInside parts p ∨
      HoldsColon (blockEnd parts) parts.after p

instance (css : Text) (p : Parameter) : Decidable (IsClear css p) :=
  inferInstanceAs (Decidable (_ ∧ ∀ parts ∈ RootBlock.split? css, _))

section

variable {css : Text} {file : Path} {parts : RootBlock.Split}

theorem severs_before (hSplit : RootBlock.split? css = some parts) {p : Parameter}
    (hp : p ∈ Stylesheet.scan css file) {front rest : Text}
    (hBefore : parts.before = front ++ (p.source.value ++ rest))
    (hStart : p.source.start = (Text.byteLength front : Nat)) (t : Text) :
    RootBlock.Severs (rest ++ t) := by
  obtain ⟨u, hu, -⟩ := RootBlock.IsSentinel.exists_cons (.inl rfl : RootBlock.IsSentinel RootBlock.opening)
  obtain ⟨hText, -, -⟩ := RootBlock.split?_eq_some_iff.mp hSplit
  rw [hBefore, hu] at hText
  simp only [List.append_assoc, List.cons_append] at hText
  exact (seat_and_trail hp hText hStart).2.severs_append t

theorem severs_after (hSplit : RootBlock.split? css = some parts) {p : Parameter}
    (hp : p ∈ Stylesheet.scan css file) {front rest : Text}
    (hAfter : parts.after = front ++ (p.source.value ++ rest))
    (hStart : p.source.start = (blockEnd parts + Text.byteLength front : Nat)) :
    RootBlock.Severs rest := by
  obtain ⟨hText, -, -⟩ := RootBlock.split?_eq_some_iff.mp hSplit
  have hCut : css = (parts.before ++ RootBlock.opening ++ parts.inner ++ RootBlock.closing ++ front) ++
      (p.source.value ++ rest) := by
    rw [hText, hAfter]
    simp only [List.append_assoc]
  refine (seat_and_trail hp hCut ?_).2.severs
  rw [hStart, Text.byteLength_append, blockEnd]

/-- A splice of a text with a block refers outside the block to what the text did, and to the
parameters. -/
theorem exists_splice_parts (hSplit : RootBlock.split? css = some parts)
    (hClear : ∀ p ∈ Stylesheet.scan css file, IsClear css p) :
    ∃ next, RootBlock.split? (splice css (Stylesheet.scan css file)) = some next ∧
      ∀ name ∈ RootBlock.references (next.before ++ next.after),
        name ∈ RootBlock.references (outside css) ∨
          name ∈ (Stylesheet.scan css file).map (·.customProperty) := by
  obtain ⟨t, hWoven⟩ := exists_woven_scan (List.Sublist.refl (Stylesheet.scan css file))
  rw [hWoven.splice_eq (List.Perm.refl _), outside_eq hSplit]
  obtain ⟨next, first, second, hNext, hFirst, hSecond, hBefore, -, hAfter⟩ :=
    hWoven.exists_parts hSplit fun p hp => by
      rcases (hClear p hp).2 parts hSplit with hFront | hInside | hColon
      · exact .inl hFront
      · exact .inr (.inl hInside)
      · exact .inr (.inr hColon.1)
  replace hAfter := hAfter fun p hp hStart => by
    obtain ⟨front, rest, -, hAt, hStop⟩ := hWoven.exists_span hp
    have hLength := congrArg Text.byteLength (RootBlock.split?_eq_some_iff.mp hSplit).1
    rcases (hClear p hp).2 parts hSplit with hFront | hInside | hColon
    · simp only [blockEnd, Text.byteLength_append] at hStart
      have hPositive : 0 < Text.byteLength RootBlock.opening := by decide
      omega
    · have hHigh := hInside.2
      simp only [blockEnd, Text.byteLength_append] at hStart hHigh
      have hPositive : 0 < Text.byteLength RootBlock.closing := by decide
      omega
    · exact hColon
  have hFront := hBefore.references_subset parts.after (fun p hp front rest hCut hStart =>
    severs_before hSplit (hFirst hp) hCut (by omega) parts.after) []
  have hBehind := hAfter.references_subset [] (fun p hp front rest hCut hStart => by
    rw [List.append_nil]
    exact severs_after hSplit (hSecond hp) hCut hStart) next.before
  simp only [List.append_nil, List.nil_append] at hFront hBehind
  refine ⟨next, hNext, fun name hName => ?_⟩
  rcases hBehind name hName with hOld | hNew
  · rcases hFront name hOld with hOld | hNew
    · exact .inl hOld
    · exact .inr (List.map_subset _ hFirst hNew)
  · exact .inr (List.map_subset _ hSecond hNew)

theorem references_value_subset (hSplit : RootBlock.split? css = some parts) {p : Parameter}
    (hp : p ∈ Stylesheet.scan css file) (hClear : IsClear css p) (hOutside : ¬ IsInside parts p) :
    RootBlock.references p.source.value ⊆ RootBlock.references (outside css) := by
  obtain ⟨t, hWoven⟩ := exists_woven_scan (List.Sublist.refl (Stylesheet.scan css file))
  obtain ⟨front, rest, hCut, hStart, hStop⟩ := hWoven.exists_span hp
  rw [Nat.zero_add] at hStart hStop
  obtain ⟨hSeat, -⟩ := seat_and_trail hp hCut hStart
  obtain ⟨hText, -, -⟩ := RootBlock.split?_eq_some_iff.mp hSplit
  rw [outside_eq hSplit]
  rcases hClear.2 parts hSplit with hFront | hInside | hColon
  · have hBefore : (front ++ p.source.value) ++ rest = parts.before ++ (RootBlock.opening ++
        (parts.inner ++ (RootBlock.closing ++ parts.after))) := by
      rw [List.append_assoc, ← hCut, hText]
    obtain ⟨more, hMore, -⟩ := Text.exists_append_of_byteLength_le hBefore (by
      rw [Text.byteLength_append]
      omega)
    rw [List.append_assoc] at hMore
    have hSevers := severs_before hSplit hp hMore hStart parts.after
    rw [hMore, List.append_assoc, List.append_assoc, references_seat hSeat,
      RootBlock.references_append hSevers]
    exact List.Subset.trans (List.subset_append_left _ _) (List.subset_append_right _ _)
  · exact absurd hInside hOutside
  · obtain ⟨gap, behind, hAfter, hMem, hAt⟩ := hColon.exists_append
    have hSame : front ++ (p.source.value ++ rest) = (parts.before ++ RootBlock.opening ++
        parts.inner ++ RootBlock.closing ++ gap) ++ behind := by
      rw [← hCut, hText, hAfter]
      simp only [List.append_assoc]
    obtain ⟨rfl, rfl⟩ := Text.append_inj_of_byteLength hSame (by
      rw [Text.byteLength_append]
      simp only [blockEnd] at hAt
      omega)
    have hSevers := severs_after hSplit hp hAfter hAt
    have hGap : IsSeat (parts.before ++ gap) :=
      (hSeat.of_append hMem (by decide)).prepend parts.before
    rw [hAfter, ← List.append_assoc, references_seat hGap, RootBlock.references_append hSevers]
    exact List.Subset.trans (List.subset_append_left _ _) (List.subset_append_right _ _)

end

end Rewire

end DesignParams
