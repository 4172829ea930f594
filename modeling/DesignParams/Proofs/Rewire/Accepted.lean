import DesignParams.Proofs.Rewire.Splice
import DesignParams.Proofs.Stylesheet.Exact

/-!
# Splicing any spans

Parameters may have spans that overlap, cut a character or lie out of range. Which of them are
replaced can be told from the text as it was before any replacement, although a splice looks at the
text with the later ones already replaced; and the splice is the text put together from front to
back, with a reference in the place of each accepted span.
-/
set_option autoImplicit false

namespace DesignParams

namespace Rewire

/-! ## The order of the spans -/

/-- Are these the spans of the parameters, the last one in the text first, those that begin together
in the order of the parameters? -/
structure IsWalk (params : List Parameter) (walk : List Replacement) : Prop where
  descending : walk.Pairwise fun a b => b.start ≤ a.start
  stable : ∀ start, walk.filter (·.start = start) =
    (params.filterMap Replacement.ofParameter?).filter (·.start = start)

theorem isWalk_iff {params : List Parameter} {walk : List Replacement} :
    IsWalk params walk ↔ walk.Pairwise (fun a b => b.start ≤ a.start) ∧
      ∀ r ∈ walk ++ params.filterMap Replacement.ofParameter?,
        walk.filter (·.start = r.start) =
          (params.filterMap Replacement.ofParameter?).filter (·.start = r.start) := by
  constructor
  · exact fun h => ⟨h.descending, fun r _ => h.stable r.start⟩
  · rintro ⟨hDescending, hStable⟩
    refine ⟨hDescending, fun start => ?_⟩
    by_cases hOccurs : ∃ r ∈ walk ++ params.filterMap Replacement.ofParameter?, r.start = start
    · obtain ⟨r, hr, rfl⟩ := hOccurs
      exact hStable r hr
    · have hNone {l : List Replacement}
          (hPart : l ⊆ walk ++ params.filterMap Replacement.ofParameter?) :
          l.filter (·.start = start) = [] :=
        List.filter_eq_nil_iff.mpr fun r hr hStart =>
          hOccurs ⟨r, hPart hr, of_decide_eq_true hStart⟩
      rw [hNone (List.subset_append_left _ _), hNone (List.subset_append_right _ _)]

instance (params : List Parameter) (walk : List Replacement) : Decidable (IsWalk params walk) :=
  decidable_of_iff _ isWalk_iff.symm

theorem isWalk_replacements (params : List Parameter) : IsWalk params (replacements params) := by
  constructor
  case descending => exact descending_replacements params
  case stable =>
    intro start
    have hPerm := (List.mergeSort_perm (params.filterMap Replacement.ofParameter?)
      fun a b => b.start ≤ a.start).filter (·.start = start)
    have hTies : ((params.filterMap Replacement.ofParameter?).filter (·.start = start)).Pairwise
        fun a b => decide (b.start ≤ a.start) = true := by
      refine List.pairwise_of_forall_mem_list fun a ha b hb => decide_eq_true ?_
      have hHere := of_decide_eq_true (List.mem_filter.mp ha).2
      have hThere := of_decide_eq_true (List.mem_filter.mp hb).2
      omega
    have hSublist := (List.sublist_mergeSort descending_trans descending_total hTies
      List.filter_sublist).filter (·.start = start)
    rw [List.filter_filter] at hSublist
    simp only [Bool.and_self] at hSublist
    exact (hSublist.eq_of_length hPerm.length_eq.symm).symm

/-- The order of the walk is determined: two lists agree when each is descending and they hold the
same spans of every start in one order. -/
theorem eq_of_descending {walk other : List Replacement}
    (hWalk : walk.Pairwise fun a b => b.start ≤ a.start)
    (hOther : other.Pairwise fun a b => b.start ≤ a.start)
    (h : ∀ start, walk.filter (·.start = start) = other.filter (·.start = start)) : walk = other := by
  have hMem {l m : List Replacement}
      (hSame : ∀ start, l.filter (·.start = start) = m.filter (·.start = start)) :
      ∀ r ∈ l, r ∈ m := by
    intro r hr
    have hFilter : r ∈ l.filter (·.start = r.start) :=
      List.mem_filter.mpr ⟨hr, decide_eq_true rfl⟩
    rw [hSame] at hFilter
    exact List.mem_of_mem_filter hFilter
  induction walk generalizing other with
  | nil =>
    cases other with
    | nil => rfl
    | cons b other => exact absurd (hMem (fun start => (h start).symm) b List.mem_cons_self) (by simp)
  | cons a walk ih =>
    cases other with
    | nil => exact absurd (hMem h a List.mem_cons_self) (by simp)
    | cons b other =>
      rw [List.pairwise_cons] at hWalk hOther
      have hLow : a.start ≤ b.start := by
        rcases List.mem_cons.mp (hMem h a List.mem_cons_self) with rfl | ha
        · exact Nat.le_refl _
        · exact hOther.1 a ha
      have hHigh : b.start ≤ a.start := by
        rcases List.mem_cons.mp (hMem (fun start => (h start).symm) b List.mem_cons_self) with rfl | hb
        · exact Nat.le_refl _
        · exact hWalk.1 b hb
      have hStart : b.start = a.start := Nat.le_antisymm hHigh hLow
      have hFirst := h a.start
      rw [List.filter_cons_of_pos (by simp), List.filter_cons_of_pos (by simp [hStart])] at hFirst
      obtain ⟨rfl, -⟩ := List.cons.inj hFirst
      congr 1
      refine ih hWalk.2 hOther.2 fun start => ?_
      have hRest := h start
      by_cases hHere : a.start = start
      · rw [List.filter_cons_of_pos (by simp [hHere]), List.filter_cons_of_pos (by simp [hHere])]
          at hRest
        exact (List.cons.inj hRest).2
      · rwa [List.filter_cons_of_neg (by simp [hHere]), List.filter_cons_of_neg (by simp [hHere])]
          at hRest

theorem IsWalk.eq_replacements {params : List Parameter} {walk : List Replacement}
    (h : IsWalk params walk) : walk = replacements params := by
  have hSorted := isWalk_replacements params
  exact eq_of_descending h.descending hSorted.descending fun start =>
    (h.stable start).trans (hSorted.stable start).symm

theorem start_lt_stop_of_mem {params : List Parameter} {r : Replacement}
    (h : r ∈ replacements params) : r.start < r.stop := by
  obtain ⟨p, -, hSpan⟩ := List.mem_filterMap.mp ((List.mergeSort_perm _ _).subset h)
  obtain ⟨⟨start, stop⟩, hRead, rfl⟩ := Option.map_eq_some_iff.mp hSpan
  rw [Source.span?] at hRead
  split at hRead
  · obtain ⟨rfl, rfl⟩ := Prod.mk.inj (Option.some.inj hRead)
    simp only
    omega
  · cases hRead

/-! ## Accepted and rejected spans -/

def Replacement.Overlaps (a b : Replacement) : Prop :=
  ∃ offset, (a.start ≤ offset ∧ offset < a.stop) ∧ (b.start ≤ offset ∧ offset < b.stop)

/-- Does the span lie within the text, cut between characters, and in front of the last one that was
accepted? -/
def Replacement.Fits (content : Text) (last : Option Replacement) (r : Replacement) : Prop :=
  r.stop ≤ Text.byteLength content ∧ Text.isBoundary r.start content = true ∧
    Text.isBoundary r.stop content = true ∧ ∀ a ∈ last, r.stop ≤ a.start

instance (content : Text) (last : Option Replacement) (r : Replacement) :
    Decidable (r.Fits content last) :=
  inferInstanceAs (Decidable (_ ∧ _ ∧ _ ∧ _))

structure Verdict where
  accepted : List Replacement
  rejected : List Replacement
deriving DecidableEq, Repr

def Verdict.ofWalk (content : Text) : Option Replacement → List Replacement → Verdict
  | _, [] => ⟨[], []⟩
  | last, r :: walk =>
    if r.Fits content last then
      let verdict := ofWalk content (some r) walk
      ⟨r :: verdict.accepted, verdict.rejected⟩
    else
      let verdict := ofWalk content last walk
      ⟨verdict.accepted, r :: verdict.rejected⟩

/-- The text behind an offset with spans replaced from front to back: each gap of the text, then the
reference. -/
def rebuildFrom? (content : Text) : Nat → List Replacement → Option Text
  | offset, [] => Text.slice? offset (Text.byteLength content) content
  | offset, r :: rest => do
    let gap ← Text.slice? offset r.start content
    let behind ← rebuildFrom? content r.stop rest
    some (gap ++ (referenceTo r.customProperty ++ behind))

theorem Replacement.of_not_fits {content : Text} {last : Option Replacement} {r : Replacement}
    (h : ¬ r.Fits content last) :
    Text.byteLength content < r.stop ∨ Text.isBoundary r.start content = false ∨
      Text.isBoundary r.stop content = false ∨ ∃ a ∈ last, a.start < r.stop := by
  by_contra hNone
  simp only [not_or, not_exists, not_and, Bool.not_eq_false, Nat.not_lt] at hNone
  exact h hNone

theorem Verdict.ofWalk_of_fits {content : Text} {last : Option Replacement} {r : Replacement}
    (h : r.Fits content last) (walk : List Replacement) :
    ofWalk content last (r :: walk) =
      ⟨r :: (ofWalk content (some r) walk).accepted, (ofWalk content (some r) walk).rejected⟩ := by
  rw [ofWalk, if_pos h]

theorem Verdict.ofWalk_of_not_fits {content : Text} {last : Option Replacement} {r : Replacement}
    (h : ¬ r.Fits content last) (walk : List Replacement) :
    ofWalk content last (r :: walk) =
      ⟨(ofWalk content last walk).accepted, r :: (ofWalk content last walk).rejected⟩ := by
  rw [ofWalk, if_neg h]

section Walk

variable {content : Text} {last : Option Replacement} {walk : List Replacement}

theorem stop_le_of_mem_accepted (hSpans : ∀ r ∈ walk, r.start < r.stop) {r : Replacement}
    (h : r ∈ (Verdict.ofWalk content last walk).accepted) :
    r.start < r.stop ∧ ∀ a ∈ last, r.stop ≤ a.start := by
  induction walk generalizing last with
  | nil => cases h
  | cons b walk ih =>
    rw [List.forall_mem_cons] at hSpans
    by_cases hFits : b.Fits content last
    · rw [Verdict.ofWalk_of_fits hFits] at h
      rcases List.mem_cons.mp h with rfl | h
      · exact ⟨hSpans.1, hFits.2.2.2⟩
      · obtain ⟨hSpan, hStop⟩ := ih hSpans.2 h
        refine ⟨hSpan, fun a ha => ?_⟩
        have hBefore := hStop b rfl
        have hBehind := hFits.2.2.2 a ha
        omega
    · rw [Verdict.ofWalk_of_not_fits hFits] at h
      exact ih hSpans.2 h

theorem pairwise_accepted (hSpans : ∀ r ∈ walk, r.start < r.stop) :
    (Verdict.ofWalk content last walk).accepted.Pairwise fun a b => ¬ a.Overlaps b := by
  induction walk generalizing last with
  | nil => exact .nil
  | cons b walk ih =>
    rw [List.forall_mem_cons] at hSpans
    by_cases hFits : b.Fits content last
    · rw [Verdict.ofWalk_of_fits hFits]
      refine .cons (fun r hr => ?_) (ih hSpans.2)
      rintro ⟨offset, ⟨hLow, -⟩, -, hHigh⟩
      have hStop := (stop_le_of_mem_accepted hSpans.2 hr).2 b rfl
      omega
    · rw [Verdict.ofWalk_of_not_fits hFits]
      exact ih hSpans.2

/-- A span that does not fit is out of range, cuts a character, or reaches over the start of the last
one that was accepted, which lies behind its own start. -/
theorem of_mem_rejected (hSpans : ∀ r ∈ walk, r.start < r.stop)
    (hWalk : walk.Pairwise fun a b => b.start ≤ a.start)
    (hLast : ∀ a ∈ last, a.start < a.stop ∧ ∀ r ∈ walk, r.start ≤ a.start) {r : Replacement}
    (h : r ∈ (Verdict.ofWalk content last walk).rejected) :
    Text.byteLength content < r.stop ∨ Text.isBoundary r.start content = false ∨
      Text.isBoundary r.stop content = false ∨
        ∃ a, (a ∈ last ∨ a ∈ (Verdict.ofWalk content last walk).accepted) ∧ r.Overlaps a := by
  induction walk generalizing last with
  | nil => cases h
  | cons b walk ih =>
    rw [List.forall_mem_cons] at hSpans
    rw [List.pairwise_cons] at hWalk
    by_cases hFits : b.Fits content last
    · rw [Verdict.ofWalk_of_fits hFits] at h ⊢
      have hNext : ∀ a ∈ some b, a.start < a.stop ∧ ∀ r ∈ walk, r.start ≤ a.start := by
        rintro a ⟨⟩
        exact ⟨hSpans.1, hWalk.1⟩
      refine (ih hSpans.2 hWalk.2 hNext h).imp_right (Or.imp_right (Or.imp_right ?_))
      rintro ⟨a, ha | ha, hOverlap⟩
      · cases ha
        exact ⟨b, .inr List.mem_cons_self, hOverlap⟩
      · exact ⟨a, .inr (List.mem_cons_of_mem b ha), hOverlap⟩
    · rw [Verdict.ofWalk_of_not_fits hFits] at h ⊢
      rcases List.mem_cons.mp h with rfl | h
      · refine (Replacement.of_not_fits hFits).imp_right (Or.imp_right (Or.imp_right ?_))
        rintro ⟨a, ha, hBehind⟩
        obtain ⟨hSpan, hOrder⟩ := hLast a ha
        have hStart := hOrder r List.mem_cons_self
        exact ⟨a, .inl ha, a.start, ⟨hStart, hBehind⟩, Nat.le_refl _, hSpan⟩
      · refine ih hSpans.2 hWalk.2 (fun a ha => ?_) h
        exact ⟨(hLast a ha).1, fun r hr => (hLast a ha).2 r (List.mem_cons_of_mem b hr)⟩

end Walk

/-! ## The text while spans are replaced -/

/-- A text with some spans replaced: in front of the last one it is as it was, and from any cut of
that part on it is what is rebuilt of the text with the spans that are done. -/
structure IsSpliced (content : Text) (last : Option Replacement) (done : List Replacement)
    (front tail : Text) : Prop where
  untouched : front <+: content
  floor : ∀ a ∈ last, Text.byteLength front = a.start
  whole : last = none → front = content ∧ tail = []
  rebuilt : ∀ x y, front = x ++ y →
    rebuildFrom? content (Text.byteLength x) done = some (y ++ tail)

theorem isSpliced_nil (content : Text) : IsSpliced content none [] content [] := by
  constructor
  case untouched => exact List.prefix_refl content
  case floor => simp
  case whole => exact fun _ => ⟨rfl, rfl⟩
  case rebuilt =>
    rintro x y rfl
    have hSlice := Text.slice?_append x y []
    rw [List.append_nil, ← Text.byteLength_append] at hSlice
    rw [rebuildFrom?, hSlice, List.append_nil]

section Step

variable {content front tail : Text} {last : Option Replacement} {done : List Replacement}
  {r : Replacement}

theorem exists_append_of_isBoundary {offset : Nat} {s : Text} (h : Text.isBoundary offset s = true) :
    ∃ before after, s = before ++ after ∧ Text.byteLength before = offset := by
  obtain ⟨⟨before, after⟩, hCut⟩ := Option.isSome_iff_exists.mp h
  exact ⟨before, after, Text.append_of_splitAt? hCut⟩

theorem IsSpliced.fits_iff (h : IsSpliced content last done front tail) (hSpan : r.start < r.stop) :
    r.Fits content last ↔ ∃ x value y, front = x ++ (value ++ y) ∧ Text.byteLength x = r.start ∧
      Text.byteLength (x ++ value) = r.stop := by
  obtain ⟨back, hContent⟩ := h.untouched
  constructor
  · rintro ⟨hRange, hStart, hStop, hBefore⟩
    obtain ⟨x, x', hx, hxLength⟩ := exists_append_of_isBoundary hStart
    obtain ⟨z, z', hz, hzLength⟩ := exists_append_of_isBoundary hStop
    have hFront : Text.byteLength z ≤ Text.byteLength front := by
      cases last with
      | none => rw [(h.whole rfl).1, hzLength]; exact hRange
      | some a => rw [h.floor a rfl, hzLength]; exact hBefore a rfl
    obtain ⟨y, rfl, -⟩ := Text.exists_append_of_byteLength_le (hz.symm.trans hContent.symm) hFront
    obtain ⟨value, rfl, -⟩ := Text.exists_append_of_byteLength_le (hx.symm.trans hz) (by omega)
    exact ⟨x, value, y, List.append_assoc _ _ _, hxLength, hzLength⟩
  · rintro ⟨x, value, y, rfl, hStart, hStop⟩
    have hLength : Text.byteLength (x ++ (value ++ y)) ≤ Text.byteLength content := by
      rw [← hContent, Text.byteLength_append _ back]
      exact Nat.le_add_right _ _
    have hCut : x ++ (value ++ y) = (x ++ value) ++ y := (List.append_assoc _ _ _).symm
    have hInFront : r.stop ≤ Text.byteLength (x ++ (value ++ y)) := by
      rw [hCut, Text.byteLength_append _ y, hStop]
      exact Nat.le_add_right _ _
    refine ⟨Nat.le_trans hInFront hLength, ?_, ?_, fun a ha => (h.floor a ha) ▸ hInFront⟩
    · rw [← hStart, ← hContent, List.append_assoc]
      exact Text.isBoundary_append x _
    · rw [← hStop, ← hContent, hCut, List.append_assoc]
      exact Text.isBoundary_append (x ++ value) _

theorem IsSpliced.of_cut? (h : IsSpliced content last done front tail) {x rest : Text}
    (hCut : cut? r (front ++ tail) = some (x, rest))
    (hFloor : (last.map (·.start)).all (r.stop ≤ ·) = true) :
    ∃ value y, front = x ++ (value ++ y) ∧ Text.byteLength x = r.start ∧
      Text.byteLength (x ++ value) = r.stop := by
  rw [cut?] at hCut
  split at hCut
  · rename_i before behind through after hStart hStop
    split at hCut
    · rename_i hOrder
      obtain ⟨rfl, rfl⟩ := Prod.mk.inj (Option.some.inj hCut)
      obtain ⟨hx, hxLength⟩ := Text.append_of_splitAt? hStart
      obtain ⟨hz, hzLength⟩ := Text.append_of_splitAt? hStop
      have hFront : Text.byteLength through ≤ Text.byteLength front := by
        cases last with
        | none =>
          have hLength := congrArg Text.byteLength hz
          rw [(h.whole rfl).2, List.append_nil, Text.byteLength_append] at hLength
          omega
        | some a =>
          rw [h.floor a rfl, hzLength]
          simpa using hFloor
      obtain ⟨y, rfl, -⟩ := Text.exists_append_of_byteLength_le hz.symm hFront
      rw [List.append_assoc] at hx hz
      obtain ⟨value, rfl, -⟩ := Text.exists_append_of_byteLength_le hx.symm (by omega)
      exact ⟨value, y, List.append_assoc _ _ _, hxLength, hzLength⟩
    · cases hCut
  · cases hCut

/-- One step of a splice replaces a span that fits the original text. -/
theorem IsSpliced.step (h : IsSpliced content last done front tail) (hSpan : r.start < r.stop)
    (hFits : r.Fits content last) :
    ∃ front' tail', IsSpliced content (some r) (r :: done) front' tail' ∧
      ∀ walk, applyAll (r :: walk) (last.map (·.start)) (front ++ tail) =
        applyAll walk (some r.start) (front' ++ tail') := by
  obtain ⟨x, value, y, rfl, hStart, hStop⟩ := (h.fits_iff hSpan).mp hFits
  refine ⟨x, referenceTo r.customProperty ++ (y ++ tail), ?_, fun walk => ?_⟩
  · constructor
    case untouched => exact (List.prefix_append x _).trans h.untouched
    case floor =>
      rintro a ⟨⟩
      exact hStart
    case whole => intro hNone; cases hNone
    case rebuilt =>
      rintro x₁ x₂ rfl
      obtain ⟨back, hContent⟩ := h.untouched
      have hGap := Text.slice?_append x₁ x₂ (value ++ y ++ back)
      have hBehind := h.rebuilt (x₁ ++ x₂ ++ value) y (by simp only [List.append_assoc])
      rw [hStop] at hBehind
      rw [← Text.byteLength_append, hStart, ← List.append_assoc, ← List.append_assoc, hContent]
        at hGap
      rw [rebuildFrom?, hGap, hBehind]
      rfl
  · have hCut := cut?_append x value (y ++ tail) r.customProperty
    rw [← Text.byteLength_append, hStart, hStop] at hCut
    have hFloor : (last.map (·.start)).all (r.stop ≤ ·) = true := by
      cases last with
      | none => rfl
      | some a => simpa using hFits.2.2.2 a rfl
    rw [applyAll, List.append_assoc, List.append_assoc, hCut]
    simp only
    rw [if_pos hFloor]
    simp only [List.append_assoc]

theorem IsSpliced.skip (h : IsSpliced content last done front tail) (hSpan : r.start < r.stop)
    (hFits : ¬ r.Fits content last) (walk : List Replacement) :
    applyAll (r :: walk) (last.map (·.start)) (front ++ tail) =
      applyAll walk (last.map (·.start)) (front ++ tail) := by
  rw [applyAll]
  split
  · rename_i x rest hCut
    rw [if_neg]
    intro hFloor
    obtain ⟨value, y, hFront⟩ := h.of_cut? hCut hFloor
    exact hFits ((h.fits_iff hSpan).mpr ⟨x, value, y, hFront⟩)
  · rfl

end Step

/-- The run of a splice, from any text with some spans replaced. -/
theorem IsSpliced.run {content front tail : Text} {last : Option Replacement}
    {done walk : List Replacement} (h : IsSpliced content last done front tail)
    (hSpans : ∀ r ∈ walk, r.start < r.stop) :
    rebuildFrom? content 0 ((Verdict.ofWalk content last walk).accepted.reverse ++ done) =
      some (applyAll walk (last.map (·.start)) (front ++ tail)) := by
  induction walk generalizing last done front tail with
  | nil => exact h.rebuilt [] front rfl
  | cons r walk ih =>
    rw [List.forall_mem_cons] at hSpans
    by_cases hFits : r.Fits content last
    · obtain ⟨front', tail', hNext, hStep⟩ := h.step hSpans.1 hFits
      rw [Verdict.ofWalk_of_fits hFits, hStep, List.reverse_cons, List.append_assoc]
      exact ih hNext hSpans.2
    · rw [Verdict.ofWalk_of_not_fits hFits, h.skip hSpans.1 hFits]
      exact ih h hSpans.2

/-- Whatever the spans of parameters are, those that are accepted by looking at the text alone are
apart, each other one is out of range, cuts a character or overlaps an accepted one, and the text
with the accepted spans replaced from front to back is the one that gets the root block. -/
theorem rebuildFrom?_accepted (content : Text) (params : List Parameter) (walk : List Replacement)
    (hWalk : IsWalk params walk) :
    let verdict := Verdict.ofWalk content none walk
    verdict.accepted.Pairwise (fun a b => ¬ a.Overlaps b) ∧
      (∀ r ∈ verdict.rejected,
        Text.byteLength content < r.stop ∨ Text.isBoundary r.start content = false ∨
          Text.isBoundary r.stop content = false ∨ ∃ a ∈ verdict.accepted, r.Overlaps a) ∧
      ∃ rebuilt, rebuildFrom? content 0 verdict.accepted.reverse = some rebuilt ∧
        ∀ overrides, rewire content params overrides = RootBlock.inject rebuilt
          (RootBlock.build params (RootBlock.carried content params) overrides) := by
  intro verdict
  have hSpans : ∀ r ∈ walk, r.start < r.stop := by
    rw [hWalk.eq_replacements]
    exact fun r hr => start_lt_stop_of_mem hr
  refine ⟨pairwise_accepted hSpans, fun r hr => ?_, splice content params, ?_, fun _ => rfl⟩
  · have hCases := of_mem_rejected hSpans hWalk.descending (by simp) hr
    refine hCases.imp_right (Or.imp_right (Or.imp_right ?_))
    rintro ⟨a, ha, hOverlap⟩
    exact ⟨a, ha.resolve_left (by simp), hOverlap⟩
  · have hRun := (isSpliced_nil content).run hSpans
    rw [List.append_nil, List.append_nil] at hRun
    rw [hRun, hWalk.eq_replacements]
    rfl

/-- Of spans that begin together the first is taken, of spans that touch both; one reaches out of the
text, one begins within a character, and one has no span at all. -/
theorem rebuildFrom?_accepted_gap :
    let css := "p \x7B margin: 4px; gap: ü; color: #333 \x7D".toList
    let spans : List (Int × Int) :=
      [(12, 15), (12, 14), (15, 16), (23, 24), (30, 99), (22, 24), (-1, -1), (14, 22), (33, 37)]
    let params := spans.flatMap fun (start, stop) =>
      ((Stylesheet.scan css ⟨"a.css".toList⟩).take 1).map fun p =>
        { p with customProperty := "--a".toList, source := { p.source with start, stop } }
    let order : List (Nat × Nat) :=
      [(33, 37), (30, 99), (23, 24), (22, 24), (15, 16), (14, 22), (12, 15), (12, 14)]
    let walk := order.map fun (start, stop) => (⟨start, stop, "--a".toList⟩ : Replacement)
    let verdict := Verdict.ofWalk css none walk
    IsWalk params walk ∧
      verdict.accepted.map (fun r => (r.start, r.stop)) = [(33, 37), (22, 24), (15, 16), (12, 15)] ∧
      rebuildFrom? css 0 verdict.accepted.reverse =
        some "p \x7B margin: var(--a)var(--a) gap: var(--a); color: var(--a) \x7D".toList ∧
      verdict.accepted.Pairwise (fun a b => ¬ a.Overlaps b) ∧
      (∀ r ∈ verdict.rejected,
        Text.byteLength css < r.stop ∨ Text.isBoundary r.start css = false ∨
          Text.isBoundary r.stop css = false ∨ ∃ a ∈ verdict.accepted, r.Overlaps a) ∧
      ∃ rebuilt, rebuildFrom? css 0 verdict.accepted.reverse = some rebuilt ∧
        ∀ overrides, rewire css params overrides = RootBlock.inject rebuilt
          (RootBlock.build params (RootBlock.carried css params) overrides) := by
  intro css spans params order walk verdict
  have hWalk : IsWalk params walk := by decide +kernel
  exact ⟨hWalk, by decide +kernel, by decide +kernel, rebuildFrom?_accepted css params walk hWalk⟩

end Rewire

end DesignParams
