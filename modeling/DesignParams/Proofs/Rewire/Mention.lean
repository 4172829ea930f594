import DesignParams.Proofs.Rewire.Splice
import DesignParams.Proofs.RootBlock.Line

/-!
# References in a text

In a text that was not written by hand, a generated name that could be read is that of a whole
reference. Putting a reference in the place of a value keeps it so: a value stands behind a
character that is not in a reference, and so none is made by accident.
-/
set_option autoImplicit false

namespace DesignParams

namespace Rewire

open Declaration

theorem referenceTo_eq (name : Text) : referenceTo name = ['v', 'a', 'r'] ++ '(' :: (name ++ [')']) := by
  have hVar : "var(".toList = ['v', 'a', 'r', '('] := by decide
  have hEnd : ")".toList = [')'] := by decide
  have hCall : referenceTo name = "var(".toList ++ name ++ ")".toList := (rfl)
  rw [hCall, hVar, hEnd, List.append_assoc]
  rfl

theorem referenceTo_eq_concat (name : Text) :
    referenceTo name = (['v', 'a', 'r', '('] ++ name) ++ [')'] := by
  rw [referenceTo_eq]
  simp

theorem lead_infix_generated {name : Text} (h : IsGenerated name) : RootBlock.lead <:+: name := by
  obtain ⟨stem, -, -, rfl⟩ := h
  exact (List.prefix_append _ stem).isInfix

theorem lead_infix_referenceTo {name : Text} (h : IsGenerated name) :
    RootBlock.lead <:+: referenceTo name := by
  rw [referenceTo_eq]
  have hCall : RootBlock.lead <:+: '(' :: (name ++ [')']) :=
    (Text.infix_append_left (lead_infix_generated h) [')']).trans (List.suffix_cons _ _).isInfix
  exact Text.infix_append_right ['v', 'a', 'r'] hCall

/-! ## Texts with whole references -/

/-- Does every generated name behind a bracket or white space belong to a whole reference? -/
def Neat (s : Text) : Prop :=
  ∀ front c rest, s = front ++ c :: (RootBlock.lead ++ rest) → c = '(' ∨ isBlank c = true →
    c = '(' ∧ ∃ stem behind, stem ≠ [] ∧ stem.all isStemChar = true ∧ rest = stem ++ ')' :: behind

theorem neat_of_free {s : Text} (h : ¬ RootBlock.lead <:+: s) : Neat s := by
  rintro front c rest rfl -
  refine absurd (Text.infix_append_right front ?_) h
  exact (List.prefix_append _ rest).isInfix.trans (List.suffix_cons c _).isInfix

theorem Neat.of_suffix {s t : Text} (h : Neat t) (hSuffix : s <:+ t) : Neat s := by
  obtain ⟨before, rfl⟩ := hSuffix
  rintro front c rest rfl hc
  exact h (before ++ front) c rest (by rw [List.append_assoc]) hc

theorem Neat.unled {s : Text} (h : Neat s) : RootBlock.Unled s := by
  rintro front rest rfl ⟨behind, hBehind⟩
  have hBlank : isBlank '\n' = true ∧ isBlank '(' = false := by decide
  have hRest := Text.leadingBlank_append_trimStart rest
  rw [← hBehind] at hRest
  -- The name stands behind the line feed or behind the white space that follows it.
  rcases List.eq_nil_or_concat (Text.leadingBlank rest) with hNil | ⟨blank, c, hLast⟩
  · rw [hNil, List.nil_append] at hRest
    obtain ⟨hOpen, -⟩ := h front '\n' behind (by rw [hRest]) (.inr hBlank.1)
    exact absurd hOpen (by decide)
  · have hc : isBlank c = true :=
      List.all_eq_true.mp (Text.all_leadingBlank rest) c (by rw [hLast]; simp)
    obtain ⟨rfl, -⟩ := h (front ++ '\n' :: blank) c behind (by rw [← hRest, hLast]; simp) (.inr hc)
    rw [hBlank.2] at hc
    cases hc

/-! ## A reference in the place of a value -/

theorem isGapEnd_of_isStemChar {c : Char} (h : isStemChar c = true) : isGapEnd c = false := by
  have hName := RootBlock.isNameChar_of_isStemChar h
  have hBlank := RootBlock.isBlank_of_isNameChar hName
  have hColon : c ≠ ':' := by
    rintro rfl
    exact absurd hName (by decide)
  have hSlash : c ≠ '/' := by
    rintro rfl
    exact absurd hName (by decide)
  simp [isGapEnd, hBlank, hColon, hSlash]

theorem isGapEnd_of_mem_referenceTo {name : Text} (h : IsGenerated name) {c : Char}
    (hc : c ∈ referenceTo name) : isGapEnd c = false := by
  rw [referenceTo_eq] at hc
  simp only [List.mem_append, List.mem_cons, List.not_mem_nil, or_false] at hc
  rcases hc with (rfl | rfl | rfl) | rfl | hc | rfl
  · rfl
  · rfl
  · rfl
  · rfl
  · exact isGapEnd_of_isStemChar (h.isStemChar hc)
  · rfl

def IsFront (front : Text) : Prop :=
  front = [] ∨ front.getLast?.any isGapEnd = true

theorem isFront_of_isSeat {front back : Text} (h : IsSeat (front ++ back)) : IsFront back := by
  by_cases hBack : back = []
  · exact .inl hBack
  · right
    rw [← List.getLast?_append_of_ne_nil front hBack]
    exact h.ends

theorem not_isFront {front back : Text} (hNonempty : back ≠ [])
    (h : ∀ c ∈ back, isGapEnd c = false) : ¬ IsFront (front ++ back) := by
  rintro (hNil | hLast)
  · exact hNonempty (List.append_eq_nil_iff.mp hNil).2
  · rw [List.getLast?_append_of_ne_nil front hNonempty] at hLast
    obtain ⟨c, hc, hEnd⟩ := (Option.any_eq_true _ _).mp hLast
    rw [h c (List.mem_of_getLast? hc)] at hEnd
    cases hEnd

theorem isGapEnd_of_mem_lead {c : Char} (hc : c ∈ RootBlock.lead) : isGapEnd c = false :=
  isGapEnd_of_isStemChar (List.all_eq_true.mp (by decide : RootBlock.lead.all isStemChar = true) c hc)

/-- A name in a text that begins with a reference is that of the reference, or stands behind it. -/
theorem lead_in_reference {name rest u r : Text} {c : Char} (hName : IsGenerated name)
    (hSplit : referenceTo name ++ rest = u ++ c :: (RootBlock.lead ++ r))
    (hc : c = '(' ∨ isBlank c = true) :
    (∃ w, rest = w ++ c :: (RootBlock.lead ++ r)) ∨
      c = '(' ∧ ∃ stem, stem ≠ [] ∧ stem.all isStemChar = true ∧ r = stem ++ ')' :: rest := by
  rcases List.append_eq_append_iff.mp hSplit with ⟨w, -, hRest⟩ | ⟨w, hw, hBehind⟩
  · exact .inl ⟨w, hRest⟩
  · cases w with
    | nil => exact .inl ⟨[], hBehind.symm⟩
    | cons d w =>
      right
      obtain ⟨rfl, hRest⟩ := List.cons.inj hBehind
      have hOpen : c = '(' := by
        rcases hc with hc | hc
        · exact hc
        · have hEnd := isGapEnd_of_mem_referenceTo hName (hw ▸ List.mem_append_right u List.mem_cons_self)
          simp [isGapEnd, hc] at hEnd
      subst hOpen
      rw [referenceTo_eq] at hw
      have hInner : '(' ∉ name ++ [')'] := by simp [hName.not_mem (c := '(') rfl]
      obtain ⟨-, rfl⟩ := Text.append_cons_inj_once (by decide) hInner hw
      obtain ⟨stem, hNonempty, hStem, rfl⟩ := hName
      refine ⟨rfl, stem, hNonempty, hStem, ?_⟩
      have hTail : ("--rig-".toList ++ stem ++ [')']) ++ rest =
          RootBlock.lead ++ (stem ++ ')' :: rest) := by
        rw [List.append_assoc, List.append_assoc]
        rfl
      have hSame : RootBlock.lead ++ r = RootBlock.lead ++ (stem ++ ')' :: rest) :=
        hRest.trans hTail
      exact List.append_cancel_left hSame

theorem lead_in_front {name rest u r : Text}
    (hSplit : RootBlock.lead ++ r = u ++ (referenceTo name ++ rest)) :
    ∃ w, u = RootBlock.lead ++ w ∧ r = w ++ (referenceTo name ++ rest) := by
  rcases List.append_eq_append_iff.mp hSplit with ⟨w, hu, hr⟩ | ⟨w, hw, hCut⟩
  · exact ⟨w, hu, hr⟩
  · cases w with
    | nil => exact ⟨[], by rw [hw, List.append_nil, List.append_nil], hCut.symm⟩
    | cons d w =>
      rw [referenceTo_eq] at hCut
      obtain ⟨rfl, -⟩ : 'v' = d ∧ _ := List.cons.inj hCut
      have hMem : 'v' ∈ RootBlock.lead := hw ▸ List.mem_append_right u List.mem_cons_self
      exact absurd hMem (by decide)

theorem stem_in_front {before w value stem behind : Text}
    (hFront : IsFront (before ++ (RootBlock.lead ++ w))) (hStem : stem.all isStemChar = true)
    (hSplit : w ++ value = stem ++ ')' :: behind) : ∃ x, w = stem ++ ')' :: x := by
  have hJoined : w ++ value = (stem ++ [')']) ++ behind := by rw [hSplit]; simp
  rcases List.append_eq_append_iff.mp hJoined with ⟨x, hx, -⟩ | ⟨x, rfl, -⟩
  · have hNonempty : RootBlock.lead ++ w ≠ [] :=
      List.append_ne_nil_of_left_ne_nil (by decide) w
    refine absurd hFront (not_isFront hNonempty fun d hd => ?_)
    rcases List.mem_append.mp hd with hd | hd
    · exact isGapEnd_of_mem_lead hd
    · have hMem : d ∈ stem ++ [')'] := hx ▸ List.mem_append_left x hd
      rcases List.mem_append.mp hMem with hMem | hMem
      · exact isGapEnd_of_isStemChar (List.all_eq_true.mp hStem d hMem)
      · rw [List.mem_singleton.mp hMem]
        decide
  · exact ⟨x, by simp⟩

theorem Neat.exchange {front value rest name : Text} (h : Neat (front ++ (value ++ rest)))
    (hFront : IsFront front) (hName : IsGenerated name) :
    Neat (front ++ (referenceTo name ++ rest)) := by
  intro before c r hSplit hc
  rcases List.append_eq_append_iff.mp hSplit with ⟨u, rfl, hu⟩ | ⟨u, hu, hBehind⟩
  · rcases lead_in_reference hName hu hc with ⟨w, rfl⟩ | ⟨hOpen, stem, hNonempty, hStem, hr⟩
    · exact h (front ++ (value ++ w)) c r (by simp) hc
    · exact ⟨hOpen, stem, rest, hNonempty, hStem, hr⟩
  · cases u with
    | nil =>
      rw [referenceTo_eq] at hBehind
      obtain ⟨rfl, -⟩ : c = 'v' ∧ _ := List.cons.inj hBehind
      exact absurd hc (by decide)
    | cons d u =>
      obtain ⟨rfl, hRest⟩ := List.cons.inj hBehind
      subst hu
      obtain ⟨w, rfl, rfl⟩ := lead_in_front hRest
      obtain ⟨rfl, stem, behind, hNonempty, hStem, hOld⟩ :=
        h before c (w ++ (value ++ rest)) (by simp) hc
      have hLast : IsFront ((before ++ ['(']) ++ (RootBlock.lead ++ w)) := by
        rw [List.append_assoc]
        exact hFront
      obtain ⟨x, rfl⟩ := stem_in_front hLast hStem hOld
      exact ⟨rfl, stem, x ++ (referenceTo name ++ rest), hNonempty, hStem, by simp⟩

/-! ## What is referred to -/

theorem infix_referenceTo_append {name other rest : Text} (hName : IsGenerated name)
    (hOther : IsGenerated other) (h : referenceTo other <:+: referenceTo name ++ rest) :
    other = name ∨ referenceTo other <:+: rest := by
  have hOpen : '(' ∉ name := hName.not_mem rfl
  have hClose : ')' ∉ name := hName.not_mem rfl
  have hOtherClose : ')' ∉ other := hOther.not_mem rfl
  rcases Text.infix_append_cases h with ⟨before, after, hIn⟩ | hBehind |
      ⟨front, back, hFront, hBack, hSplit, ⟨before, hBefore⟩, -⟩
  · left
    have hCut : ['v', 'a', 'r'] ++ '(' :: (name ++ [')']) =
        (before ++ ['v', 'a', 'r']) ++ '(' :: (other ++ ')' :: after) := by
      rw [← referenceTo_eq, ← hIn, referenceTo_eq]
      simp
    obtain ⟨-, hTail⟩ := Text.append_cons_inj_once (by decide) (by simp [hOpen]) hCut
    exact (Text.append_cons_inj_left hClose hOtherClose hTail).1.symm
  · exact .inr hBehind
  · -- A reference ends with its bracket, which is not within another one.
    have hLast : ')' ∈ front := by
      have hEnd := congrArg List.getLast? hBefore
      rw [List.getLast?_append_of_ne_nil before hFront, referenceTo_eq_concat,
        List.getLast?_concat] at hEnd
      exact List.mem_of_getLast? hEnd
    obtain ⟨u, v, rfl⟩ := List.append_of_mem hLast
    have hCut : (['v', 'a', 'r', '('] ++ other) ++ ')' :: [] = u ++ ')' :: (v ++ back) := by
      rw [referenceTo_eq_concat] at hSplit
      simpa using hSplit
    obtain ⟨-, hNil⟩ := Text.append_cons_inj_once (by simp [hOtherClose]) List.not_mem_nil hCut
    exact absurd (List.append_eq_nil_iff.mp hNil.symm).2 hBack

/-- Only the name of the new reference can be referred to that was not before. -/
theorem infix_exchange {front value rest name other : Text} (hFront : IsFront front)
    (hName : IsGenerated name) (hOther : IsGenerated other)
    (h : referenceTo other <:+: front ++ (referenceTo name ++ rest)) :
    other = name ∨ referenceTo other <:+: front ++ (value ++ rest) := by
  rcases Text.infix_append_cases h with hIn | hBehind | ⟨u, v, hu, -, hSplit, ⟨before, rfl⟩, -⟩
  · exact .inr (Text.infix_append_left hIn _)
  · rcases infix_referenceTo_append hName hOther hBehind with rfl | hRest
    · exact .inl rfl
    · exact .inr (Text.infix_append_right front (Text.infix_append_right value hRest))
  · refine absurd hFront (not_isFront hu fun c hc => ?_)
    exact isGapEnd_of_mem_referenceTo hOther (hSplit ▸ List.mem_append_left v hc)

theorem Neat.reference?_eq_some {s name rest : Text} (h : Neat s)
    (hRead : RootBlock.reference? s = some (name, rest)) :
    IsGenerated name ∧ ∃ behind, s = referenceTo name ++ behind ∧ rest = ')' :: behind := by
  have hVar : "var(".toList = ['v', 'a', 'r', '('] := by decide
  rw [RootBlock.reference?, hVar] at hRead
  split at hRead
  · cases hRead
  · rename_i inner hCall
    obtain rfl := Text.append_of_after? hCall
    obtain ⟨found, hFound⟩ : RootBlock.lead <+: Text.trimStart inner := by
      by_contra hNone
      rw [RootBlock.name?_eq_none hNone] at hRead
      cases hRead
    have hInner := Text.leadingBlank_append_trimStart inner
    rw [← hFound] at hInner
    -- White space in front of the name would have to be a bracket.
    have hNoBlank : Text.leadingBlank inner = [] := by
      rcases List.eq_nil_or_concat (Text.leadingBlank inner) with hNil | ⟨blank, c, hLast⟩
      · exact hNil
      · have hc : isBlank c = true :=
          List.all_eq_true.mp (Text.all_leadingBlank inner) c (by rw [hLast]; simp)
        obtain ⟨rfl, -⟩ := h (['v', 'a', 'r', '('] ++ blank) c found
          (by rw [← hInner, hLast]; simp) (.inr hc)
        exact absurd hc (by decide)
    rw [hNoBlank, List.nil_append] at hInner
    obtain ⟨-, stem, behind, hNonempty, hStem, rfl⟩ := h ['v', 'a', 'r'] '(' found
      (by rw [← hInner]; rfl) (.inl rfl)
    have hName : IsGenerated (RootBlock.lead ++ stem) := ⟨stem, hNonempty, hStem, rfl⟩
    rw [← hFound, ← List.append_assoc, RootBlock.name?_append (RootBlock.isVariable_of_isGenerated hName) (by decide)] at hRead
    cases hRead
    refine ⟨hName, behind, ?_, rfl⟩
    rw [← hInner, referenceTo_eq]
    simp

theorem reference?_referenceTo {name : Text} (h : IsGenerated name) (rest : Text) :
    RootBlock.reference? (referenceTo name ++ rest) = some (name, ')' :: rest) := by
  have hVar : "var(".toList = ['v', 'a', 'r', '('] := by decide
  have hCall : referenceTo name ++ rest = ['v', 'a', 'r', '('] ++ (name ++ ')' :: rest) := by
    rw [referenceTo_eq_concat]
    simp
  rw [RootBlock.reference?, hVar, hCall, Text.after?_append]
  simp only
  have hVariable := RootBlock.isVariable_of_isGenerated h
  rw [RootBlock.trimStart_variable hVariable, RootBlock.name?_append hVariable (by decide)]

/-- The names that are read from a neat text are those that it refers to. -/
theorem Neat.mem_references_iff {s name : Text} (h : Neat s) :
    name ∈ RootBlock.references s ↔ IsGenerated name ∧ referenceTo name <:+: s := by
  fun_induction RootBlock.references s with
  | case1 =>
    constructor
    · intro hMem
      cases hMem
    · rintro ⟨-, hInfix⟩
      rw [referenceTo_eq] at hInfix
      cases List.infix_nil.mp hInfix
  | case2 c s first rest hRead ih =>
    obtain ⟨hFirst, behind, hSplit, rfl⟩ := h.reference?_eq_some hRead
    have hBehind : ')' :: behind <:+ c :: s := by
      rw [hSplit, referenceTo_eq_concat]
      exact ⟨_, List.append_cons _ _ _⟩
    rw [List.mem_cons, ih (h.of_suffix hBehind)]
    constructor
    · rintro (rfl | ⟨hName, hInfix⟩)
      · exact ⟨hFirst, hSplit ▸ (List.prefix_append _ behind).isInfix⟩
      · exact ⟨hName, hInfix.trans hBehind.isInfix⟩
    · rintro ⟨hName, hInfix⟩
      rw [hSplit] at hInfix
      rcases infix_referenceTo_append hFirst hName hInfix with hSame | hRest
      · exact .inl hSame
      · exact .inr ⟨hName, hRest.trans (List.suffix_cons _ behind).isInfix⟩
  | case3 c s hNone ih =>
    have hSuffix : s <:+ c :: s := List.suffix_cons c s
    rw [ih (h.of_suffix hSuffix)]
    constructor
    · rintro ⟨hName, hInfix⟩
      exact ⟨hName, hInfix.trans hSuffix.isInfix⟩
    · rintro ⟨hName, hInfix⟩
      refine ⟨hName, ?_⟩
      rcases List.infix_cons_iff.mp hInfix with ⟨rest, hLead⟩ | hBehind
      · rw [← hLead, reference?_referenceTo hName] at hNone
        cases hNone
      · exact hBehind

/-! ## Parts of a text -/

/-- Values in one text, one after the other, give way to references to parameters. -/
inductive Exchanged (params : List Parameter) : Text → Text → Prop
  | refl (s : Text) : Exchanged params s s
  | step {front value rest t : Text} {p : Parameter} (mem : p ∈ params)
      (name : IsGenerated p.customProperty) (isFront : IsFront front)
      (next : Exchanged params (front ++ (referenceTo p.customProperty ++ rest)) t) :
      Exchanged params (front ++ (value ++ rest)) t

theorem Exchanged.mono {params all : List Parameter} {s t : Text} (h : Exchanged params s t)
    (hAll : params ⊆ all) : Exchanged all s t := by
  induction h with
  | refl => exact .refl _
  | step mem name isFront _ ih => exact .step (hAll mem) name isFront ih

theorem Exchanged.append_right {params : List Parameter} {s t : Text} (h : Exchanged params s t)
    (behind : Text) : Exchanged params (s ++ behind) (t ++ behind) := by
  induction h with
  | refl => exact .refl _
  | step mem name isFront _ ih =>
    rw [List.append_assoc, List.append_assoc] at ih ⊢
    exact .step mem name isFront ih

theorem Woven.exchanged {offset : Nat} {s t : Text} {params all : List Parameter}
    (h : Woven offset s params t) (hAll : params ⊆ all) (front : Text) :
    Exchanged all (front ++ s) (front ++ t) := by
  induction h generalizing front with
  | nil => exact .refl _
  | @cons offset gap value rest rewired p params lead nonempty read start stop name tail ih =>
    have hTail := ih (fun q hq => hAll (List.mem_cons_of_mem p hq))
      (front ++ gap ++ referenceTo p.customProperty)
    rw [← List.append_assoc]
    refine .step (hAll List.mem_cons_self) name (.inr (lead.seat.prepend front).ends) ?_
    simpa only [List.append_assoc] using hTail

theorem Exchanged.infix_before {params : List Parameter} {s t needle : Text}
    (h : Exchanged params s t) (hSlash : '/' ∈ needle) (hFirst : 'v' ∉ needle)
    (hLast : ')' ∉ needle) (hInfix : needle <:+: t) : needle <:+: s := by
  induction h with
  | refl => exact hInfix
  | @step front value rest t p _ name _ _ ih =>
    have hSplit : front ++ (referenceTo p.customProperty ++ rest) =
        front ++ 'v' :: ((['a', 'r', '('] ++ p.customProperty) ++ ')' :: rest) := by
      rw [referenceTo_eq]
      simp
    have hMid := ih hInfix
    rw [hSplit, Text.infix_append_cons_iff hFirst, Text.infix_append_cons_iff hLast] at hMid
    rcases hMid with hMid | hMid | hMid
    · exact Text.infix_append_left hMid _
    · rcases List.mem_append.mp (hMid.subset hSlash) with hMem | hMem
      · exact absurd hMem (by decide)
      · exact absurd hMem (name.not_mem rfl)
    · exact Text.infix_append_right front (Text.infix_append_right value hMid)

theorem Exchanged.unmarked {params : List Parameter} {s t : Text} (h : Exchanged params s t)
    (hUnmarked : RootBlock.Unmarked s) : RootBlock.Unmarked t := by
  intro w hw hInfix
  obtain ⟨-, -, hSlash, hFirst, hLast, -⟩ := hw.exists_cons
  exact hUnmarked w hw (h.infix_before hSlash hFirst hLast hInfix)

/-- The values of woven parameters stand at their spans, each behind its colon. -/
theorem Woven.exists_seat {offset : Nat} {s t : Text} {params : List Parameter}
    (h : Woven offset s params t) {p : Parameter} (hp : p ∈ params) :
    ∃ front rest, s = front ++ (p.source.value ++ rest) ∧ IsLead front ∧
      p.source.start = (offset + Text.byteLength front : Nat) ∧
      p.source.stop =
        (offset + Text.byteLength front + Text.byteLength p.source.value : Nat) := by
  induction h with
  | nil => cases hp
  | @cons offset gap value rest rewired q params lead _ read start stop _ _ ih =>
    rcases List.mem_cons.mp hp with rfl | hp
    · exact ⟨gap, rest, by rw [read], lead, start, by rw [stop, read]⟩
    · obtain ⟨front, back, rfl, hLead, hStart, hStop⟩ := ih hp
      refine ⟨gap ++ (value ++ front), back, by simp, ?_, ?_, ?_⟩
      · rw [← List.append_assoc]
        exact hLead.prepend (gap ++ value)
      · rw [hStart, Text.byteLength_append, Text.byteLength_append]
        omega
      · rw [hStop, Text.byteLength_append, Text.byteLength_append]
        omega

theorem Woven.exists_span {offset : Nat} {s t : Text} {params : List Parameter}
    (h : Woven offset s params t) {p : Parameter} (hp : p ∈ params) :
    ∃ front rest, s = front ++ (p.source.value ++ rest) ∧
      p.source.start = (offset + Text.byteLength front : Nat) ∧
      p.source.stop =
        (offset + Text.byteLength front + Text.byteLength p.source.value : Nat) := by
  obtain ⟨front, rest, hSplit, -, hStart, hStop⟩ := h.exists_seat hp
  exact ⟨front, rest, hSplit, hStart, hStop⟩

theorem Woven.unmarked {offset : Nat} {s t : Text} {params : List Parameter}
    (h : Woven offset s params t) (hUnmarked : RootBlock.Unmarked s) : RootBlock.Unmarked t :=
  (h.exchanged (List.Subset.refl params) []).unmarked hUnmarked

theorem Exchanged.neat {params : List Parameter} {s t : Text} (h : Exchanged params s t)
    (hs : Neat s) : Neat t := by
  induction h with
  | refl => exact hs
  | step _ name isFront _ ih => exact ih (hs.exchange isFront name)

theorem Exchanged.infix_referenceTo {params : List Parameter} {s t name : Text}
    (h : Exchanged params s t) (hName : IsGenerated name) (hInfix : referenceTo name <:+: t) :
    referenceTo name <:+: s ∨ name ∈ params.map (·.customProperty) := by
  induction h with
  | refl => exact .inl hInfix
  | step mem generated isFront _ ih =>
    rcases ih hInfix with hMid | hMem
    · rcases infix_exchange isFront generated hName hMid with rfl | hOld
      · exact .inr (List.mem_map_of_mem mem)
      · exact .inl hOld
    · exact .inr hMem

/-- A text in which references have been put refers to their parameters and to what it did. -/
theorem Exchanged.references {params : List Parameter} {s t name : Text} (h : Exchanged params s t)
    (hs : Neat s) (hName : name ∈ RootBlock.references t) :
    name ∈ RootBlock.references s ∨ name ∈ params.map (·.customProperty) := by
  obtain ⟨hGenerated, hInfix⟩ := (h.neat hs).mem_references_iff.mp hName
  rcases h.infix_referenceTo hGenerated hInfix with hOld | hMem
  · exact .inl (hs.mem_references_iff.mpr ⟨hGenerated, hOld⟩)
  · exact .inr hMem

end Rewire

end DesignParams
