import DesignParams.Proofs.Stylesheet.Marked
import DesignParams.Proofs.Stylesheet.Trail

/-!
# Priority annotations of parameters

What stands behind a value up to the end of its declaration stays behind the reference in its place.
Where the rules can be told apart this holds the annotation of the declaration, unless it has
comments in it or another one before it; such annotations, and those of a malformed stylesheet, are
parts of the values.
-/
set_option autoImplicit false

namespace DesignParams

namespace Rewire

open Declaration

/-- What stands behind the value of a parameter, up to the end of its declaration. -/
def trailOf (css : Text) (p : Parameter) : Text :=
  match Text.splitAt? p.source.stop.toNat css with
  | none => []
  | some (_, rest) => rest.takeWhile fun c => c ≠ ';' && c ≠ '\x7D'

theorem takeWhile_trail {tail rest : Text} (hTail : IsTrailer tail) (hRest : IsEnd rest) :
    (tail ++ rest).takeWhile (fun c => c ≠ ';' && c ≠ '\x7D') = tail := by
  have hAll : ∀ c ∈ tail, (c ≠ ';' && c ≠ '\x7D') = true := by
    intro c hc
    have hLoose := List.all_eq_true.mp hTail.all_loose c hc
    rw [Bool.and_eq_true, decide_eq_true_eq, decide_eq_true_eq]
    constructor <;> rintro rfl <;> exact absurd hLoose (by decide)
  rw [List.takeWhile_append_of_pos hAll]
  cases rest with
  | nil => exact List.append_nil tail
  | cons c rest => rcases hRest c rfl with rfl | rfl <;> exact List.append_nil tail

theorem taken_of_mem_scan {css : Text} {file : Path} {p : Parameter}
    (hp : p ∈ Stylesheet.scan css file) :
    ∃ front rest, css = front ++ (p.source.value ++ (trailOf css p ++ rest)) ∧
      p.source.start = (Text.byteLength front : Nat) ∧ IsTrailer (trailOf css p) ∧
        p.source.value = (if structural? css = none then id else dropPriority)
          (Text.trimEnd (p.source.value ++ trailOf css p)) := by
  obtain ⟨d, hd, hDescribes⟩ := exists_describes_of_mem_scan hp
  obtain ⟨front, tail, rest, hSplit, hStart, hTail, hRest, hTake⟩ := taken_ofStylesheet css d hd
  obtain ⟨t, hWoven⟩ := exists_woven_scan (List.Sublist.refl (Stylesheet.scan css file))
  obtain ⟨gap, -, -, -, hAt, hStop⟩ := hWoven.exists_seat hp
  have hDescribed := hDescribes.start
  rw [← hDescribes.value] at hSplit hTake
  have hEnd : p.source.stop.toNat = Text.byteLength (front ++ p.source.value) := by
    rw [Text.byteLength_append]
    omega
  have hCut : css = (front ++ p.source.value) ++ (tail ++ rest) := by
    rw [hSplit, List.append_assoc]
  have hTrail : trailOf css p = tail := by
    rw [trailOf, hEnd, hCut, Text.splitAt?_append]
    exact takeWhile_trail hTail hRest
  rw [hTrail]
  exact ⟨front, rest, hSplit, by omega, hTail, hTake⟩

/-! ## What a splice leaves behind a value -/

theorem Woven.exists_append {offset : Nat} {tail rest t : Text} {params : List Parameter}
    (h : Woven offset (tail ++ rest) params t) (hColon : ':' ∉ tail) :
    ∃ rest', t = tail ++ rest' := by
  generalize hText : tail ++ rest = s at h
  cases h with
  | nil => exact ⟨rest, hText.symm⟩
  | @cons _ gap value behind rewired p params lead =>
    rcases List.append_eq_append_iff.mp hText with ⟨more, rfl, -⟩ | ⟨more, rfl, -⟩
    · exact ⟨_, List.append_assoc _ _ _⟩
    · exact absurd (List.mem_append_left more lead.colon) hColon

/-- What stands behind a woven value stands behind its reference, up to the next colon. -/
theorem Woven.exists_behind {offset : Nat} {s t : Text} {params : List Parameter}
    (h : Woven offset s params t) {p : Parameter} (hp : p ∈ params) :
    ∃ front rest, s = front ++ (p.source.value ++ rest) ∧
      p.source.start = (offset + Text.byteLength front : Nat) ∧
      ∀ tail more, rest = tail ++ more → ':' ∉ tail →
        ∃ before behind, t = before ++ (referenceTo p.customProperty ++ (tail ++ behind)) := by
  induction h with
  | nil => cases hp
  | @cons offset gap value rest rewired q params _ _ read start _ _ woven ih =>
    rcases List.mem_cons.mp hp with rfl | hp
    · refine ⟨gap, rest, by rw [read], start, ?_⟩
      rintro tail more rfl hColon
      obtain ⟨behind, rfl⟩ := woven.exists_append hColon
      exact ⟨gap, behind, rfl⟩
    · obtain ⟨front, back, rfl, hStart, hBehind⟩ := ih hp
      refine ⟨gap ++ (value ++ front), back, by simp, ?_, ?_⟩
      · rw [hStart, Text.byteLength_append, Text.byteLength_append]
        omega
      · intro tail more hRest hColon
        obtain ⟨before, behind, rfl⟩ := hBehind tail more hRest hColon
        exact ⟨gap ++ (referenceTo q.customProperty ++ before), behind, by simp⟩

/-- A value has an annotation at its end exactly when it was written with one and the rules cannot
be told apart, or the annotation holds a comment or is not the only one. Every other annotation is
behind the value, and what is behind the value is behind the reference that takes its place. -/
theorem isMarked_value_iff (css : Text) (file : Path) : ∀ p ∈ Stylesheet.scan css file,
    (IsMarked p.source.value ↔ IsMarked (p.source.value ++ trailOf css p) ∧
        (structural? css = none ∨ ¬ IsMarkedOnce (p.source.value ++ trailOf css p))) ∧
      (structural? css ≠ none → IsMarkedOnce (p.source.value ++ trailOf css p) →
        ∃ blank mark, trailOf css p = blank ++ mark ∧ blank.all isBlank = true ∧ IsMark mark) ∧
      ∀ params overrides, params.Sublist (Stylesheet.scan css file) → p ∈ params →
        ∃ front rest, rewire css params overrides = RootBlock.inject
          (front ++ (referenceTo p.customProperty ++ (trailOf css p ++ rest)))
          (RootBlock.build params (RootBlock.carried css params) overrides) := by
  intro p hp
  obtain ⟨front, rest, hSplit, hStart, hTail, hValue⟩ := taken_of_mem_scan hp
  refine ⟨?_, ?_, ?_⟩
  · cases hRules : structural? css with
    | none =>
      rw [if_pos hRules, id] at hValue
      conv => lhs; rw [hValue, isMarked_trimEnd_iff]
      simp
    | some declarations =>
      rw [if_neg (by simp [hRules])] at hValue
      conv => lhs; rw [hValue, isMarked_dropPriority_iff]
      simp
  · rintro hRules ⟨value, mark, hWritten, hMark, -⟩
    rw [if_neg hRules, hWritten, dropPriority_trimEnd hMark] at hValue
    obtain ⟨blank, hBlank, hEnd⟩ := Text.exists_trimEnd_append value
    refine ⟨blank, mark, ?_, hBlank, hMark⟩
    rw [hEnd, List.append_assoc, ← hValue] at hWritten
    exact List.append_cancel_left hWritten
  · intro params overrides hParams hMem
    obtain ⟨t, hWoven⟩ := exists_woven_scan hParams
    obtain ⟨gap, back, hCut, hAt, hBehind⟩ := hWoven.exists_behind hMem
    obtain ⟨rfl, hRest⟩ := Text.append_inj_of_byteLength (hSplit.symm.trans hCut) (by omega)
    have hColon : ':' ∉ trailOf css p := by
      intro hIn
      exact absurd (List.all_eq_true.mp hTail.all_loose ':' hIn) (by decide)
    obtain ⟨before, behind, rfl⟩ :=
      hBehind _ rest (List.append_cancel_left hRest).symm hColon
    exact ⟨before, behind, by rw [rewire, hWoven.splice_eq (List.Perm.refl _)]⟩

/-- The annotation of a color stays behind the reference, unless the sheet ends in the middle of a
rule: there it is a part of the color. -/
theorem isMarked_value_color :
    let file := Path.ofString "a.css"
    let css := "p \x7B color: red !important; \x7D".toList
    let broken := css ++ " q".toList
    (∃ p ∈ Stylesheet.scan css file, p.source.value = "red".toList ∧ ¬ IsMarked p.source.value ∧
        ∃ front rest, rewire css (Stylesheet.scan css file) [] = RootBlock.inject
          (front ++ (referenceTo p.customProperty ++ (" !important".toList ++ rest)))
          (RootBlock.build (Stylesheet.scan css file)
            (RootBlock.carried css (Stylesheet.scan css file)) [])) ∧
      ∃ p ∈ Stylesheet.scan broken file, p.source.value = "red !important".toList ∧
        IsMarked p.source.value := by
  intro file css broken
  constructor
  · obtain ⟨p, hp, hValue, hTrail⟩ : ∃ p ∈ Stylesheet.scan css file,
        p.source.value = "red".toList ∧ trailOf css p = " !important".toList := by
      decide +kernel
    obtain ⟨hMarked, -, hKept⟩ := isMarked_value_iff css file p hp
    have hOnce : IsMarkedOnce (p.source.value ++ trailOf css p) := by
      rw [hValue, hTrail]
      refine ⟨"red ".toList, "!important".toList, rfl,
        ⟨[], "important".toList, [], rfl, rfl, by decide, rfl⟩, fun h => ?_⟩
      exact absurd h.mem (by decide)
    refine ⟨p, hp, hValue, fun h => ?_, ?_⟩
    · rcases (hMarked.mp h).2 with hRules | hNot
      · exact absurd hRules (by decide +kernel)
      · exact hNot hOnce
    · rw [← hTrail]
      exact hKept _ [] (List.Sublist.refl _) hp
  · obtain ⟨p, hp, hValue, hTrail⟩ : ∃ p ∈ Stylesheet.scan broken file,
        p.source.value = "red !important".toList ∧ trailOf broken p = [] := by
      decide +kernel
    obtain ⟨hMarked, -⟩ := isMarked_value_iff broken file p hp
    refine ⟨p, hp, hValue, hMarked.mpr ⟨?_, .inl (by decide +kernel)⟩⟩
    rw [hValue, hTrail]
    exact ⟨"red ".toList, [], "important".toList, [], rfl, .nil, by decide, .nil⟩

end Rewire

end DesignParams
