import DesignParams.Proofs.Rewire.Mention

/-!
# Splices around a block

A splice keeps the root block of a text apart when no span reaches across a sentinel. What stands in
front of the block and what stands behind it are then spliced by themselves.
-/
set_option autoImplicit false

namespace DesignParams

namespace Rewire

open Declaration

/-! ## Splices around a part -/

/-- Does the text, which begins at a byte offset, hold a colon in front of the value of a parameter? -/
def HoldsColon (offset : Nat) (s : Text) (p : Parameter) : Prop :=
  (offset : Int) ≤ p.source.start ∧
    ∃ cut ∈ Text.splitAt? (p.source.start - offset).toNat s, ':' ∈ cut.1

instance (offset : Nat) (s : Text) (p : Parameter) : Decidable (HoldsColon offset s p) :=
  inferInstanceAs (Decidable (_ ∧ _))

theorem HoldsColon.exists_append {offset : Nat} {s : Text} {p : Parameter} (h : HoldsColon offset s p) :
    ∃ front rest, s = front ++ rest ∧ ':' ∈ front ∧
      p.source.start = (offset + Text.byteLength front : Nat) := by
  obtain ⟨hStart, ⟨front, rest⟩, hCut, hColon⟩ := h
  obtain ⟨hSplit, hLength⟩ := Text.append_of_splitAt? hCut
  exact ⟨front, rest, hSplit, hColon, by omega⟩

/-- A first value behind a part of a text: all the others are behind that part as well. -/
theorem Woven.exists_behind_part {offset : Nat} {before part after t : Text} {p : Parameter}
    {params : List Parameter} (h : Woven offset (before ++ (part ++ after)) (p :: params) t)
    (hBehind : (offset + Text.byteLength before + Text.byteLength part : Nat) ≤ p.source.start) :
    ∃ back, t = before ++ (part ++ back) ∧ Exchanged (p :: params) after back ∧
      (HoldsColon (offset + Text.byteLength before + Text.byteLength part) after p →
        Woven (offset + Text.byteLength before + Text.byteLength part) after (p :: params) back) := by
  generalize hText : before ++ (part ++ after) = s at h
  cases h with
  | @cons _ gap value rest rewired _ _ lead nonempty read start stop name tail =>
    have hCut : (before ++ part) ++ after = gap ++ (value ++ rest) := by
      rw [List.append_assoc, hText]
    obtain ⟨more, rfl, rfl⟩ := Text.exists_append_of_byteLength_le hCut (by
      rw [Text.byteLength_append]
      omega)
    refine ⟨more ++ (referenceTo p.customProperty ++ rewired), by simp, ?_, fun hColon => ?_⟩
    · refine .step List.mem_cons_self name (isFront_of_isSeat lead.seat) ?_
      have hTail := tail.exchanged (List.subset_cons_self p params)
        (more ++ referenceTo p.customProperty)
      rwa [List.append_assoc, List.append_assoc] at hTail
    · obtain ⟨front, behind, hAfter, hColon, hStart⟩ := hColon.exists_append
      have hOffset : offset + Text.byteLength (before ++ part ++ more) =
          offset + Text.byteLength before + Text.byteLength part + Text.byteLength more := by
        rw [Text.byteLength_append, Text.byteLength_append]
        omega
      rw [hOffset] at start stop tail
      obtain ⟨rfl, -⟩ := Text.append_inj_of_byteLength hAfter (by omega)
      exact .cons ⟨hColon, lead.seat.of_append hColon (by decide)⟩ nonempty read start stop name tail

/-- The spans on either side of a part of a text leave it as it is. The text behind it can be spliced
by itself when it holds the colons of its values. -/
theorem Woven.exists_around {offset : Nat} {before part after t : Text} {params : List Parameter}
    (h : Woven offset (before ++ (part ++ after)) params t)
    (hAround : ∀ p ∈ params, p.source.stop ≤ (offset + Text.byteLength before : Nat) ∨
      (offset + Text.byteLength before + Text.byteLength part : Nat) ≤ p.source.start) :
    ∃ front first back second, t = front ++ (part ++ back) ∧ params = first ++ second ∧
      Woven offset before first front ∧ Exchanged params after back ∧
      ((∀ p ∈ params,
          (offset + Text.byteLength before + Text.byteLength part : Nat) ≤ p.source.start →
          HoldsColon (offset + Text.byteLength before + Text.byteLength part) after p) →
        Woven (offset + Text.byteLength before + Text.byteLength part) after second back) := by
  generalize hText : before ++ (part ++ after) = s at h
  induction h generalizing before with
  | nil => exact ⟨before, [], after, [], hText.symm, rfl, .nil, .refl after, fun _ => .nil⟩
  | @cons offset gap value rest rewired p params lead nonempty read start stop name tail ih =>
    rcases hAround p List.mem_cons_self with hBefore | hBehind
    · have hCut : (gap ++ value) ++ rest = before ++ (part ++ after) := by
        rw [hText, List.append_assoc]
      obtain ⟨more, rfl, hRest⟩ := Text.exists_append_of_byteLength_le hCut (by
        rw [Text.byteLength_append]
        omega)
      have hOffset : offset + Text.byteLength (gap ++ value ++ more) =
          offset + Text.byteLength gap + Text.byteLength value + Text.byteLength more := by
        rw [Text.byteLength_append, Text.byteLength_append]
        omega
      have hRests : ∀ q ∈ params, q.source.stop ≤
            (offset + Text.byteLength gap + Text.byteLength value + Text.byteLength more : Nat) ∨
          (offset + Text.byteLength gap + Text.byteLength value + Text.byteLength more +
            Text.byteLength part : Nat) ≤ q.source.start := by
        intro q hq
        have hHere := hAround q (List.mem_cons_of_mem p hq)
        rwa [hOffset] at hHere
      obtain ⟨front, first, back, second, rfl, rfl, hFront, hBack, hSecond⟩ := ih hRests hRest.symm
      refine ⟨gap ++ (referenceTo p.customProperty ++ front), p :: first, back, second, by simp, rfl,
        ?_, hBack.mono (List.subset_cons_self p _), ?_⟩
      · rw [List.append_assoc]
        exact .cons lead nonempty read start stop name hFront
      · rw [hOffset]
        exact fun hColons => hSecond fun q hq => hColons q (List.mem_cons_of_mem p hq)
    · have hFirst : Woven offset (before ++ (part ++ after)) (p :: params)
          (gap ++ (referenceTo p.customProperty ++ rewired)) := by
        rw [hText]
        exact .cons lead nonempty read start stop name tail
      obtain ⟨back, hRewired, hBack, hSecond⟩ := hFirst.exists_behind_part hBehind
      exact ⟨before, [], back, p :: params, hRewired, rfl, .nil, hBack, fun hColons =>
        hSecond (hColons p List.mem_cons_self hBehind)⟩

/-! ## Splices around a block -/

def IsInside (parts : RootBlock.Split) (p : Parameter) : Prop :=
  (Text.byteLength (parts.before ++ RootBlock.opening) : Nat) ≤ p.source.start ∧
    p.source.stop ≤ (Text.byteLength (parts.before ++ RootBlock.opening ++ parts.inner) : Nat)

instance (parts : RootBlock.Split) (p : Parameter) : Decidable (IsInside parts p) :=
  inferInstanceAs (Decidable (_ ∧ _))

def blockEnd (parts : RootBlock.Split) : Nat :=
  Text.byteLength (parts.before ++ RootBlock.opening ++ parts.inner ++ RootBlock.closing)

/-- A splice keeps the block, if no span reaches across a sentinel. -/
theorem Woven.exists_parts {css t : Text} {params : List Parameter} {parts : RootBlock.Split}
    (h : Woven 0 css params t) (hSplit : RootBlock.split? css = some parts)
    (hAround : ∀ p ∈ params, p.source.stop ≤ (Text.byteLength parts.before : Nat) ∨
      IsInside parts p ∨ (blockEnd parts : Nat) ≤ p.source.start) :
    ∃ next first second, RootBlock.split? t = some next ∧ first ⊆ params ∧ second ⊆ params ∧
      Woven 0 parts.before first next.before ∧ Exchanged params parts.after next.after ∧
      ((∀ p ∈ params, (blockEnd parts : Nat) ≤ p.source.start →
          HoldsColon (blockEnd parts) parts.after p) →
        Woven (blockEnd parts) parts.after second next.after) := by
  obtain ⟨hText, hOpening, hClosing⟩ := RootBlock.split?_eq_some_iff.mp hSplit
  have hCut : css = (parts.before ++ (RootBlock.opening ++ parts.inner)) ++
      (RootBlock.closing ++ parts.after) := by
    rw [hText]
    simp only [List.append_assoc]
  have hBehind : 0 + Text.byteLength (parts.before ++ (RootBlock.opening ++ parts.inner)) +
      Text.byteLength RootBlock.closing = blockEnd parts := by
    rw [blockEnd]
    simp only [Text.byteLength_append]
    omega
  rw [hCut] at h
  obtain ⟨front, first, after, second, rfl, rfl, hFront, hAfter, hSecond⟩ :=
    h.exists_around fun p hp => by
      have hp' := hAround p hp
      simp only [IsInside, blockEnd, Text.byteLength_append] at hp' ⊢
      omega
  rw [hBehind] at hSecond
  obtain ⟨before, one, inner, two, rfl, rfl, hBefore, hInner, -⟩ := hFront.exists_around fun p hp => by
    have hp' := hAround p (List.mem_append_left second hp)
    simp only [IsInside, blockEnd, Text.byteLength_append] at hp' ⊢
    omega
  refine ⟨⟨before, inner, after⟩, one, second, ?_, ?_, List.subset_append_right _ _, hBefore, hAfter,
    hSecond⟩
  · rw [RootBlock.split?_eq_some_iff]
    refine ⟨by simp only [List.append_assoc], fun hInfix => hOpening ?_, fun hInfix => hClosing ?_⟩
    · have hExchanged := (hBefore.exchanged (List.Subset.refl one) []).append_right
        RootBlock.opening.dropLast
      exact hExchanged.infix_before (by decide) (by decide) (by decide) hInfix
    · exact (hInner.append_right RootBlock.closing.dropLast).infix_before (by decide) (by decide)
        (by decide) hInfix
  · exact List.Subset.trans (List.subset_append_left one two) (List.subset_append_left _ second)

end Rewire

end DesignParams
