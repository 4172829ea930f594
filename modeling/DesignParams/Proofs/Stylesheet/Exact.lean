import DesignParams.Proofs.Stylesheet.Exchange
import DesignParams.Proofs.Stylesheet.Span

/-!
# Exact spans

The span of every declaration is that of its value in the stylesheet, whichever way the stylesheet
was read: it is cut between characters, it holds no white space at its ends, and it lies behind the
spans before it.
-/
set_option autoImplicit false

namespace DesignParams

namespace Text

def slice? (start stop : Nat) (s : Text) : Option Text :=
  if start ≤ stop then
    (splitAt? start s).bind fun (_, behind) => (splitAt? (stop - start) behind).map (·.1)
  else none

theorem slice?_append (front value rest : Text) :
    slice? (byteLength front) (byteLength front + byteLength value) (front ++ (value ++ rest)) =
      some value := by
  rw [slice?, if_pos (Nat.le_add_right _ _), splitAt?_append, Option.bind_some]
  simp only
  rw [Nat.add_sub_cancel_left, splitAt?_append]
  rfl

theorem isBoundary_append (s t : Text) : isBoundary (byteLength s) (s ++ t) = true := by
  rw [isBoundary, splitAt?_append]
  rfl

end Text

namespace Declaration

/-- Does the span of the declaration hold its value, cut between characters and trimmed? -/
structure IsExact (css : Text) (d : Declaration) : Prop where
  start_lt_stop : d.start < d.stop
  stop_le : d.stop ≤ Text.byteLength css
  start_boundary : Text.isBoundary d.start css = true
  stop_boundary : Text.isBoundary d.stop css = true
  slice : Text.slice? d.start d.stop css = some d.value
  nonempty : d.value ≠ []
  trimmed : Text.trim d.value = d.value
  position : d.position = (LineIndex.ofText css).locate d.start

theorem Laid.isExact {css : Text} {declarations : List Declaration} (h : Laid 0 css declarations)
    {d : Declaration} (hd : d ∈ declarations) (hTrim : Text.trim d.value = d.value)
    (hPosition : d.position = (LineIndex.ofText css).locate d.start) : IsExact css d := by
  obtain ⟨front, rest, hSplit, hStart, hStop, hNonempty⟩ := h.exists_span hd
  have hPositive := Text.byteLength_pos hNonempty
  have hEnd : d.stop = Text.byteLength (front ++ d.value) := by
    rw [hStop, hStart, Nat.zero_add, Text.byteLength_append]
  rw [Nat.zero_add] at hStart
  constructor
  case start_lt_stop => omega
  case stop_le =>
    rw [hSplit, hEnd, Text.byteLength_append, Text.byteLength_append, Text.byteLength_append]
    omega
  case start_boundary =>
    rw [hSplit, hStart]
    exact Text.isBoundary_append front _
  case stop_boundary =>
    rw [hSplit, hEnd, ← List.append_assoc]
    exact Text.isBoundary_append (front ++ d.value) rest
  case slice =>
    rw [hStop, hStart]
    conv_lhs => rw [hSplit]
    exact Text.slice?_append front d.value rest
  case nonempty => exact hNonempty
  case trimmed => exact hTrim
  case position => exact hPosition

/-! ## Trimmed values -/

theorem trimmed_of_ofRules {css : Text} {declarations : List Declaration}
    (h : ofRules [] (.between true) 0 (Node.ofText css) = some declarations) :
    ∀ d ∈ declarations, Text.trim d.value = d.value := by
  intro d hd
  obtain ⟨earlier, later, rfl⟩ := List.append_of_mem hd
  obtain ⟨before, raw, after, property, selector, -, -, -, -, -, hValue, -⟩ :=
    exchangeable_ofRules (Node.ofText css) true none [] (.between true) 0 earlier d later
      (Node.formed_ofTokens _) h
  rw [(of_ofRaw_eq_singleton hValue).1]
  exact trim_dropPriority (Text.trim_trim _)

theorem trimmed_of_pairsFrom (offset : Nat) (s : Text) :
    ∀ d ∈ pairsFrom offset s, Text.trim d.value = d.value := by
  fun_induction pairsFrom offset s with
  | case1 => simp
  | case2 offset c s hName name tail behind before value rest hPair start ih =>
    rw [List.forall_mem_cons]
    exact ⟨trimmed_of_pairValue? hPair, ih⟩
  | case3 offset c s hName name tail behind hPair ih => exact ih
  | case4 offset c s hName ih => exact ih

theorem forall_located {css : Text} {declarations : List Declaration}
    (h : ∀ d ∈ declarations, Text.trim d.value = d.value) :
    ∀ d ∈ located css declarations, Text.trim d.value = d.value ∧
      d.position = (LineIndex.ofText css).locate d.start := by
  intro d hd
  obtain ⟨e, he, rfl⟩ := List.mem_map.mp hd
  exact ⟨h e he, rfl⟩

/-- The declarations of a stylesheet have exact spans, one behind the other, in both readings. -/
theorem isExact_of_read {css : Text} {declarations : List Declaration}
    (h : structural? css = some declarations ∨ declarations = pairs css) :
    (∀ d ∈ declarations, IsExact css d) ∧ declarations.Pairwise fun d e => d.stop ≤ e.start := by
  have hLaid : Laid 0 css declarations := by
    rcases h with h | rfl
    · exact laid_structural h
    · exact laid_pairs css
  have hValues : ∀ d ∈ declarations, Text.trim d.value = d.value ∧
      d.position = (LineIndex.ofText css).locate d.start := by
    rcases h with h | rfl
    · obtain ⟨read, hRead, rfl⟩ := Option.map_eq_some_iff.mp h
      exact forall_located (trimmed_of_ofRules hRead)
    · exact forall_located (trimmed_of_pairsFrom 0 css)
  refine ⟨fun d hd => ?_, hLaid.pairwise.1⟩
  obtain ⟨hTrim, hPosition⟩ := hValues d hd
  exact hLaid.isExact hd hTrim hPosition

end Declaration

end DesignParams
