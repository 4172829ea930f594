import DesignParams.Proofs.Rewire.Parts
import DesignParams.Proofs.Rewire.Restore
import DesignParams.Proofs.RootBlock.Items

/-!
# Rigged stylesheets

A rewiring leaves its block in front of what stood outside the old one, with references to the
parameters. What is referred to is declared by the new block when it is among the parameters, or
when the line of the old block that declared it is read back.
-/
set_option autoImplicit false

namespace DesignParams

namespace Rewire

def outside (css : Text) : Text :=
  match RootBlock.split? css with
  | some parts => parts.before ++ parts.after
  | none => css

/-- Is every generated name that is referred to outside the root block declared within it? -/
def IsBound (css : Text) : Prop :=
  ∃ parts ∈ RootBlock.split? css,
    ∀ name ∈ RootBlock.references (outside css), RootBlock.Declares parts.inner name

instance (css : Text) : Decidable (IsBound css) :=
  inferInstanceAs (Decidable (∃ parts ∈ RootBlock.split? css, _))

/-- Does the span of a parameter lie on one line of the root block, or else behind the block? -/
def IsApart (css : Text) (p : Parameter) : Prop :=
  ∀ parts ∈ RootBlock.split? css,
    ((Text.byteLength (parts.before ++ RootBlock.opening) : Nat) ≤ p.source.start ∧
      p.source.stop ≤ (Text.byteLength (parts.before ++ RootBlock.opening ++ parts.inner) : Nat) ∧
      '\n' ∉ p.source.value) ∨
    (Text.byteLength (parts.before ++ RootBlock.opening ++ parts.inner ++ RootBlock.closing) : Nat) ≤
      p.source.start

instance (css : Text) (p : Parameter) : Decidable (IsApart css p) :=
  inferInstanceAs (Decidable (∀ parts ∈ RootBlock.split? css, _ ∨ _))

/-! ## The values of a block -/

theorem newline_not_mem_of_all_quantity {s : Text} (h : s.all isQuantityChar = true) : '\n' ∉ s :=
  fun hMem => absurd (List.all_eq_true.mp h '\n' hMem) (by decide)

theorem enclosed_of_all_quantity {s : Text} (h : s.all isQuantityChar = true) :
    RootBlock.Enclosed s :=
  ⟨unmarked_of_all_quantity h, RootBlock.unled_of_not_mem (newline_not_mem_of_all_quantity h)⟩

theorem sound_of_single_override {id text : Text} (h : text.all isQuantityChar = true) :
    ∀ id' text', (id', Value.text text') ∈ [(id, Value.text text)] →
      RootBlock.Unmarked text' ∧ '\n' ∉ text' := by
  intro id' text' hMem
  obtain ⟨-, hText⟩ := Prod.mk.inj (List.mem_singleton.mp hMem)
  obtain rfl := Value.text.inj hText
  exact ⟨unmarked_of_all_quantity h, newline_not_mem_of_all_quantity h⟩

/-! ## The declarations of a new block -/

def written (css : Text) (params : List Parameter) (overrides : Overrides) : List RootBlock.Item :=
  params.map (RootBlock.ofParameter overrides) ++
    (RootBlock.carried css params).map (RootBlock.ofCarried overrides)

/-- Are the parameters those that a scan of the stylesheet finds, in any order, with others that
have no span? -/
structure Finds (css : Text) (file : Path) (params : List Parameter) : Prop where
  covers : ∀ p ∈ Stylesheet.scan css file, p ∈ params
  others : ∀ p ∈ params, p ∈ Stylesheet.scan css file ∨ RootBlock.Enclosed p.source.value
  names : ∀ p ∈ params, IsGenerated p.customProperty
  literals : ∀ p ∈ params, p.IsLiteral
  replacements : (params.filterMap Replacement.ofParameter?).Perm
    ((Stylesheet.scan css file).filterMap Replacement.ofParameter?)

theorem finds_scan (css : Text) (file : Path) : Finds css file (Stylesheet.scan css file) where
  covers _ hp := hp
  others _ hp := .inl hp
  names _ hp := Stylesheet.isGenerated_of_mem_scan hp
  literals _ hp := Stylesheet.isLiteral_of_mem_named hp
  replacements := List.Perm.refl _

section

variable {css : Text} {file : Path} {params : List Parameter} {overrides : Overrides}

theorem mem_written_iff {name : Text} :
    name ∈ (written css params overrides).map (·.customProperty) ↔
      name ∈ params.map (·.customProperty) ∨
        name ∈ (RootBlock.carried css params).map (·.customProperty) := by
  rw [written, List.map_append, List.mem_append, List.map_map, List.map_map]
  rfl

/-- What holds of the overrides, of numbers, and of the values that are found and carried over,
holds of the values that are written. -/
theorem forall_written {P : Text → Prop} (hLiterals : ∀ p ∈ params, p.IsLiteral)
    (hText : ∀ id text, (id, Value.text text) ∈ overrides → P text)
    (hQuantity : ∀ s : Text, s.all isQuantityChar = true → P s)
    (hFound : ∀ p ∈ params, P p.source.value)
    (hCarried : ∀ item ∈ RootBlock.carried css params, P item.value) :
    ∀ item ∈ written css params overrides, P item.value := by
  intro item hItem
  rcases List.mem_append.mp hItem with hItem | hItem
  · obtain ⟨p, hp, rfl⟩ := List.mem_map.mp hItem
    exact (hLiterals p hp).render_induction hText hQuantity (hFound p hp)
  · obtain ⟨old, hOld, rfl⟩ := List.mem_map.mp hItem
    exact RootBlock.Item.effectiveValue_induction hText hQuantity (hCarried old hOld)

end

/-! ## Rigged texts -/

/-- Is the text a block of the items in front of another text, as a rewiring leaves them? -/
structure IsRigged (css : Text) (items : List RootBlock.Item) (after : Text) : Prop where
  text : css = RootBlock.write items ++ after
  names : ∀ item ∈ items, IsGenerated item.customProperty
  values : ∀ item ∈ items, RootBlock.Enclosed item.value
  unmarked : RootBlock.Unmarked after
  neat : Neat after

section

variable {css : Text} {items : List RootBlock.Item} {after : Text}

theorem IsRigged.variables (h : IsRigged css items after) :
    ∀ item ∈ items, RootBlock.IsVariable item.customProperty := fun item hItem =>
  RootBlock.isVariable_of_isGenerated (h.names item hItem)

theorem IsRigged.unclosed (h : IsRigged css items after) :
    ∀ item ∈ items, ¬ RootBlock.closing <:+: item.value := fun item hItem =>
  (h.values item hItem).unmarked RootBlock.closing (.inr rfl)

theorem IsRigged.split? (h : IsRigged css items after) :
    RootBlock.split? css = some ⟨[], RootBlock.body items, after⟩ := by
  rw [h.text]
  exact RootBlock.split?_write h.variables h.unclosed after

theorem IsRigged.outside (h : IsRigged css items after) :
    outside css = after := by
  rw [Rewire.outside, h.split?]
  rfl

theorem IsRigged.declares_iff (h : IsRigged css items after) {name : Text}
    (hName : name ∈ RootBlock.references after) :
    (∃ parts ∈ RootBlock.split? css, RootBlock.Declares parts.inner name) ↔
      name ∈ items.map (·.customProperty) := by
  have hBody : RootBlock.Declares (RootBlock.body items) name ↔ name ∈ items.map (·.customProperty) :=
    RootBlock.declares_body_iff
      (RootBlock.isVariable_of_isGenerated (h.neat.mem_references_iff.mp hName).1) h.variables
      fun item hItem => (h.values item hItem).unled
  rw [h.split?, ← hBody]
  constructor
  · rintro ⟨parts, hParts, hDeclares⟩
    obtain rfl := Option.some.inj hParts
    exact hDeclares
  · intro hDeclares
    exact ⟨_, rfl, hDeclares⟩

theorem IsRigged.isBound_iff (h : IsRigged css items after) :
    IsBound css ↔
      ∀ name ∈ RootBlock.references after, name ∈ items.map (·.customProperty) := by
  rw [IsBound, h.outside]
  constructor
  · rintro ⟨parts, hParts, hBound⟩ name hName
    exact (h.declares_iff hName).mp ⟨parts, hParts, hBound name hName⟩
  · intro hNames
    refine ⟨_, h.split?, fun name hName => ?_⟩
    obtain ⟨parts, hParts, hDeclares⟩ := (h.declares_iff hName).mpr (hNames name hName)
    rw [h.split?] at hParts
    obtain rfl := Option.some.inj hParts
    exact hDeclares

theorem IsRigged.carried_eq (h : IsRigged css items after) (params : List Parameter) :
    RootBlock.carried css params =
      (RootBlock.distinct [] (items.filterMap RootBlock.Item.reread?)).filter fun item =>
        (RootBlock.references after).contains item.customProperty &&
          !(params.map (·.customProperty)).contains item.customProperty := by
  rw [RootBlock.carried, h.split?]
  simp only
  rw [RootBlock.items_body h.variables fun item hItem => (h.values item hItem).unled, List.nil_append]

theorem IsRigged.of_mem_carried (h : IsRigged css items after) {params : List Parameter}
    {item : RootBlock.Item}
    (hItem : item ∈ RootBlock.carried css params) :
    IsGenerated item.customProperty ∧ RootBlock.Unmarked item.value ∧ '\n' ∉ item.value := by
  rw [h.carried_eq] at hItem
  have hRead := (RootBlock.sublist_distinct [] _).subset (List.mem_of_mem_filter hItem)
  obtain ⟨old, hOld, hReread⟩ := List.mem_filterMap.mp hRead
  have hName := h.names old hOld
  rcases RootBlock.Item.reread?_cases (h.variables old hOld) with ⟨hNone, -⟩ | ⟨value, -, hSome, hLine, hInfix, -⟩
  · rw [hNone] at hReread
    cases hReread
  · rw [hSome] at hReread
    obtain rfl := Option.some.inj hReread
    exact ⟨hName, (h.values old hOld).unmarked.of_part hInfix, hLine⟩

/-- The names that are carried over are those that are referred to, that are not found again and
that stand in a legible line of the old block. -/
theorem IsRigged.mem_carried_iff (h : IsRigged css items after) {params : List Parameter} {name : Text} :
    name ∈ (RootBlock.carried css params).map (·.customProperty) ↔
      name ∈ RootBlock.references after ∧ name ∉ params.map (·.customProperty) ∧
        ∃ item ∈ items, item.customProperty = name ∧ item.IsLegible := by
  have hLegible : name ∈ (items.filterMap RootBlock.Item.reread?).map (·.customProperty) ↔
      ∃ item ∈ items, item.customProperty = name ∧ item.IsLegible := by
    constructor
    · intro hMem
      obtain ⟨read, hRead, rfl⟩ := List.mem_map.mp hMem
      obtain ⟨item, hItem, hReread⟩ := List.mem_filterMap.mp hRead
      have hIsLegible : item.IsLegible := Option.isSome_iff_exists.mpr ⟨read, hReread⟩
      obtain ⟨value, hSome⟩ := (RootBlock.Item.isLegible_iff (h.variables item hItem)).mp hIsLegible
      rw [hSome] at hReread
      obtain rfl := Option.some.inj hReread
      exact ⟨item, hItem, rfl, hIsLegible⟩
    · rintro ⟨item, hItem, rfl, hIsLegible⟩
      obtain ⟨value, hSome⟩ := (RootBlock.Item.isLegible_iff (h.variables item hItem)).mp hIsLegible
      exact List.mem_map.mpr ⟨_, List.mem_filterMap.mpr ⟨item, hItem, hSome⟩, rfl⟩
  have hRead : RootBlock.items (RootBlock.body items) = items.filterMap RootBlock.Item.reread? :=
    RootBlock.items_body h.variables fun item hItem => (h.values item hItem).unled
  rw [RootBlock.mem_carried_iff h.split?, ← hLegible]
  simp only
  rw [hRead, List.nil_append]

theorem IsRigged.enclosed_value (h : IsRigged css items after) {file : Path} {p : Parameter}
    (hp : p ∈ Stylesheet.scan css file)
    (hApart : IsApart css p) : RootBlock.Enclosed p.source.value := by
  obtain ⟨t, hWoven⟩ := exists_woven_scan (List.Sublist.refl (Stylesheet.scan css file))
  obtain ⟨front, rest, hSplit, hStart, hStop⟩ := hWoven.exists_span hp
  rcases hApart _ h.split? with ⟨hLow, hHigh, hLine⟩ | hBehind
  · rw [h.text, RootBlock.write_eq, List.append_assoc, List.append_assoc] at hSplit
    simp only [List.nil_append, Text.byteLength_append] at hLow hHigh
    have hInfix : p.source.value <:+: RootBlock.body items :=
      Text.infix_of_between hSplit (by omega) (by omega)
    exact ⟨(RootBlock.unmarked_body h.variables fun item hItem => (h.values item hItem).unmarked).of_part
      hInfix, RootBlock.unled_of_not_mem hLine⟩
  · rw [h.text, ← List.append_nil after] at hSplit
    have hWrite := congrArg Text.byteLength (RootBlock.write_eq items)
    have hLength := congrArg Text.byteLength hSplit
    simp only [List.nil_append, Text.byteLength_append, Text.byteLength_nil] at hBehind hWrite hLength
    have hInfix : p.source.value <:+: after :=
      Text.infix_of_between hSplit (by omega) (by omega)
    exact ⟨h.unmarked.of_part hInfix, h.neat.unled.of_part hInfix⟩

theorem IsRigged.exists_splice (h : IsRigged css items after) {file : Path}
    {params : List Parameter} (hFinds : Finds css file params)
    (hApart : ∀ p ∈ Stylesheet.scan css file, IsApart css p) :
    ∃ inner next,
      RootBlock.split? (splice css params) = some ⟨[], inner, next⟩ ∧
      Exchanged (Stylesheet.scan css file) after next := by
  obtain ⟨t, hWoven⟩ := exists_woven_scan (List.Sublist.refl (Stylesheet.scan css file))
  rw [hWoven.splice_eq hFinds.replacements]
  obtain ⟨next, first, -, hSplit, -, -, hBefore, hAfter, -⟩ := hWoven.exists_parts h.split? fun p hp => by
    rcases hApart p hp _ h.split? with ⟨hLow, hHigh, -⟩ | hBehind
    · exact .inr (.inl ⟨hLow, hHigh⟩)
    · exact .inr (.inr hBehind)
  obtain ⟨before, inner, after⟩ := next
  obtain rfl := hBefore.eq_nil rfl
  exact ⟨inner, after, hSplit, hAfter⟩

theorem isRigged_rewire {file : Path} {params : List Parameter} {overrides : Overrides} {next : Text}
    (hFinds : Finds css file params)
    (hRewire : rewire css params overrides = RootBlock.write (written css params overrides) ++ next)
    (hOverrides : ∀ id text, (id, Value.text text) ∈ overrides →
      RootBlock.Unmarked text ∧ '\n' ∉ text)
    (hValues : ∀ p ∈ Stylesheet.scan css file, RootBlock.Enclosed p.source.value)
    (hCarried : ∀ item ∈ RootBlock.carried css params,
      IsGenerated item.customProperty ∧ RootBlock.Unmarked item.value ∧ '\n' ∉ item.value)
    (hUnmarked : RootBlock.Unmarked next) (hNeat : Neat next) :
    IsRigged (rewire css params overrides) (written css params overrides) next := by
  refine ⟨hRewire, fun item hItem => ?_, ?_, hUnmarked, hNeat⟩
  · rcases mem_written_iff.mp (List.mem_map_of_mem hItem) with hFound | hOld
    · obtain ⟨p, hp, hName⟩ := List.mem_map.mp hFound
      exact hName ▸ hFinds.names p hp
    · obtain ⟨old, hOld, hName⟩ := List.mem_map.mp hOld
      exact hName ▸ (hCarried old hOld).1
  · refine forall_written hFinds.literals (fun id text hMem => ?_)
      (fun s hs => enclosed_of_all_quantity hs) (fun p hp => ?_) (fun item hItem => ?_)
    · obtain ⟨hMarks, hLine⟩ := hOverrides id text hMem
      exact ⟨hMarks, RootBlock.unled_of_not_mem hLine⟩
    · rcases hFinds.others p hp with hp | hValue
      · exact hValues p hp
      · exact hValue
    · obtain ⟨-, hMarks, hLine⟩ := hCarried item hItem
      exact ⟨hMarks, RootBlock.unled_of_not_mem hLine⟩

/-- A rewiring writes a new block before what stood behind the old one, with references to the
parameters that a scan finds. -/
theorem IsRigged.exists_rewire (h : IsRigged css items after) {file : Path}
    {params : List Parameter} {overrides : Overrides} (hFinds : Finds css file params)
    (hOverrides : ∀ id text, (id, Value.text text) ∈ overrides →
      RootBlock.Unmarked text ∧ '\n' ∉ text)
    (hApart : ∀ p ∈ Stylesheet.scan css file, IsApart css p) :
    ∃ next, IsRigged (rewire css params overrides) (written css params overrides) next ∧
      Exchanged (Stylesheet.scan css file) after next := by
  obtain ⟨inner, next, hSplit, hExchanged⟩ := h.exists_splice hFinds hApart
  refine ⟨next, ?_, hExchanged⟩
  refine isRigged_rewire hFinds ?_ hOverrides (fun p hp => h.enclosed_value hp (hApart p hp))
    (fun item hItem => h.of_mem_carried hItem) (hExchanged.unmarked h.unmarked)
    (hExchanged.neat h.neat)
  rw [rewire, RootBlock.inject, hSplit]
  rfl

/-- The first rewiring puts a block before a text that has none. -/
theorem exists_rewire {file : Path} {params : List Parameter} {overrides : Overrides}
    (hUnmarked : RootBlock.Unmarked css) (hLead : ¬ RootBlock.lead <:+: css)
    (hFinds : Finds css file params)
    (hOverrides : ∀ id text, (id, Value.text text) ∈ overrides →
      RootBlock.Unmarked text ∧ '\n' ∉ text) :
    ∃ t, Woven 0 css (Stylesheet.scan css file) t ∧
      IsRigged (rewire css params overrides) (params.map (RootBlock.ofParameter overrides))
        ('\n' :: '\n' :: t) ∧
      ∀ name ∈ RootBlock.references ('\n' :: '\n' :: t),
        name ∈ (Stylesheet.scan css file).map (·.customProperty) := by
  obtain ⟨t, hWoven⟩ := exists_woven_scan (List.Sublist.refl (Stylesheet.scan css file))
  have hBreak : "\n\n".toList = ['\n', '\n'] := by decide
  have hCarried := carried_eq_nil hUnmarked params
  have hWritten : written css params overrides = params.map (RootBlock.ofParameter overrides) := by
    rw [written, hCarried, List.map_nil, List.append_nil]
  have hSplice : splice css params = t := hWoven.splice_eq hFinds.replacements
  have hRewire := rewire_of_unmarked overrides hSplice hUnmarked (hWoven.unmarked hUnmarked)
  rw [← hWritten, hBreak] at hRewire
  have hExchanged := hWoven.exchanged (List.Subset.refl _) ['\n', '\n']
  have hBehind : ¬ RootBlock.lead <:+: ['\n', '\n'] ++ css := fun hInfix =>
    hLead (Text.infix_of_infix_append_of_head hInfix (by decide))
  have hMarks : RootBlock.Unmarked (['\n', '\n'] ++ css) := by
    intro w hw hInfix
    obtain ⟨u, rfl, -⟩ := hw.exists_cons
    exact hUnmarked _ hw (Text.infix_of_infix_append_of_head hInfix (by decide))
  have hNeat := neat_of_free hBehind
  refine ⟨t, hWoven, ?_, ?_⟩
  · rw [← hWritten]
    refine isRigged_rewire hFinds hRewire hOverrides (fun p hp => ?_) (fun item hItem => ?_)
      (hExchanged.unmarked hMarks) (hExchanged.neat hNeat)
    · have hInfix := hWoven.infix_value hp
      exact ⟨hUnmarked.of_part hInfix, (neat_of_free hLead).unled.of_part hInfix⟩
    · rw [hCarried] at hItem
      cases hItem
  · intro name hName
    rcases hExchanged.references hNeat hName with hOld | hNew
    · obtain ⟨hGenerated, hInfix⟩ := hNeat.mem_references_iff.mp hOld
      exact absurd ((lead_infix_referenceTo hGenerated).trans hInfix) hBehind
    · exact hNew

end

end Rewire

end DesignParams
