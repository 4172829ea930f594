import DesignParams.RootBlock
import DesignParams.Stylesheet.Scan
import DesignParams.Proofs.Number.Literal
import DesignParams.Proofs.Theme.Name

/-!
# Rendered values

What a parameter is rendered as: the text of an override, the literal that was found, or a number
with its unit. A number is written in digits, a sign, a point and letters, whatever it is.
-/
set_option autoImplicit false

namespace DesignParams

theorem all_repeated (count : Nat) : (Text.repeated '0' count).all isAsciiDigit = true := by
  refine List.all_eq_true.mpr fun c hc => ?_
  rw [List.eq_of_mem_replicate hc]
  rfl

theorem Decimal.all_positional (d : Decimal) :
    d.positional.1.all isAsciiDigit = true ∧ d.positional.2.all isAsciiDigit = true := by
  have hDigits := Text.all_ofNat d.digits
  rw [positional]
  split
  · refine ⟨?_, rfl⟩
    rw [List.all_append, hDigits, all_repeated]
    rfl
  · simp only
    split
    · rw [List.splitAt_eq]
      constructor
      · exact List.all_eq_true.mpr fun c hc => List.all_eq_true.mp hDigits c (List.mem_of_mem_take hc)
      · exact List.all_eq_true.mpr fun c hc => List.all_eq_true.mp hDigits c (List.mem_of_mem_drop hc)
    · refine ⟨rfl, ?_⟩
      rw [List.all_append, all_repeated, hDigits]
      rfl

theorem all_signed {negative : Bool} {s : Text} (h : s.all isQuantityChar = true) :
    (Binary64.signed negative s).all isQuantityChar = true := by
  rw [Binary64.signed]
  split
  · rw [List.all_cons, h]
    rfl
  · exact h

theorem Binary64.all_plain (n : Binary64) : n.plain.all isQuantityChar = true := by
  cases n with
  | infinite negative => exact all_signed (by decide)
  | finite negative units =>
    have hDigits := (Decimal.shortest units).all_positional
    rw [plain]
    generalize (Decimal.shortest units).positional = parts at hDigits ⊢
    obtain ⟨whole, fraction⟩ := parts
    obtain ⟨hWhole, hFraction⟩ := hDigits
    refine all_signed ?_
    split
    · exact all_quantity_of_digits hWhole
    · rw [List.all_append, List.all_cons, all_quantity_of_digits hWhole,
        all_quantity_of_digits hFraction]
      rfl

/-! ## Parameters that stand for literals -/

/-- Is the default of the parameter its literal, as a text or as a number with a unit? -/
structure Parameter.IsLiteral (p : Parameter) : Prop where
  default : p.default = .text p.source.value ∨ ∃ n, p.default = .number n
  unit : (p.unit.getD []).all Quantity.isUnitChar = true

theorem Stylesheet.isLiteral_parameter (file : Path) (d : Declaration) (s : Text) :
    (parameter file d s).IsLiteral := by
  have hDefault : (parameter file d s).default = (recognise d.property d.value).2.1 := rfl
  have hUnit : (parameter file d s).unit = (recognise d.property d.value).2.2.1 := rfl
  have hValue : (parameter file d s).source.value = d.value := rfl
  cases hParse : Quantity.parse? d.value with
  | none =>
    simp only [recognise, hParse] at hDefault hUnit
    refine ⟨.inl (by rw [hDefault, hValue]), ?_⟩
    rw [hUnit]
    rfl
  | some q =>
    simp only [recognise, hParse] at hDefault hUnit
    refine ⟨.inr ⟨q.number, hDefault⟩, ?_⟩
    rw [hUnit]
    split
    · rfl
    · exact Quantity.all_unit hParse

theorem Theme.isLiteral_parameter (file : Path) (e : Entry) (name : Text) :
    (parameter file e name).IsLiteral := by
  have hDefault : (parameter file e name).default = (recognise e).2.1 := rfl
  have hUnit : (parameter file e name).unit = (recognise e).2.2.1 := rfl
  have hValue : (parameter file e name).source.value = e.value := rfl
  rw [recognise] at hDefault hUnit
  split at hDefault
  · rename_i hColor
    rw [if_pos hColor] at hUnit
    refine ⟨.inl (by rw [hDefault, hValue]), ?_⟩
    rw [hUnit]
    rfl
  · rename_i hColor
    rw [if_neg hColor] at hUnit
    cases hParse : Quantity.parse? e.value with
    | none =>
      simp only [hParse] at hDefault hUnit
      refine ⟨.inl (by rw [hDefault, hValue]), ?_⟩
      rw [hUnit]
      rfl
    | some q =>
      simp only [hParse] at hDefault hUnit
      refine ⟨.inr ⟨q.number, hDefault⟩, ?_⟩
      rw [hUnit]
      split
      · rfl
      · exact Quantity.all_unit hParse

theorem Stylesheet.isLiteral_of_mem_named {file : Path} {used : List Text}
    {declarations : List Declaration} {p : Parameter} (h : p ∈ named file used declarations) :
    p.IsLiteral := by
  induction declarations generalizing used with
  | nil => cases h
  | cons d rest ih =>
    rcases List.mem_cons.mp h with rfl | h
    · exact isLiteral_parameter file d _
    · exact ih h

theorem Theme.isLiteral_of_mem_named {file : Path} {earlier : List Text} {entries : List Entry}
    {p : Parameter} (h : p ∈ named file earlier entries) : p.IsLiteral := by
  obtain ⟨e, -, count, rfl⟩ := exists_of_mem_named h
  exact isLiteral_parameter file e _

theorem Entries.mem_of_find? {α : Type} {key : Text} {entries : Entries α} {value : α}
    (h : Entries.find? key entries = some value) : (key, value) ∈ entries := by
  induction entries with
  | nil => cases h
  | cons entry entries ih =>
    obtain ⟨k, v⟩ := entry
    rw [find?] at h
    split at h
    · rename_i hKey
      cases h
      rw [hKey]
      exact List.mem_cons_self
    · exact List.mem_cons_of_mem _ (ih h)

theorem Value.all_render_number {unit : Option Text}
    (h : (unit.getD []).all Quantity.isUnitChar = true) (n : Binary64) :
    ((Value.number n).render unit).all isQuantityChar = true := by
  rw [render, List.all_append, n.all_plain, Bool.true_and]
  refine List.all_eq_true.mpr fun c hc => ?_
  have hUnit := List.all_eq_true.mp h c hc
  simp [isQuantityChar, hUnit]

/-- A rendered value is an override's text, the literal itself, or a number. -/
theorem Parameter.IsLiteral.render_induction {P : Text → Prop} {p : Parameter} (h : p.IsLiteral)
    {overrides : Overrides} (hText : ∀ id text, (id, Value.text text) ∈ overrides → P text)
    (hQuantity : ∀ s : Text, s.all isQuantityChar = true → P s) (hLiteral : P p.source.value) :
    P ((p.effectiveValue overrides).render p.unit) := by
  rw [effectiveValue]
  cases hFind : Entries.find? p.id overrides with
  | none =>
    rw [Option.getD_none]
    rcases h.default with hDefault | ⟨n, hDefault⟩
    · rw [hDefault]
      exact hLiteral
    · rw [hDefault]
      exact hQuantity _ (Value.all_render_number h.unit n)
  | some value =>
    rw [Option.getD_some]
    cases value with
    | number n => exact hQuantity _ (Value.all_render_number h.unit n)
    | text s => exact hText p.id s (Entries.mem_of_find? hFind)

theorem RootBlock.Item.effectiveValue_induction {P : Text → Prop} {item : Item}
    {overrides : Overrides} (hText : ∀ id text, (id, Value.text text) ∈ overrides → P text)
    (hQuantity : ∀ s : Text, s.all isQuantityChar = true → P s) (hValue : P item.value) :
    P (item.effectiveValue overrides) := by
  rw [effectiveValue]
  split
  · exact hValue
  · rename_i value hFind
    obtain ⟨id, -, hEntry⟩ := Option.bind_eq_some_iff.mp hFind
    cases value with
    | text s => exact hText id s (Entries.mem_of_find? hEntry)
    | number n =>
      refine hQuantity _ (Value.all_render_number ?_ n)
      cases hParse : Quantity.parse? item.value with
      | none => rfl
      | some q => exact Quantity.all_unit hParse

end DesignParams
