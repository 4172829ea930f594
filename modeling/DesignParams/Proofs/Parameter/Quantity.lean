import DesignParams.Proofs.Parameter.Rendered

/-!
# Reading a rendered number

A finite number is written as a numeral, so it is read back with the unit behind it. The unit of a
carried declaration is therefore kept by overrides that are finite numbers.
-/
set_option autoImplicit false

namespace DesignParams

theorem Decimal.whole_ne_nil (d : Decimal) : d.positional.1 ≠ [] := by
  have hDigits : Text.ofNat d.digits ≠ [] := Nat.toDigits_ne_nil
  rw [positional]
  split
  · exact List.append_ne_nil_of_left_ne_nil hDigits _
  · simp only
    split
    · rename_i hPlaces
      rw [List.splitAt_eq]
      simp only [ne_eq, List.take_eq_nil_iff, hDigits, or_false]
      omega
    · exact List.cons_ne_nil _ _

def Quantity.Numeral.ofDecimal (negative : Bool) (d : Decimal) : Numeral where
  negative := negative
  whole := d.positional.1
  fraction := if d.positional.2.isEmpty then none else some d.positional.2
  all_whole := d.all_positional.1
  all_fraction := by
    intro digits hDigits
    split at hDigits
    · cases hDigits
    · rename_i hNonempty
      obtain rfl := Option.some.inj hDigits
      exact ⟨by simpa using hNonempty, d.all_positional.2⟩
  has_digit := .inl d.whole_ne_nil

theorem Quantity.Numeral.text_ofDecimal (negative : Bool) (units : Nat) :
    (ofDecimal negative (Decimal.shortest units)).text = (Binary64.finite negative units).plain := by
  rw [text, unsigned, Binary64.plain, ofDecimal]
  simp only
  split
  · rw [Option.elim_none, List.append_nil]
  · rw [Option.elim_some]

theorem Quantity.unit_parse?_plain (negative : Bool) (units : Nat) {unit : Text}
    (hUnit : unit.all isUnitChar = true) :
    (parse? ((Binary64.finite negative units).plain ++ unit)).map (·.unit) = some unit := by
  rw [← Numeral.text_ofDecimal, parse?_of_trim _ hUnit (trim_text_append _ hUnit)]
  rfl

end DesignParams
