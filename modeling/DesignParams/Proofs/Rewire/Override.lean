import DesignParams.Proofs.Rewire.Rigged

/-!
# What overrides can change

Overrides reach only the values of the root block. Which spans are replaced, which declarations are
carried over and where the block stands does not depend on them, and an entry of the block reads
nothing of the overrides but what they hold for the id of the entry.
-/
set_option autoImplicit false

namespace DesignParams

namespace Rewire

/-- The ids whose overrides set the entries of the block: those of the parameters, and those that
the names of the declarations carried over belong to. -/
def entryIds (css : Text) (params : List Parameter) : List (Option Text) :=
  params.map (fun p => some p.id) ++
    (RootBlock.carried css params).map fun item => RootBlock.parameterId? item.customProperty

variable {first second : Overrides}

theorem ofParameter_congr {p : Parameter}
    (h : Entries.find? p.id first = Entries.find? p.id second) :
    RootBlock.ofParameter first p = RootBlock.ofParameter second p := by
  rw [RootBlock.ofParameter, RootBlock.ofParameter, Parameter.effectiveValue,
    Parameter.effectiveValue, h]

theorem ofCarried_congr {item : RootBlock.Item}
    (h : ∀ id ∈ RootBlock.parameterId? item.customProperty,
      Entries.find? id first = Entries.find? id second) :
    RootBlock.ofCarried first item = RootBlock.ofCarried second item := by
  have hFind : (RootBlock.parameterId? item.customProperty).bind (Entries.find? · first) =
      (RootBlock.parameterId? item.customProperty).bind (Entries.find? · second) := by
    cases hId : RootBlock.parameterId? item.customProperty with
    | none => rfl
    | some id => exact h id hId
  rw [RootBlock.ofCarried, RootBlock.ofCarried, RootBlock.Item.effectiveValue,
    RootBlock.Item.effectiveValue, hFind]

theorem map_customProperty_written (css : Text) (params : List Parameter) (overrides : Overrides) :
    (written css params overrides).map (·.customProperty) =
      params.map (·.customProperty) ++
        (RootBlock.carried css params).map (·.customProperty) := by
  rw [written, List.map_append, List.map_map, List.map_map]
  rfl

theorem getElem?_written_congr {css : Text} {params : List Parameter} {i : Nat}
    (h : ∀ id, (entryIds css params)[i]? = some (some id) →
      Entries.find? id first = Entries.find? id second) :
    (written css params first)[i]? = (written css params second)[i]? := by
  rw [entryIds] at h
  rw [written, written]
  by_cases hParam : i < params.length
  · have hId : (params.map (fun p => some p.id) ++ (RootBlock.carried css params).map fun item =>
        RootBlock.parameterId? item.customProperty)[i]? = some (some params[i].id) := by
      rw [List.getElem?_append_left (by simpa using hParam), List.getElem?_map,
        List.getElem?_eq_getElem hParam, Option.map_some]
    rw [List.getElem?_append_left (by simpa using hParam),
      List.getElem?_append_left (by simpa using hParam), List.getElem?_map, List.getElem?_map,
      List.getElem?_eq_getElem hParam, Option.map_some, Option.map_some,
      ofParameter_congr (h _ hId)]
  · have hBehind : params.length ≤ i := Nat.le_of_not_lt hParam
    rw [List.getElem?_append_right (by simpa using hBehind),
      List.getElem?_append_right (by simpa using hBehind), List.length_map, List.length_map,
      List.getElem?_map, List.getElem?_map]
    cases hItem : (RootBlock.carried css params)[i - params.length]? with
    | none => rfl
    | some item =>
      rw [Option.map_some, Option.map_some, ofCarried_congr fun id hId => h id ?_]
      rw [List.getElem?_append_right (by simpa using hBehind), List.length_map, List.getElem?_map,
        hItem, Option.map_some, hId]

/-- Two rewirings of one stylesheet differ only in values of the block, and in the value of an entry
only when the overrides differ at its id. -/
theorem rewire_frame (css : Text) (params : List Parameter) :
    (∃ before after, ∀ overrides,
      rewire css params overrides =
        before ++ (RootBlock.write (written css params overrides) ++ after)) ∧
    ∀ first second : Overrides,
      (written css params first).map (·.customProperty) =
          (written css params second).map (·.customProperty) ∧
        ∀ (i : Nat) (a b : RootBlock.Item), (written css params first)[i]? = some a →
          (written css params second)[i]? = some b → a.value ≠ b.value →
            ∃ id, (entryIds css params)[i]? = some (some id) ∧
              Entries.find? id first ≠ Entries.find? id second := by
  refine ⟨?_, fun first second => ⟨?_, fun i a b ha hb hDiffer => ?_⟩⟩
  · obtain ⟨before, after, hInject, -⟩ := RootBlock.exists_inject_eq (splice css params)
    exact ⟨before, after, fun overrides => hInject _⟩
  · rw [map_customProperty_written, map_customProperty_written]
  · by_contra hNone
    refine hDiffer (congrArg RootBlock.Item.value (Option.some.inj ?_))
    rw [← ha, ← hb]
    refine getElem?_written_congr fun id hId => ?_
    by_contra hFind
    exact hNone ⟨id, hId, hFind⟩

/-- The margin is declared by the old block and carried over, the colour is new; a number for the
margin takes its unit and leaves the colour as it was. -/
theorem rewire_frame_margin :
    let css := "/* rigger:start */
--rig-a: 4px;
/* rigger:end */ p \x7B color: red; margin: var(--rig-a) \x7D".toList
    let params := Stylesheet.scan css ⟨"a.css".toList⟩
    let second : Overrides := [("rig.a".toList, .number (.ofInt 8))]
    (written css params []).map (·.value) = ["red".toList, "4px".toList] ∧
      (written css params second).map (·.value) = ["red".toList, "8px".toList] ∧
      ∃ id, (entryIds css params)[1]? = some (some id) ∧
        Entries.find? id [] ≠ Entries.find? id second := by
  intro css params second
  have hWritten : (written css params []).map (·.value) = ["red".toList, "4px".toList] ∧
      (written css params second).map (·.value) = ["red".toList, "8px".toList] := by
    decide +kernel
  have hItem (overrides : Overrides) (value : Text)
      (h : ((written css params overrides).map (·.value))[1]? = some value) :
      ∃ item, (written css params overrides)[1]? = some item ∧ item.value = value := by
    rw [List.getElem?_map] at h
    exact Option.map_eq_some_iff.mp h
  obtain ⟨a, ha, hFour⟩ := hItem [] "4px".toList (by rw [hWritten.1]; rfl)
  obtain ⟨b, hb, hEight⟩ := hItem second "8px".toList (by rw [hWritten.2]; rfl)
  refine ⟨hWritten.1, hWritten.2, ?_⟩
  exact ((rewire_frame css params).2 [] second).2 1 a b ha hb (by rw [hFour, hEight]; decide)

end Rewire

end DesignParams
