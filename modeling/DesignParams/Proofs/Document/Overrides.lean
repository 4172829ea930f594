import DesignParams.Plan
import DesignParams.Proofs.Document.Value
import DesignParams.Proofs.RootBlock.Block

/-!
# Overrides come back

Overrides are read from a bare object, or from a snapshot that holds them. A bare object is told
from a snapshot by what its member `overrides` is: no override is an object.
-/
set_option autoImplicit false

namespace DesignParams

open JsonReader

/-! ## Plain values -/

namespace Value

/-- Is the value a text or a whole number of small magnitude? Zero has no sign here. -/
inductive IsPlain : Value → Prop
  | text (s : Text) : IsPlain (.text s)
  | whole (n : Int) (small : n.natAbs < 10 ^ 15) : IsPlain (.number (.ofInt n))

theorem toJson_whole {n : Int} (h : n.natAbs < 10 ^ 15) :
    (Value.number (.ofInt n)).toJson = .number (.ofInt n) := by
  rw [toJson, JsonNumber.ofBinary64_of_smallInt? (Binary64.smallInt?_ofInt h)]

theorem IsPlain.reads_value {v : Value} (h : v.IsPlain) (depth : Nat) :
    Reads (value (depth + 1)) v.toJson v.toJson := by
  cases h with
  | text s => exact reads_value_string depth s
  | whole n small =>
    rw [toJson_whole small]
    exact (JsonNumber.numeral_small small).reads_value depth

theorem IsPlain.ofJson?_toJson {v : Value} (h : v.IsPlain) : ofJson? v.toJson = some v := by
  cases h with
  | text s => rfl
  | whole n small => rw [toJson_whole small, ofJson?, JsonNumber.toBinary64_ofInt]

/-- Any value can be read, an infinite one as null. -/
theorem readable_toJson (v : Value) (depth : Nat) : Readable (depth + 1) v.toJson := by
  cases v with
  | text s => exact readable_string depth s
  | number x =>
    rw [toJson]
    cases hSmall : x.smallInt? with
    | some n =>
      rw [JsonNumber.ofBinary64_of_smallInt? hSmall]
      exact ⟨_, (JsonNumber.numeral_small (Binary64.natAbs_smallInt? hSmall)).reads_value depth⟩
    | none =>
      rw [JsonNumber.ofBinary64_of_smallInt?_eq_none hSmall]
      cases x with
      | finite negative units =>
        obtain ⟨y, hNumeral⟩ := exists_numeral_finite negative units
        exact ⟨_, hNumeral.reads_value depth⟩
      | infinite negative => exact ⟨_, reads_value_infinite depth negative⟩

end Value

/-! ## Bare objects -/

namespace Overrides

variable {overrides : Overrides}

theorem ofMembers_toJson (h : ∀ entry ∈ overrides, entry.2.IsPlain) :
    ofMembers (overrides.map fun entry => (entry.1, entry.2.toJson)) = .ok overrides := by
  induction overrides with
  | nil => rfl
  | cons entry overrides ih =>
    rw [List.forall_mem_cons] at h
    rw [List.map_cons, ofMembers, h.1.ofJson?_toJson, ih h.2]
    rfl

theorem find?_toJson_ne_object (key : Text) (inner : List (Text × Json)) (overrides : Overrides) :
    ¬ Entries.find? key (overrides.map fun entry => (entry.1, entry.2.toJson)) = some (.object inner) := by
  induction overrides with
  | nil => rintro ⟨⟩
  | cons entry overrides ih =>
    rw [List.map_cons, Entries.find?]
    split
    · cases entry.2 <;> rintro ⟨⟩
    · exact ih

theorem ofJson_toJson (h : ∀ entry ∈ overrides, entry.2.IsPlain) :
    ofJson (toJson overrides) = .ok overrides := by
  have hBare (inner : List (Text × Json)) :
      ¬ (toJson overrides).field? "overrides".toList = some (.object inner) :=
    find?_toJson_ne_object _ inner overrides
  exact (ofJson.eq_2 _ hBare).trans (ofMembers_toJson h)

theorem reads_value (hSorted : overrides.IsSorted) (h : ∀ entry ∈ overrides, entry.2.IsPlain)
    (depth : Nat) : Reads (value (depth + 2)) (toJson overrides) (toJson overrides) := by
  have hTakes := takes_entries [] (fun entry hEntry => (h entry hEntry).reads_value depth)
    (isSorted_map hSorted)
  exact reads_value_object hTakes

/-! ## Snapshots -/

theorem parse_of_reads {depth : Nat} {json read : Json} (hDepth : depthLimit = depth)
    (h : Reads (value depth) json read) : parse json.pretty = ofJson read := by
  subst hDepth
  rw [parse, Json.parse, h.run]

theorem readable_stylesheets (entries : List StylesheetEntry) (depth : Nat) :
    Readable (depth + 3) (.array (entries.map StylesheetEntry.toJson)) := by
  refine readable_array ?_
  intro json hJson
  obtain ⟨e, -, rfl⟩ := List.mem_map.mp hJson
  refine readable_object ?_
  simp only [List.forall_mem_cons]
  exact ⟨readable_string depth e.file.text, ⟨_, reads_value_bool depth e.injected⟩, nofun⟩

theorem readable_member? (depth : Nat) (key : String) (text? : Option Text) :
    ∀ member ∈ Json.member? key .string text?, Readable (depth + 1) member.2 := by
  cases text? with
  | none => exact nofun
  | some text => exact List.forall_mem_singleton.mpr (readable_string depth text)

theorem readable_entries (entries : List SnapshotEntry) (depth : Nat) :
    Readable (depth + 3) (.array (entries.map SnapshotEntry.toJson)) := by
  refine readable_array ?_
  intro json hJson
  obtain ⟨e, -, rfl⟩ := List.mem_map.mp hJson
  refine readable_object ?_
  simp only [List.forall_mem_append, List.forall_mem_cons]
  refine ⟨⟨⟨?_, ?_, ?_, ?_, nofun⟩, readable_member? depth "unit" e.unit⟩, ?_, nofun⟩
  · exact readable_string depth e.id
  · exact readable_string depth e.label
  · exact readable_string depth e.group.name
  · exact readable_string depth e.customProperty
  · exact e.value.readable_toJson depth

theorem exists_reads_snapshot {s : Snapshot} (hSorted : s.overrides.IsSorted)
    (h : ∀ entry ∈ s.overrides, entry.2.IsPlain) (depth : Nat) :
    ∃ members, Reads (value (depth + 4)) s.toJson (.object members) ∧
      Entries.find? "overrides".toList members = some s.overrides.toJson := by
  let front : List (Text × Json) :=
    [("version".toList, .string s.version),
      ("projectType".toList, .string s.kind.name),
      ("generatedAt".toList, .string s.generatedAt),
      ("params".toList, .array (s.params.map SnapshotEntry.toJson)),
      ("files".toList, .array (s.files.map StylesheetEntry.toJson))]
  have hFront : ∀ member ∈ front, Readable (depth + 3) member.2 := by
    simp only [front, List.forall_mem_cons]
    refine ⟨?_, ?_, ?_, ?_, ?_, nofun⟩
    · exact readable_string _ s.version
    · exact readable_string _ s.kind.name
    · exact readable_string _ s.generatedAt
    · exact readable_entries s.params depth
    · exact readable_stylesheets s.files depth
  obtain ⟨state, hTakes⟩ := exists_takes_entries hFront []
  have hOverrides : Takes (entryField (value (depth + 3))) state
      [("overrides".toList, s.overrides.toJson)]
      (Entries.insert "overrides".toList s.overrides.toJson state) :=
    .cons rfl ((reads_value hSorted h _).map fun json => Entries.insert "overrides".toList json state) .nil
  refine ⟨_, reads_value_object (hTakes.append hOverrides), ?_⟩
  rw [Entries.find?_insert, if_pos rfl]

/-- Overrides come back from a snapshot and on their own, the snapshot lists the parameters with the
values that the block is written with, and what comes back from it writes the same stylesheet. -/
theorem parse_snapshot (scan : ProjectScan) (generatedAt : Instant) (current : Text)
    (hSorted : overrides.IsSorted) (hPlain : ∀ entry ∈ overrides, entry.2.IsPlain) :
    let snapshot := scan.snapshot overrides generatedAt
    let block := RootBlock.build scan.params (RootBlock.carried current scan.params) overrides
    parse snapshot.toJson.pretty = .ok overrides ∧
    parse (toJson overrides).pretty = .ok overrides ∧
    (∃ before after, rewire current scan.params overrides = before ++ (block ++ after) ∧
      ¬ RootBlock.opening <:+: before ++ RootBlock.opening.dropLast) ∧
    snapshot.params.map (·.id) = scan.params.map (·.id) ∧
    (∀ entry ∈ snapshot.params,
      '\n' :: RootBlock.Item.line ⟨entry.customProperty, entry.value.render entry.unit⟩ ++ ['\n'] <:+:
        block) ∧
    (parse snapshot.toJson.pretty).map (rewire current scan.params) =
      .ok (rewire current scan.params overrides) := by
  intro snapshot block
  have hSnapshot : parse snapshot.toJson.pretty = .ok overrides := by
    obtain ⟨members, hReads, hFind⟩ := exists_reads_snapshot (s := snapshot) hSorted hPlain 124
    rw [parse_of_reads rfl hReads]
    exact (ofJson.eq_1 _ _ hFind).trans (ofMembers_toJson hPlain)
  refine ⟨hSnapshot, ?_, ?_, ?_, ?_, ?_⟩
  · rw [parse_of_reads rfl (reads_value hSorted hPlain 126), ofJson_toJson hPlain]
  · exact RootBlock.exists_inject _ block
  · exact List.map_map
  · intro entry hEntry
    obtain ⟨p, hParam, rfl⟩ := List.mem_map.mp hEntry
    have hItem : RootBlock.ofParameter overrides p ∈
        scan.params.map (RootBlock.ofParameter overrides) ++
          (RootBlock.carried current scan.params).map (RootBlock.ofCarried overrides) :=
      List.mem_append_left _ (List.mem_map_of_mem hParam)
    exact RootBlock.line_infix_write hItem
  · rw [hSnapshot]
    rfl

/-- A key of the overrides is that of a snapshot's own member. -/
theorem parse_snapshot_margin :
    let file := Path.ofString "a.css"
    let css := "p \x7B margin: 4px \x7D".toList
    let scan : ProjectScan :=
      { kind := .vanilla, root := .ofString "/site", stylesheet := some file, candidates := []
        params := Stylesheet.scan css file, diagnostics := [] }
    let overrides : Overrides :=
      [("overrides".toList, .text "\"\n\\".toList),
        ("rig.spacing-margin-wxfo3d".toList, .number (.ofInt 8))]
    let snapshot := scan.snapshot overrides ⟨0, 0⟩
    overrides.IsSorted ∧ (∀ entry ∈ overrides, entry.2.IsPlain) ∧
      parse snapshot.toJson.pretty = .ok overrides ∧
      parse (toJson overrides).pretty = .ok overrides ∧
      (parse snapshot.toJson.pretty).map (rewire css scan.params) =
        .ok "/* rigger:start */
:root \x7B
  --rig-spacing-margin-wxfo3d: 8px;
\x7D
/* rigger:end */

p \x7B margin: var(--rig-spacing-margin-wxfo3d) \x7D".toList := by
  intro file css scan overrides snapshot
  have hSorted : overrides.IsSorted := by decide
  have hPlain : ∀ entry ∈ overrides, entry.2.IsPlain := by
    simp only [overrides, List.forall_mem_cons]
    exact ⟨.text _, .whole 8 (by decide), nofun⟩
  obtain ⟨hSnapshot, hBare, -, -, -, hSame⟩ := parse_snapshot scan ⟨0, 0⟩ css hSorted hPlain
  refine ⟨hSorted, hPlain, hSnapshot, hBare, hSame.trans ?_⟩
  decide +kernel

end Overrides

end DesignParams
