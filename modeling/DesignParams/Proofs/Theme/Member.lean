import DesignParams.Proofs.Theme.Closed
import DesignParams.Proofs.Theme.Printed

/-!
# Reading members back

Each member of a printed object is one part of its body, and falls into its key and its value at
its first colon. So the entries of a printed section are those that were written.
-/
set_option autoImplicit false

namespace DesignParams

namespace Theme

/-- Is the text an entry as it is found between two commas? -/
structure IsMember (s : Text) : Prop extends IsEntry s where
  trimmed : Text.trim s = s
  ne_nil : s ≠ []

theorem isMember_quoted (l : Literal) : IsMember (quoted l) where
  toIsEntry := isEntry_quoted l.quote_not_mem l.backslash_not_mem
  trimmed := by
    refine Text.trim_eq_self_iff.mpr ⟨by rfl, ?_⟩
    rw [quoted, ← List.cons_append, List.getLast?_concat]
    rfl
  ne_nil := List.cons_ne_nil _ _

theorem IsMember.assignment {key value : Text} (hKey : IsMember key) (hValue : IsMember value) :
    IsMember (assignment key value) where
  toIsEntry := by
    have hColon : IsEntry ": ".toList := isEntry_of_all (by decide) (by decide)
    exact hKey.toIsEntry.append (hColon.append hValue.toIsEntry)
  trimmed := by
    refine Text.trim_eq_self_iff.mpr ⟨?_, ?_⟩
    · rw [Theme.assignment, List.head?_append_of_ne_nil _ hKey.ne_nil]
      exact (Text.trim_eq_self_iff.mp hKey.trimmed).1
    · rw [Theme.assignment, ← List.append_assoc, List.getLast?_append_of_ne_nil _ hValue.ne_nil]
      exact (Text.trim_eq_self_iff.mp hValue.trimmed).2
  ne_nil := by
    rw [Theme.assignment]
    exact List.append_ne_nil_of_left_ne_nil hKey.ne_nil _

theorem isClosed_body {members : List Text} (h : ∀ e ∈ members, IsMember e) :
    IsClosed (body members) := by
  have hBlank : IsClosed [' '] := isClosed_plain (by decide)
  exact hBlank.append (isClosed_join fun e he => (h e he).toIsEntry)

theorem isMember_object {members : List Text} (h : ∀ e ∈ members, IsMember e) :
    IsMember (object members) where
  toIsEntry := isEntry_braced (isClosed_body h)
  trimmed := by
    refine Text.trim_eq_self_iff.mpr ⟨by rfl, ?_⟩
    rw [object, ← List.cons_append, List.getLast?_concat]
    rfl
  ne_nil := List.cons_ne_nil _ _

theorem isMember_printLeaf (l : Leaf) : IsMember (printLeaf l) :=
  (isMember_quoted l.key).assignment (isMember_quoted l.value)

theorem isMember_of_mem_leaves {leaves : List Leaf} {e : Text} (h : e ∈ leaves.map printLeaf) :
    IsMember e := by
  obtain ⟨l, -, rfl⟩ := List.mem_map.mp h
  exact isMember_printLeaf l

theorem isMember_of_mem_table {table : Table} {e : Text} (h : e ∈ table.map printMember) :
    IsMember e := by
  obtain ⟨m, -, rfl⟩ := List.mem_map.mp h
  cases m with
  | leaf l => exact isMember_printLeaf l
  | group key leaves =>
    exact (isMember_quoted key).assignment (isMember_object fun e => isMember_of_mem_leaves)

/-! ## The parts of a body -/

theorem splitTopLevel_body {members : List Text} (h : ∀ e ∈ members, IsMember e) :
    splitTopLevel (body members) = members := by
  have hBody : Marked.ofText (body members) =
      ⟨' ', .code⟩ :: Marked.ofText (Text.join ", ".toList members ++ [' ']) :=
    ofText_plain (by decide) _
  have hParts : partsFrom 0 [] (Marked.ofText (body members)) =
      partsFrom 0 [' '].reverse (Marked.ofText (Text.join ", ".toList members ++ [' '])) := by
    rw [hBody, partsFrom, if_pos rfl, if_neg (by decide)]
    rfl
  rw [splitTopLevel, blankComments_eq_self (isClosed_body h).clean, hParts]
  by_cases hNonempty : members = []
  · rw [hNonempty]
    decide
  · rw [map_trim_partsFrom (fun e he => ⟨(h e he).toIsEntry, (h e he).trimmed⟩) hNonempty (by decide)]
    refine List.filter_eq_self.mpr fun e he => ?_
    rw [Bool.not_eq_true', List.isEmpty_eq_false_iff]
    exact (h e he).ne_nil

/-! ## Keys and values -/

theorem unquoted_quoted (l : Literal) : Text.unquoted (quoted l) = l.text := by
  rw [Text.unquoted, (isMember_quoted l).trimmed, quoted]
  simp [isQuote]

theorem splitKeyValue?_assignment (key : Literal) {value : Text} (hValue : IsMember value) :
    splitKeyValue? (assignment (quoted key) value) = some (key.text, value) := by
  have hQuoted := isMember_quoted key
  have hMarks : Marked.ofText (assignment (quoted key) value) =
      (quoted key).map (⟨·, .string⟩) ++ ⟨':', .code⟩ :: Marked.ofText (' ' :: value) := by
    rw [assignment, quoted, ofText_quoted key.quote_not_mem key.backslash_not_mem]
    congr 1
  have hColon : topColon? 0 (Marked.ofText (assignment (quoted key) value)) =
      some (quoted key).length := by
    have hString : ∀ m ∈ (quoted key).map (⟨·, .string⟩ : Char → Marked), m.cls = .string := by
      intro m hm
      obtain ⟨c, -, rfl⟩ := List.mem_map.mp hm
      rfl
    rw [hMarks, topColon?_append_of_not_code hString, topColon?, if_pos (by decide),
      List.length_map]
    simp
  have hKeyPart : (assignment (quoted key) value).take (quoted key).length = quoted key :=
    List.take_left
  have hValuePart : (assignment (quoted key) value).drop ((quoted key).length + 1) =
      ' ' :: value := by
    rw [assignment, ← List.drop_drop, List.drop_left]
    rfl
  have hTrim : Text.trim ([' '] ++ (value ++ [])) = value :=
    Text.trim_append (by decide) (by decide) hValue.trimmed
  rw [List.append_nil, List.singleton_append] at hTrim
  simp only [splitKeyValue?, hColon, hKeyPart, hValuePart, hQuoted.trimmed, hTrim, unquoted_quoted]
  rw [if_neg]
  simp [hQuoted.ne_nil, hValue.ne_nil]

theorem representative?_quoted {l : Literal} (h : l.text ≠ []) :
    representative? (quoted l) = some l.text := by
  have hHead : (quoted l).head? ≠ some '[' := by
    rw [quoted]
    simp
  rw [representative?, if_neg hHead, unquoted_quoted]
  simp [h]

theorem leaf_quoted (s : Section) (key : Text) (l : Leaf) :
    leaf s key (quoted l.value) = [⟨s, key, l.value.text⟩] := by
  rw [leaf, representative?_quoted l.value_ne_nil]

/-! ## Entries -/

theorem isGroup_quoted (l : Literal) : isGroup (quoted l) = false := by
  rw [isGroup, quoted]
  simp

theorem isGroup_object (members : List Text) : isGroup (object members) = true := by
  rw [isGroup, object]
  simp

theorem groupEntries_object (s : Section) (parent : Text) (leaves : List Leaf) :
    groupEntries s parent (object (leaves.map printLeaf)) =
      leaves.map fun l => ⟨s, parent ++ '-' :: l.key.text, l.value.text⟩ := by
  have hMembers : ∀ e ∈ leaves.map printLeaf, IsMember e := fun e => isMember_of_mem_leaves
  rw [groupEntries, object, bracedBlock?_braced (isClosed_body hMembers)]
  simp only [splitTopLevel_body hMembers, List.flatMap_map]
  rw [List.map_eq_flatMap]
  refine List.flatMap_congr fun l _ => ?_
  rw [printLeaf, splitKeyValue?_assignment l.key (isMember_quoted l.value)]
  simp only [isGroup_quoted, Bool.false_eq_true, if_false, leaf_quoted]

theorem blockEntries_body (s : Section) (table : Table) :
    blockEntries s (body (table.map printMember)) = table.flatMap (memberEntries s) := by
  rw [blockEntries, splitTopLevel_body fun e => isMember_of_mem_table, List.flatMap_map]
  refine List.flatMap_congr fun m _ => ?_
  cases m with
  | leaf l =>
    rw [printMember, printLeaf, splitKeyValue?_assignment l.key (isMember_quoted l.value)]
    simp only [isGroup_quoted, Bool.false_eq_true, if_false, leaf_quoted]
    rfl
  | group key leaves =>
    have hObject : IsMember (object (leaves.map printLeaf)) :=
      isMember_object fun e => isMember_of_mem_leaves
    rw [printMember, splitKeyValue?_assignment key hObject]
    simp only [isGroup_object, if_true, groupEntries_object]
    rfl

end Theme

end DesignParams
