import DesignParams.Proofs.List.First
import DesignParams.Proofs.RootBlock.Items
import DesignParams.Stylesheet.Scan

/-!
# Declarations that are carried over

Reading a block that was written gives its items back. Of them the first item of each name is kept
that the text around the block refers to and that no parameter has. References are read from left
to right: each one is looked for behind the name of the one before.
-/
set_option autoImplicit false

namespace DesignParams

namespace RootBlock

/-! ## References -/

/-- Does the text begin with a reference that reads the name, and go on with the rest behind it? -/
structure BeginsReference (s name rest : Text) : Prop where
  text : ∃ blank : Text, blank.all isBlank = true ∧ s = "var(".toList ++ (blank ++ (name ++ rest))
  name : IsVariable name
  longest : ∀ c ∈ rest.head?, isNameChar c = false

theorem reference?_eq_some_iff {s name rest : Text} :
    reference? s = some (name, rest) ↔ BeginsReference s name rest := by
  constructor
  · intro h
    rw [reference?] at h
    split at h
    · cases h
    · rename_i found hAfter
      obtain ⟨hTrim, hName, hLongest⟩ := name?_eq_some_iff.mp h
      refine ⟨⟨Text.leadingBlank found, Text.all_leadingBlank found, ?_⟩, hName, hLongest⟩
      rw [← hTrim, Text.leadingBlank_append_trimStart]
      exact Text.append_of_after? hAfter
  · rintro ⟨⟨blank, hBlank, rfl⟩, hName, hLongest⟩
    rw [reference?, Text.after?_append]
    simp only
    rw [Text.trimStart_append_of_blank hBlank, trimStart_variable hName]
    exact name?_eq_some_iff.mpr ⟨rfl, hName, hLongest⟩

theorem BeginsReference.exists_append {s name rest : Text} (h : BeginsReference s name rest) :
    ∃ front, s = front ++ rest := by
  obtain ⟨blank, -, rfl⟩ := h.text
  exact ⟨"var(".toList ++ (blank ++ name), by simp⟩

def Mentions (s name : Text) : Prop :=
  ∃ front u rest, s = front ++ u ∧ BeginsReference u name rest

/-- Does the text refer to the name, read from left to right? -/
inductive RefersTo : Text → Text → Prop
  | here {s name rest : Text} (begins : BeginsReference s name rest) : RefersTo s name
  | behind {s other rest name : Text} (begins : BeginsReference s other rest)
      (refers : RefersTo rest name) : RefersTo s name
  | later {c : Char} {s name : Text} (none : ∀ other rest, ¬ BeginsReference (c :: s) other rest)
      (refers : RefersTo s name) : RefersTo (c :: s) name

theorem mem_references_iff {s name : Text} : name ∈ references s ↔ RefersTo s name := by
  constructor
  · intro h
    fun_induction references s with
    | case1 => cases h
    | case2 c s other rest hRead ih =>
      have hBegins := reference?_eq_some_iff.mp hRead
      rcases List.mem_cons.mp h with rfl | h
      · exact .here hBegins
      · exact .behind hBegins (ih h)
    | case3 c s hNone ih =>
      refine .later (fun other rest hBegins => ?_) (ih h)
      rw [reference?_eq_some_iff.mpr hBegins] at hNone
      cases hNone
  · intro h
    induction h with
    | here hBegins =>
      rw [references_some (reference?_eq_some_iff.mpr hBegins)]
      exact List.mem_cons_self
    | behind hBegins _ ih =>
      rw [references_some (reference?_eq_some_iff.mpr hBegins)]
      exact List.mem_cons_of_mem _ ih
    | later hNone _ ih =>
      rw [references_none (Option.eq_none_iff_forall_ne_some.mpr fun read hRead =>
        hNone _ _ (reference?_eq_some_iff.mp hRead))]
      exact ih

instance (s name : Text) : Decidable (RefersTo s name) :=
  decidable_of_iff (∃ other ∈ references s, other = name) <| by
    rw [exists_eq_right, mem_references_iff]

theorem mentions_iff {s name : Text} :
    Mentions s name ↔ ∃ u ∈ s.tails, ∃ read ∈ reference? u, read.1 = name := by
  constructor
  · rintro ⟨front, u, rest, rfl, hBegins⟩
    exact ⟨u, (List.mem_tails _ _).mpr (List.suffix_append front u), _,
      reference?_eq_some_iff.mpr hBegins, rfl⟩
  · rintro ⟨u, hu, ⟨name, rest⟩, hRead, rfl⟩
    obtain ⟨front, rfl⟩ := (List.mem_tails _ _).mp hu
    exact ⟨front, u, rest, rfl, reference?_eq_some_iff.mp hRead⟩

instance (s name : Text) : Decidable (Mentions s name) :=
  decidable_of_iff _ mentions_iff.symm

theorem Mentions.append_left {s name : Text} (h : Mentions s name) (front : Text) :
    Mentions (front ++ s) name := by
  obtain ⟨before, u, rest, rfl, hBegins⟩ := h
  exact ⟨front ++ before, u, rest, by rw [List.append_assoc], hBegins⟩

theorem RefersTo.mentions {s name : Text} (h : RefersTo s name) : Mentions s name := by
  induction h with
  | here hBegins => exact ⟨[], _, _, rfl, hBegins⟩
  | @behind s other rest name hBegins _ ih =>
    obtain ⟨front, rfl⟩ := hBegins.exists_append
    exact ih.append_left front
  | @later c s name _ _ ih => exact ih.append_left [c]

/-- Does no call of the function stand directly behind a character of a name? -/
def CallsApart (s : Text) : Prop :=
  ∀ front rest, s = front ++ ("var(".toList ++ rest) → ∀ c ∈ front.getLast?, isNameChar c = false

theorem CallsApart.of_append {front s : Text} (h : CallsApart (front ++ s)) : CallsApart s := by
  rintro before rest rfl c hc
  refine h (front ++ before) rest (List.append_assoc _ _ _).symm c ?_
  rw [List.getLast?_append, hc]
  rfl

theorem BeginsReference.exists_rest {s name rest front u : Text} {c : Char}
    (h : BeginsReference s name rest) (hApart : CallsApart s) (hFunction : "var(".toList <+: u)
    (hText : s = c :: front ++ u) : ∃ middle, rest = middle ++ u := by
  obtain ⟨behind, rfl⟩ := hFunction
  obtain ⟨⟨blank, hBlank, hSplit⟩, hName, -⟩ := h
  have hCall : "var(".toList = 'v' :: ['a', 'r', '('] := by decide
  have hNone : 'v' ∉ ['a', 'r', '('] ++ blank := by
    rw [List.mem_append, not_or]
    refine ⟨by decide, fun hMem => ?_⟩
    exact absurd (List.all_eq_true.mp hBlank 'v' hMem) (by decide)
  have hLast := hApart (c :: front) behind hText
  have hSame : (['a', 'r', '('] ++ blank) ++ (name ++ rest) =
      front ++ 'v' :: (['a', 'r', '('] ++ behind) := by
    rw [hSplit, hCall] at hText
    simpa using (List.cons.inj hText).2
  obtain ⟨stem, hStem⟩ : ∃ stem, name = '-' :: stem := by
    obtain ⟨tail, -, -, rfl⟩ := hName
    exact ⟨['-', 'r', 'i', 'g', '-'] ++ tail, rfl⟩
  rcases List.append_eq_append_iff.mp hSame with ⟨inner, rfl, hBehind⟩ | ⟨inner, hFront, hBehind⟩
  · rcases List.append_eq_append_iff.mp hBehind with ⟨middle, -, hRest⟩ | ⟨tail, hInner, hTail⟩
    · exact ⟨middle, hRest⟩
    · -- The call would begin within the name, behind a character of it.
      rcases List.eq_nil_or_concat inner with rfl | ⟨init, d, rfl⟩
      · rw [hStem] at hBehind
        exact absurd (List.cons.inj hBehind).1 (by decide)
      · have hFront : c :: (['a', 'r', '('] ++ blank ++ init.concat d) =
            (c :: (['a', 'r', '('] ++ blank ++ init)) ++ [d] := by simp
        rw [hFront, List.getLast?_concat] at hLast
        have hStop := hLast d rfl
        have hMem : d ∈ name := by simp [hInner]
        exact absurd hMem (hName.not_mem hStop)
  · rcases inner with _ | ⟨d, inner⟩
    · rw [hStem] at hBehind
      exact absurd (List.cons.inj hBehind).1 (by decide)
    · obtain ⟨rfl, -⟩ := List.cons.inj hBehind
      exact absurd (hFront ▸ List.mem_append_right front List.mem_cons_self) hNone

/-- Where calls stand apart, no reference is passed over. -/
theorem CallsApart.refersTo_iff {s name : Text} (h : CallsApart s) :
    RefersTo s name ↔ Mentions s name := by
  refine ⟨RefersTo.mentions, ?_⟩
  rintro ⟨front, u, behind, hSplit, hBegins⟩
  have hFunction : "var(".toList <+: u := by
    obtain ⟨blank, -, hText⟩ := hBegins.text
    exact ⟨_, hText.symm⟩
  fun_induction references s generalizing front with
  | case1 =>
    obtain ⟨-, rfl⟩ := List.append_eq_nil_iff.mp hSplit.symm
    exact absurd hFunction (by decide)
  | case2 c s other rest hRead ih =>
    have hFirst := reference?_eq_some_iff.mp hRead
    rcases front with _ | ⟨d, front⟩
    · rw [hSplit]
      exact .here hBegins
    · obtain ⟨middle, hRest⟩ := hFirst.exists_rest h hFunction hSplit
      obtain ⟨before, hFront⟩ := hFirst.exists_append
      exact .behind hFirst (ih (hFront ▸ h).of_append middle hRest)
  | case3 c s hNone ih =>
    rcases front with _ | ⟨d, front⟩
    · rw [hSplit]
      exact .here hBegins
    · obtain ⟨rfl, hTail⟩ := List.cons.inj hSplit
      have hApart : CallsApart ([c] ++ s) := h
      refine .later (fun other rest hOther => ?_) (ih hApart.of_append front hTail)
      rw [reference?_eq_some_iff.mpr hOther] at hNone
      cases hNone

/-! ## Reading a written block -/

/-- Can the item be read back as it was written? -/
structure Item.IsVerbatim (item : Item) : Prop where
  name : IsVariable item.customProperty
  trimmed : Text.trim item.value = item.value
  line : '\n' ∉ item.value
  unclosed : ¬ closing <:+: item.value

theorem Item.isVerbatim_iff {item : Item} :
    item.IsVerbatim ↔ IsVariable item.customProperty ∧ Text.trim item.value = item.value ∧
      '\n' ∉ item.value ∧ ¬ closing <:+: item.value := by
  constructor
  · rintro ⟨hName, hTrimmed, hLine, hUnclosed⟩
    exact ⟨hName, hTrimmed, hLine, hUnclosed⟩
  · rintro ⟨hName, hTrimmed, hLine, hUnclosed⟩
    exact ⟨hName, hTrimmed, hLine, hUnclosed⟩

instance (item : Item) : Decidable item.IsVerbatim :=
  decidable_of_iff _ Item.isVerbatim_iff.symm

theorem items_body_of_isVerbatim {items : List Item} (h : ∀ item ∈ items, item.IsVerbatim) :
    RootBlock.items (body items) = items := by
  rw [items_body_of_lines (fun item hItem => (h item hItem).name) fun item hItem => (h item hItem).line]
  conv_rhs => rw [← List.map_id items]
  refine List.map_congr_left fun item hItem => ?_
  rw [(h item hItem).trimmed, id]

theorem distinct_eq_unseen (seen : List Text) (items : List Item) :
    distinct seen items = unseen (·.customProperty) seen items :=
  eq_unseen (fun _ => rfl) (fun _ _ _ => rfl) seen items

/-- What is carried over from a written block are the first items of the names that the text around
it refers to and that no parameter has. -/
theorem carried_write {items : List Item} {before : Text} (hItems : ∀ item ∈ items, item.IsVerbatim)
    (hBefore : ¬ opening <:+: before ++ opening.dropLast) (after : Text) (params : List Parameter) :
    carried (before ++ (write items ++ after)) params =
      (firsts (·.customProperty) items).filter fun item =>
        RefersTo (before ++ after) item.customProperty ∧
          item.customProperty ∉ params.map (·.customProperty) := by
  have hSplit := split?_write_append (fun item hItem => (hItems item hItem).name)
    (fun item hItem => (hItems item hItem).unclosed) hBefore after
  rw [carried, hSplit]
  simp only
  rw [items_body_of_isVerbatim hItems, distinct_eq_unseen, unseen_nil_left]
  refine List.filter_congr fun item _ => ?_
  rw [Bool.eq_iff_iff, Bool.and_eq_true, Bool.not_eq_true', decide_eq_true_iff, List.contains_iff_mem,
    mem_references_iff, ← Bool.not_eq_true, List.contains_iff_mem]

/-- A value with semicolons and a colon, a second item of one name, a name a parameter has, a name
of which only a longer one is referred to, and a reference that the block stands in. -/
theorem carried_write_across :
    let items : List Item := [⟨"--rig-a".toList, "a; b:c;".toList⟩, ⟨"--rig-ab".toList, "1px".toList⟩,
      ⟨"--rig-a".toList, "2px".toList⟩, ⟨"--rig-c".toList, "3px".toList⟩,
      ⟨"--rig-d".toList, "4px".toList⟩]
    let before := "/* rigger:end */ var(\n --rig-a) var(--rig-".toList
    let after := "d) var(--rig-c) var(--rig-ab-)".toList
    let params := (Stylesheet.scan "p { margin: 4px }".toList ⟨"a.css".toList⟩).map fun p =>
      { p with customProperty := "--rig-c".toList }
    (∀ item ∈ items, item.IsVerbatim) ∧ ¬ opening <:+: before ++ opening.dropLast ∧
      carried (before ++ (write items ++ after)) params =
        [⟨"--rig-a".toList, "a; b:c;".toList⟩, ⟨"--rig-d".toList, "4px".toList⟩] := by
  intro items before after params
  have hItems : ∀ item ∈ items, item.IsVerbatim := by decide +kernel
  have hBefore : ¬ opening <:+: before ++ opening.dropLast := by decide +kernel
  refine ⟨hItems, hBefore, ?_⟩
  rw [carried_write hItems hBefore]
  decide +kernel

/-- A reference that begins within the name of another one is not looked for: the names that are
mentioned anywhere are more than those that are carried over. -/
theorem carried_ne_filter_mentions :
    let items : List Item := [⟨"--rig-b".toList, "1px".toList⟩]
    let before : Text := []
    let after := "\n\np \x7B margin: var(--rig-avar(--rig-b)) \x7D".toList
    let params : List Parameter := []
    (∀ item ∈ items, item.IsVerbatim ∧ item.value ≠ [] ∧ Unmarked item.value) ∧
      ¬ opening <:+: before ++ opening.dropLast ∧
      carried (before ++ (write items ++ after)) params ≠
        (firsts (·.customProperty) items).filter fun item =>
          Mentions (before ++ after) item.customProperty ∧
            item.customProperty ∉ params.map (·.customProperty) := by
  intro items before after params
  simp only [unmarked_iff]
  decide +kernel

end RootBlock

end DesignParams
