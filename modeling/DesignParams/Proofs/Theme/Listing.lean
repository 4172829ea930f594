import DesignParams.Proofs.List.First
import DesignParams.Theme.Scan

/-!
# Listing a theme

Without a limit the parameters of a theme can be listed: its entries, of each key in its section the
first, each under its name. A limit is looked at before every section, block and entry, and none of
that shows in the result: what is gathered up to a limit is what the list begins with.
-/
set_option autoImplicit false

namespace DesignParams

namespace Theme

/-! ## The list -/

def leaf (s : Section) (key raw : Text) : List Entry :=
  match representative? raw with
  | some value => [⟨s, key, value⟩]
  | none => []

/-- The entries of a group: its leaves under the joined key. Deeper groups are left out. -/
def groupEntries (s : Section) (parent raw : Text) : List Entry :=
  match bracedBlock? raw with
  | none => []
  | some (body, _) =>
    (splitTopLevel body).flatMap fun entry =>
      match splitKeyValue? entry with
      | none => []
      | some (key, value) => if isGroup value then [] else leaf s (parent ++ '-' :: key) value

def blockEntries (s : Section) (block : Text) : List Entry :=
  (splitTopLevel block).flatMap fun entry =>
    match splitKeyValue? entry with
    | none => []
    | some (key, value) => if isGroup value then groupEntries s key value else leaf s key value

/-- The entries of all sections, repeated keys included. -/
def allEntries (source : Text) : List Entry :=
  Section.all.flatMap fun s => (Section.blocks source s).flatMap (blockEntries s)

def distinct : List (Section × Text) → List Entry → List Entry
  | _, [] => []
  | seen, e :: rest =>
    if seen.contains (e.inSection, e.key) then distinct seen rest
    else e :: distinct ((e.inSection, e.key) :: seen) rest

def named (file : Path) : List Text → List Entry → List Parameter
  | _, [] => []
  | bases, e :: rest =>
    parameter file e (base e ++ suffix (bases.count (base e))) :: named file (base e :: bases) rest

theorem distinct_eq_unseen (seen : List (Section × Text)) (l : List Entry) :
    distinct seen l = unseen (fun e => (e.inSection, e.key)) seen l :=
  eq_unseen (fun _ => rfl) (fun _ _ _ => rfl) seen l

/-! ## Gathering as pushing -/

namespace Extraction

variable {α : Type} {x : Extraction}

theorem each_of_isFull (h : x.isFull = true) (step : Extraction → α → Extraction) (l : List α) :
    x.each step l = x := by
  cases l with
  | nil => rfl
  | cons a rest => rw [each, if_pos h]

theorem each_append (x : Extraction) (step : Extraction → α → Extraction) (l l' : List α) :
    x.each step (l ++ l') = (x.each step l).each step l' := by
  induction l generalizing x with
  | nil => rfl
  | cons a rest ih =>
    rw [List.cons_append, each, each]
    split
    · rename_i hFull
      rw [each_of_isFull hFull]
    · exact ih _

/-- Does a step, while there is room, do what pushing these entries would? -/
def Pushes (step : Extraction → α → Extraction) (entries : α → List Entry) : Prop :=
  ∀ x a, x.isFull = false → step x a = x.each push (entries a)

theorem Pushes.each_eq {step : Extraction → α → Extraction} {entries : α → List Entry}
    (h : Pushes step entries) (x : Extraction) (l : List α) :
    x.each step l = x.each push (l.flatMap entries) := by
  induction l generalizing x with
  | nil => rfl
  | cons a rest ih =>
    rw [each, List.flatMap_cons, each_append]
    split
    · rename_i hFull
      rw [each_of_isFull hFull, each_of_isFull hFull]
    · rename_i hRoom
      rw [ih, h x a (Bool.not_eq_true _ ▸ hRoom)]

theorem each_push_singleton (h : x.isFull = false) (e : Entry) : x.each push [e] = x.push e := by
  rw [each, if_neg (by simp [h]), each]

theorem gatherLeaf_eq (h : x.isFull = false) (s : Section) (key raw : Text) :
    x.gatherLeaf s key raw = x.each push (leaf s key raw) := by
  rw [gatherLeaf, leaf]
  cases representative? raw with
  | none => rfl
  | some value => exact (each_push_singleton h _).symm

theorem pushes_gatherNested (s : Section) (parent : Text) :
    Pushes (gatherNested s parent) fun entry =>
      match splitKeyValue? entry with
      | none => []
      | some (key, value) => if isGroup value then [] else leaf s (parent ++ '-' :: key) value := by
  intro x entry hRoom
  rw [gatherNested]
  simp only
  cases splitKeyValue? entry with
  | none => rfl
  | some pair =>
    simp only
    split
    · rfl
    · exact gatherLeaf_eq hRoom s _ _

theorem gatherGroup_eq (x : Extraction) (s : Section) (parent raw : Text) :
    x.gatherGroup s parent raw = x.each push (groupEntries s parent raw) := by
  rw [gatherGroup, groupEntries]
  cases bracedBlock? raw with
  | none => rfl
  | some block => exact (pushes_gatherNested s parent).each_eq x _

theorem pushes_gatherEntry (s : Section) :
    Pushes (gatherEntry s) fun entry =>
      match splitKeyValue? entry with
      | none => []
      | some (key, value) => if isGroup value then groupEntries s key value else leaf s key value := by
  intro x entry hRoom
  rw [gatherEntry]
  simp only
  cases splitKeyValue? entry with
  | none => rfl
  | some pair =>
    simp only
    split
    · exact gatherGroup_eq x s _ _
    · exact gatherLeaf_eq hRoom s _ _

theorem pushes_gatherBlock (s : Section) : Pushes (gatherBlock s) (blockEntries s) :=
  fun x block _ => (pushes_gatherEntry s).each_eq x (splitTopLevel block)

theorem pushes_gatherSection (source : Text) :
    Pushes (gatherSection source) fun s => (Section.blocks source s).flatMap (blockEntries s) :=
  fun x s _ => (pushes_gatherBlock s).each_eq x (Section.blocks source s)

/-! ## Pushing as listing -/

/-- Pushed entries give what their list begins with, as far as there is room. -/
theorem params_each_push (x : Extraction) (entries : List Entry) :
    (x.each push entries).params =
      x.params ++ (named x.file x.bases (distinct x.seen entries)).take
        (x.limit - x.params.length) := by
  induction entries generalizing x with
  | nil => simp [each, distinct, named]
  | cons e rest ih =>
    rw [each]
    split
    · rename_i hFull
      have hLimit : x.limit ≤ x.params.length := of_decide_eq_true hFull
      rw [Nat.sub_eq_zero_of_le hLimit, List.take_zero, List.append_nil]
    · rename_i hRoom
      have hLimit : x.params.length < x.limit := by simpa [isFull] using hRoom
      rw [ih, push, distinct]
      split
      · rfl
      · -- The entry takes the first place that is left.
        obtain ⟨k, hk⟩ : ∃ k, x.limit - x.params.length = k + 1 :=
          Nat.exists_eq_succ_of_ne_zero (by omega)
        have hLeft : x.limit - (x.params.length + 1) = k := by omega
        simp only [named, hk, hLeft, List.take_succ_cons, List.length_append, List.length_cons,
          List.length_nil, Nat.zero_add, List.append_assoc, List.singleton_append]

end Extraction

theorem scan_eq_take (source : Text) (file : Path) (limit : Nat) :
    scan source file limit = (named file [] (distinct [] (allEntries source))).take limit := by
  have hEach :=
    (Extraction.pushes_gatherSection source).each_eq ⟨file, limit, [], [], []⟩ Section.all
  rw [scan, hEach, Extraction.params_each_push]
  rfl

theorem scan_nil (file : Path) (limit : Nat) : scan [] file limit = [] := by
  have hNone : allEntries [] = [] := by decide +kernel
  rw [scan_eq_take, hNone]
  exact List.take_nil

/-- A limit only truncates: the parameters found up to it are the first of those found up to a
higher one, with the same names. -/
theorem scan_eq_take_of_le (source : Text) (file : Path) {limit higher : Nat} (h : limit ≤ higher) :
    scan source file limit = (scan source file higher).take limit ∧
      (scan source file limit).length ≤ limit := by
  rw [scan_eq_take, scan_eq_take]
  constructor
  · rw [List.take_take, Nat.min_eq_left h]
  · exact List.length_take_le _ _

/-- The limit falls between two entries of one slug, behind one whose key is repeated. -/
theorem scan_eq_take_of_le_colors :
    let source := "colors: \x7B a: 0, 'a': 1, 'b-c': 2, b_c: 3 \x7D".toList
    let file := Path.ofString "theme.js"
    2 ≤ defaultLimit ∧
      (scan source file defaultLimit).map (·.id) =
        ["rig.tw.colors-a".toList, "rig.tw.colors-b-c".toList, "rig.tw.colors-b-c-2".toList] ∧
      scan source file 2 = (scan source file defaultLimit).take 2 ∧
      (scan source file 2).length ≤ 2 := by
  intro source file
  exact ⟨by decide, by decide +kernel, scan_eq_take_of_le source file (by decide)⟩

/-! ## Sections one by one -/

/-- The entries of a section, of each key the first one. -/
def sectionEntries (source : Text) (s : Section) : List Entry :=
  distinct [] ((Section.blocks source s).flatMap (blockEntries s))

variable {s : Section} {e : Entry}

theorem inSection_of_mem_leaf {key raw : Text} (h : e ∈ leaf s key raw) : e.inSection = s := by
  rw [leaf] at h
  split at h
  · rw [List.mem_singleton.mp h]
  · cases h

theorem inSection_of_mem_groupEntries {parent raw : Text} (h : e ∈ groupEntries s parent raw) :
    e.inSection = s := by
  rw [groupEntries] at h
  split at h
  · cases h
  · obtain ⟨entry, -, hEntry⟩ := List.mem_flatMap.mp h
    split at hEntry
    · cases hEntry
    · split at hEntry
      · cases hEntry
      · exact inSection_of_mem_leaf hEntry

theorem inSection_of_mem_blockEntries {block : Text} (h : e ∈ blockEntries s block) :
    e.inSection = s := by
  obtain ⟨entry, -, hEntry⟩ := List.mem_flatMap.mp h
  split at hEntry
  · cases hEntry
  · split at hEntry
    · exact inSection_of_mem_groupEntries hEntry
    · exact inSection_of_mem_leaf hEntry

theorem inSection_of_mem_blocks {blocks : List Text} (h : e ∈ blocks.flatMap (blockEntries s)) :
    e.inSection = s := by
  obtain ⟨block, -, hBlock⟩ := List.mem_flatMap.mp h
  exact inSection_of_mem_blockEntries hBlock

theorem inSection_of_mem_sectionEntries {source : Text} (h : e ∈ sectionEntries source s) :
    e.inSection = s := by
  rw [sectionEntries, distinct_eq_unseen, unseen_nil_left] at h
  exact inSection_of_mem_blocks (mem_of_mem_firsts h)

/-- No key of one section is repeated in another one. -/
theorem distinct_allEntries (source : Text) :
    distinct [] (allEntries source) = Section.all.flatMap (sectionEntries source) := by
  have hAll : ∀ sections : List Section, sections.Nodup →
      firsts (fun e => (e.inSection, e.key))
          (sections.flatMap fun s => (Section.blocks source s).flatMap (blockEntries s)) =
        sections.flatMap (sectionEntries source) := by
    intro sections hNodup
    induction sections with
    | nil => rfl
    | cons s sections ih =>
      obtain ⟨hFirst, hRest⟩ := List.nodup_cons.mp hNodup
      rw [List.flatMap_cons, List.flatMap_cons, firsts_append, ih hRest, sectionEntries,
        distinct_eq_unseen, unseen_nil_left]
      intro a ha b hb hKey
      obtain ⟨t, ht, hEntries⟩ := List.mem_flatMap.mp hb
      have hSection := (Prod.mk.inj hKey).1
      rw [inSection_of_mem_blocks ha, inSection_of_mem_blocks hEntries] at hSection
      exact hFirst (hSection ▸ ht)
  rw [distinct_eq_unseen, unseen_nil_left]
  exact hAll Section.all (by decide)

theorem filter_distinct_allEntries (source : Text) (s : Section) :
    (distinct [] (allEntries source)).filter (·.inSection = s) = sectionEntries source s := by
  have hPiece (t : Section) : (sectionEntries source t).filter (·.inSection = s) =
      if t = s then sectionEntries source t else [] := by
    split
    · rename_i hSame
      exact List.filter_eq_self.mpr fun e he =>
        decide_eq_true ((inSection_of_mem_sectionEntries he).trans hSame)
    · rename_i hOther
      refine List.filter_eq_nil_iff.mpr fun e he hMem => hOther ?_
      exact (inSection_of_mem_sectionEntries he).symm.trans (of_decide_eq_true hMem)
  rw [distinct_allEntries, List.filter_flatMap]
  simp only [hPiece]
  cases s <;> simp [Section.all]

/-- Two themes have the same entries when each section of the one has those of the other. -/
theorem distinct_allEntries_inj {source source' : Text} :
    distinct [] (allEntries source) = distinct [] (allEntries source') ↔
      ∀ s, sectionEntries source s = sectionEntries source' s := by
  constructor
  · intro h s
    rw [← filter_distinct_allEntries, h, filter_distinct_allEntries]
  · intro h
    rw [distinct_allEntries, distinct_allEntries]
    exact List.flatMap_congr fun s _ => h s

end Theme

end DesignParams
