import DesignParams.CommandLine.FileTree
import DesignParams.Proofs.Path.Normal

/-!
# The moves of a path

Along the steps of a path only those that are no `.` move. Taking a path relative to a base puts
its moves behind those of the base, and taking the base off again leaves them as they were.
-/
set_option autoImplicit false

namespace DesignParams

namespace Text

theorem splitOn_append_mark (mark : Char) (s t : Text) :
    splitOn mark (s ++ mark :: t) = splitOn mark s ++ splitOn mark t := by
  induction s with
  | nil => exact if_pos rfl
  | cons c s ih =>
    rw [List.cons_append]
    by_cases hMark : c = mark
    · rw [splitOn, if_pos hMark, ih, splitOn, if_pos hMark, List.cons_append]
    · obtain ⟨part, parts, hParts, hCons⟩ := splitOn_cons_of_ne hMark s
      obtain ⟨part', parts', hParts', hCons'⟩ := splitOn_cons_of_ne hMark (s ++ mark :: t)
      rw [ih, hParts, List.cons_append, List.cons.injEq] at hParts'
      rw [hCons', hCons, ← hParts'.1, ← hParts'.2, List.cons_append]

end Text

namespace Path

/-! ## Moves -/

/-- The steps of a path that do not stay where they are. -/
def moves (p : Path) : List Component :=
  (if p.isAbsolute then [.root] else []) ++ p.segments.map .ofSegment

theorem ofSegment_ne_root (s : Text) : Component.ofSegment s ≠ .root := by
  rw [Component.ofSegment.eq_def]
  split <;> exact Component.noConfusion

theorem root_not_mem_moves {p : Path} (h : p.isAbsolute = false) : .root ∉ p.moves := by
  intro hRoot
  rw [moves, h, if_neg Bool.false_ne_true, List.nil_append] at hRoot
  obtain ⟨s, -, hs⟩ := List.mem_map.mp hRoot
  exact ofSegment_ne_root s hs

theorem ofSegment_ne_current (s : Text) : Component.ofSegment s ≠ .current := by
  rw [Component.ofSegment.eq_def]
  split <;> exact Component.noConfusion

theorem filter_steps (p : Path) : p.steps.filter (· ≠ .current) = p.moves := by
  have hFirst : (if p.isAbsolute then [Component.root] else []).filter (· ≠ .current) =
      if p.isAbsolute then [.root] else [] := by
    split <;> rfl
  rw [steps, moves, List.filter_append, hFirst, segments]
  congr 1
  induction Text.splitOn '/' p.text with
  | nil => rfl
  | cons s rest ih =>
    by_cases hEmpty : s = []
    · rw [List.filter_cons_of_neg (by simp [hEmpty]),
        List.filter_cons_of_neg (by simp [hEmpty, isCounted]), ih]
    · by_cases hDot : s = ['.']
      · rw [List.filter_cons_of_pos (by simp [hEmpty]), List.map_cons, if_pos hDot,
          List.filter_cons_of_neg (by simp), List.filter_cons_of_neg (by simp [hDot, isCounted]),
          ih]
      · rw [List.filter_cons_of_pos (by simp [hEmpty]), List.map_cons, if_neg hDot,
          List.filter_cons_of_pos (by simpa using ofSegment_ne_current s),
          List.filter_cons_of_pos (by simp [hEmpty, hDot, isCounted]), List.map_cons, ih]

theorem cancel_components (p : Path) (names : List Text) :
    cancel p.components names = cancel p.moves names := by
  rw [components, moves]
  split
  · rfl
  · split
    · rw [List.singleton_append, cancel, List.nil_append]
    · rfl

def IsSharp (p : Path) : Prop :=
  ∃ s, (Text.splitOn '/' p.text).getLast? = some s ∧ isCounted s = true

theorem IsSharp.getLast?_steps {p : Path} (h : p.IsSharp) :
    p.steps.getLast? ≠ some .current := by
  obtain ⟨s, hLast, hCounted⟩ := h
  obtain ⟨front, hParts⟩ := List.getLast?_eq_some_iff.mp hLast
  have hSegment : s ≠ [] ∧ s ≠ ['.'] := by simpa [isCounted] using hCounted
  rw [steps, hParts, List.filter_append, List.filter_cons_of_pos (by simp [hSegment.1]),
    List.filter_nil, List.map_append, List.map_singleton, if_neg hSegment.2, ← List.append_assoc,
    List.getLast?_concat]
  exact fun hSame => ofSegment_ne_current s (Option.some.inj hSame)

theorem IsSharp.hasFinalSlash {p : Path} (h : p.IsSharp) : p.hasFinalSlash = false := by
  obtain ⟨s, hLast, hCounted⟩ := h
  refine Bool.eq_false_iff.mpr fun hSlash => ?_
  obtain ⟨front, hText⟩ := List.getLast?_eq_some_iff.mp (of_decide_eq_true hSlash)
  rw [hText, Text.splitOn_append_mark, show Text.splitOn '/' [] = [[]] from rfl,
    List.getLast?_concat] at hLast
  obtain rfl := Option.some.inj hLast
  exact absurd hCounted (by decide)

/-! ## Taking a path relative to a base -/

section

variable {root p : Path}

theorem exists_text_append (hRelative : p.isAbsolute = false) (hRoot : root.text ≠ []) :
    ∃ front, (root.append p).text = front ++ '/' :: p.text ∧
      (root.append p).isAbsolute = root.isAbsolute ∧ (Path.mk front).segments = root.segments := by
  obtain ⟨c, rest, hText⟩ := List.exists_cons_of_ne_nil hRoot
  rw [append, if_neg (by simp [hRelative]), if_neg hRoot]
  split
  · rename_i hSlash
    obtain ⟨front, hFront⟩ := List.getLast?_eq_some_iff.mp hSlash
    refine ⟨front, by simp [hFront], by simp [isAbsolute, hText], ?_⟩
    rw [segments, segments, hFront, Text.splitOn_append_mark, List.filter_append]
    simp [Text.splitOn, isCounted]
  · exact ⟨root.text, rfl, by simp [isAbsolute, hText], rfl⟩

theorem segments_append (hRelative : p.isAbsolute = false) :
    (root.append p).segments = root.segments ++ p.segments := by
  by_cases hRoot : root.text = []
  · have hNone : root.segments = [] := by
      rw [segments, hRoot]
      rfl
    rw [append, if_neg (by simp [hRelative]), if_pos hRoot, hNone, List.nil_append]
  · obtain ⟨front, hText, -, hSegments⟩ := exists_text_append hRelative hRoot
    rw [← hSegments, segments, segments, segments, hText, Text.splitOn_append_mark,
      List.filter_append]

theorem moves_append (hRelative : p.isAbsolute = false) :
    (root.append p).moves = root.moves ++ p.moves := by
  have hAbsolute : (root.append p).isAbsolute = root.isAbsolute := by
    by_cases hRoot : root.text = []
    · rw [append, if_neg (by simp [hRelative]), if_pos hRoot, hRelative, isAbsolute, hRoot]
      rfl
    · obtain ⟨-, -, hAbsolute, -⟩ := exists_text_append hRelative hRoot
      exact hAbsolute
  rw [moves, moves, moves, segments_append hRelative, hAbsolute, hRelative, List.map_append,
    List.append_assoc]
  rfl

theorem IsSharp.append (h : p.IsSharp) (hRelative : p.isAbsolute = false) :
    (root.append p).IsSharp := by
  by_cases hRoot : root.text = []
  · rwa [Path.append, if_neg (by simp [hRelative]), if_pos hRoot]
  · obtain ⟨front, hText, -⟩ := exists_text_append hRelative hRoot
    obtain ⟨s, hLast, hCounted⟩ := h
    refine ⟨s, ?_, hCounted⟩
    rw [hText, Text.splitOn_append_mark, List.getLast?_append, hLast]
    rfl

end

/-! ## Taking a base off a path -/

theorem filter_dropCounted (n : Nat) (l : List Text) :
    (dropCounted n l).filter isCounted = (l.filter isCounted).drop n := by
  induction l generalizing n with
  | nil => simp [dropCounted]
  | cons s rest ih =>
    rw [dropCounted.eq_def]
    simp only
    split
    · rename_i hCounted
      rw [List.filter_cons_of_pos hCounted]
      cases n with
      | zero => rw [List.filter_cons_of_pos hCounted, List.drop_zero]
      | succ n => rw [List.drop_succ_cons, ih]
    · rename_i hSkipped
      rw [List.filter_cons_of_neg hSkipped, ih]

theorem head_dropCounted (n : Nat) (l : List Text) :
    ∀ s ∈ (dropCounted n l).head?, isCounted s = true := by
  induction l generalizing n with
  | nil => simp [dropCounted]
  | cons s rest ih =>
    rw [dropCounted.eq_def]
    simp only
    split
    · rename_i hCounted
      cases n with
      | zero => simpa using hCounted
      | succ n => exact ih n
    · exact ih n

theorem dropCounted_subset (n : Nat) (l : List Text) : dropCounted n l ⊆ l := by
  induction l generalizing n with
  | nil => simp [dropCounted]
  | cons s rest ih =>
    rw [dropCounted.eq_def]
    simp only
    split
    · cases n with
      | zero => exact List.Subset.refl _
      | succ n => exact List.subset_cons_of_subset s (ih n)
    · exact List.subset_cons_of_subset s (ih n)

theorem exists_dropTail_append (l : List Text) :
    ∃ tail, l = dropTail l ++ tail ∧ ∀ s ∈ tail, isCounted s = false := by
  refine ⟨(l.reverse.takeWhile (!isCounted ·)).reverse, ?_, fun s hs => ?_⟩
  · rw [dropTail, ← List.reverse_append, List.takeWhile_append_dropWhile, List.reverse_reverse]
  · simpa using List.mem_takeWhile_imp (List.mem_reverse.mp hs)

theorem dropTail_subset (l : List Text) : dropTail l ⊆ l := by
  obtain ⟨tail, hl, -⟩ := exists_dropTail_append l
  intro s hs
  rw [hl]
  exact List.mem_append_left tail hs

theorem filter_dropTail (l : List Text) :
    (dropTail l).filter isCounted = l.filter isCounted := by
  obtain ⟨tail, hl, hTail⟩ := exists_dropTail_append l
  have hNone : tail.filter isCounted = [] :=
    List.filter_eq_nil_iff.mpr fun s hs => by simp [hTail s hs]
  conv_rhs => rw [hl, List.filter_append, hNone, List.append_nil]

theorem getLast?_dropTail (l : List Text) :
    ∀ s ∈ (dropTail l).getLast?, isCounted s = true := by
  rw [dropTail, List.getLast?_reverse]
  intro s hs
  have hHead := List.head?_dropWhile_not (!isCounted ·) l.reverse
  rw [Option.mem_def.mp hs] at hHead
  simpa using hHead

section

variable {root p q : Path}

theorem of_join (parts : List Text) (hNonempty : parts ≠ []) (hParts : ∀ s ∈ parts, '/' ∉ s)
    (hLast : ∀ s ∈ parts.getLast?, isCounted s = true) :
    (Path.mk (Text.join ['/'] parts)).segments = parts.filter isCounted ∧
      (Path.mk (Text.join ['/'] parts)).IsSharp ∧
      ((Path.mk (Text.join ['/'] parts)).isAbsolute = true ↔ parts.head? = some []) := by
  have hSplit : Text.splitOn '/' (Text.join ['/'] parts) = parts :=
    Text.splitOn_join hNonempty hParts
  refine ⟨by rw [segments, hSplit], ?_, ?_⟩
  · have hSome := List.getLast?_eq_some_getLast hNonempty
    exact ⟨_, by rw [hSplit, hSome], hLast _ hSome⟩
  · obtain ⟨first, rest, rfl⟩ := List.exists_cons_of_ne_nil hNonempty
    cases first with
    | nil =>
      cases rest with
      | nil => exact absurd (hLast [] rfl) (by decide)
      | cons second rest => exact iff_of_true (by simp [isAbsolute, Text.join_cons_cons]) rfl
    | cons c first =>
      have hSlash : c ≠ '/' := fun h => hParts _ List.mem_cons_self (h ▸ List.mem_cons_self)
      obtain ⟨text, hText⟩ : ∃ text, Text.join ['/'] ((c :: first) :: rest) = c :: text := by
        cases rest with
        | nil => exact ⟨first, Text.join_singleton _ _⟩
        | cons second rest => exact ⟨_, Text.join_cons_cons _ _ _ _⟩
      exact iff_of_false (by simp [isAbsolute, hText, hSlash]) (by simp)

theorem moves_of_isAbsolute (h : p.isAbsolute = true) :
    p.moves = .root :: p.segments.map .ofSegment := by
  rw [moves, if_pos h]
  rfl

theorem components_of_isAbsolute (h : p.isAbsolute = true) : p.components = p.moves := by
  rw [components, moves, if_pos h, if_pos h]

theorem isAbsolute_of_prefix (hAbsolute : p.isAbsolute = true) (hBase : root.components ≠ [])
    (hPrefix : root.components <+: p.components) : root.isAbsolute = true := by
  have hRoot : root.components.head? = some .root := by
    obtain ⟨rest, hRest⟩ := hPrefix
    obtain ⟨c, more, hMore⟩ := List.exists_cons_of_ne_nil hBase
    rw [hMore, components_of_isAbsolute hAbsolute, moves_of_isAbsolute hAbsolute] at hRest
    rw [hMore, (List.cons.inj hRest).1]
    rfl
  by_contra hRelative
  rw [components, if_neg hRelative] at hRoot
  split at hRoot
  · cases hRoot
  · rw [List.nil_append, List.head?_map] at hRoot
    obtain ⟨s, -, hs⟩ := Option.map_eq_some_iff.mp hRoot
    exact ofSegment_ne_root s hs

theorem of_dropTail (hAbsolute : p.isAbsolute = true) (hNonempty : p.segments ≠ [])
    (hPath : q = ⟨Text.join ['/'] (dropTail (Text.splitOn '/' p.text))⟩) :
    q.isAbsolute = true ∧ q.moves = p.moves ∧ q.IsSharp := by
  obtain ⟨tail, hParts, hTail⟩ := exists_dropTail_append (Text.splitOn '/' p.text)
  have hFilter := filter_dropTail (Text.splitOn '/' p.text)
  obtain ⟨first, rest, hKept⟩ : ∃ first rest, dropTail (Text.splitOn '/' p.text) = first :: rest :=
    List.exists_cons_of_ne_nil fun hNil => hNonempty (by rw [segments, ← hFilter, hNil]; rfl)
  have hFirst : first = [] := by
    obtain ⟨text, hText⟩ : ∃ text, p.text = '/' :: text := by
      rw [isAbsolute, decide_eq_true_eq] at hAbsolute
      exact List.head?_eq_some_iff.mp hAbsolute
    have hSplit : Text.splitOn '/' p.text = [] :: Text.splitOn '/' text := by
      rw [hText]
      exact if_pos rfl
    rw [hKept, hSplit, List.cons_append] at hParts
    exact (List.cons.inj hParts).1.symm
  obtain ⟨hSegments, hSharp, hHead⟩ := of_join (dropTail (Text.splitOn '/' p.text))
    (by simp [hKept])
    (fun s hs => Text.mark_not_mem_of_mem_splitOn (dropTail_subset _ hs))
    (getLast?_dropTail _)
  rw [← hPath] at hSegments hSharp hHead
  have hRooted : q.isAbsolute = true := hHead.mpr (by rw [hKept, hFirst]; rfl)
  refine ⟨hRooted, ?_, hSharp⟩
  rw [moves_of_isAbsolute hRooted, moves_of_isAbsolute hAbsolute, hSegments, hFilter, segments]

theorem of_dropCounted {n : Nat} (hMore : p.segments.drop n ≠ [])
    (hPath : q = ⟨Text.join ['/'] (dropTail (dropCounted n (Text.splitOn '/' p.text)))⟩) :
    q.isAbsolute = false ∧ q.segments = p.segments.drop n ∧ q.IsSharp := by
  obtain ⟨tail, hParts, hTail⟩ :=
    exists_dropTail_append (dropCounted n (Text.splitOn '/' p.text))
  have hFilter : (dropTail (dropCounted n (Text.splitOn '/' p.text))).filter isCounted =
      p.segments.drop n := by
    rw [filter_dropTail, filter_dropCounted, segments]
  obtain ⟨first, rest, hKept⟩ :
      ∃ first rest, dropTail (dropCounted n (Text.splitOn '/' p.text)) = first :: rest :=
    List.exists_cons_of_ne_nil fun hNil => hMore (by rw [← hFilter, hNil]; rfl)
  obtain ⟨hSegments, hSharp, hHead⟩ :=
    of_join (dropTail (dropCounted n (Text.splitOn '/' p.text))) (by simp [hKept])
      (fun s hs => Text.mark_not_mem_of_mem_splitOn
        (dropCounted_subset n _ (dropTail_subset _ hs)))
      (getLast?_dropTail _)
  rw [← hPath] at hSegments hSharp hHead
  refine ⟨Bool.eq_false_iff.mpr fun hAbsolute => ?_, hSegments.trans hFilter, hSharp⟩
  have hCounted := head_dropCounted n (Text.splitOn '/' p.text)
  rw [hParts, hKept] at hCounted
  obtain rfl : first = [] := by simpa [hKept] using hHead.mp hAbsolute
  exact absurd (hCounted [] rfl) (by decide)

theorem moves_append_of_relativeTo? (hAbsolute : p.isAbsolute = true) (hNonempty : p.segments ≠ [])
    (h : p.relativeTo? root = some q) :
    p.moves = root.moves ∨ (root.append q).moves = p.moves ∧ (root.append q).IsSharp := by
  rw [relativeTo?] at h
  split at h
  · obtain ⟨hRooted, hMoves, hSharp⟩ := of_dropTail hAbsolute hNonempty (Option.some.inj h).symm
    rw [append, if_pos hRooted]
    exact .inr ⟨hMoves, hSharp⟩
  · rename_i hBase
    split at h
    · rename_i hPrefix
      have hPrefix := List.isPrefixOf_iff_prefix.mp hPrefix
      have hRoot := isAbsolute_of_prefix hAbsolute hBase hPrefix
      rw [components_of_isAbsolute hAbsolute, components_of_isAbsolute hRoot,
        moves_of_isAbsolute hAbsolute, moves_of_isAbsolute hRoot, List.cons_prefix_cons] at hPrefix
      have hSplit : p.segments.map Component.ofSegment = root.segments.map Component.ofSegment ++
          (p.segments.drop root.segments.length).map Component.ofSegment := by
        have hAll := List.prefix_iff_eq_append.mp hPrefix.2
        rw [List.length_map, ← List.map_drop] at hAll
        exact hAll.symm
      -- The path is the base itself, or something is left of it.
      by_cases hMore : p.segments.drop root.segments.length = []
      · refine .inl ?_
        rw [moves_of_isAbsolute hAbsolute, moves_of_isAbsolute hRoot, hSplit, hMore, List.map_nil,
          List.append_nil]
      · obtain ⟨hRelative, hSegments, hSharp⟩ := of_dropCounted hMore (Option.some.inj h).symm
        refine .inr ⟨?_, hSharp.append hRelative⟩
        rw [moves_append hRelative, moves_of_isAbsolute hAbsolute, moves_of_isAbsolute hRoot,
          moves, hRelative, hSegments, hSplit]
        rfl
    · cases h

theorem dropCounted_append (front back : List Text) :
    dropCounted (front.filter isCounted).length (front ++ back) = dropCounted 0 back := by
  induction front with
  | nil => rfl
  | cons s front ih =>
    rw [List.cons_append, dropCounted.eq_def]
    by_cases hCounted : isCounted s = true
    · rw [List.filter_cons_of_pos hCounted, List.length_cons]
      simp only [hCounted, if_true, ih]
    · rw [List.filter_cons_of_neg hCounted]
      simp only [hCounted, Bool.false_eq_true, if_false, ih]

theorem dropTail_of_counted {l : List Text} (h : ∀ s ∈ l, isCounted s = true) : dropTail l = l := by
  obtain ⟨tail, hl, hTail⟩ := exists_dropTail_append l
  have hNone : tail = [] := List.eq_nil_iff_forall_not_mem.mpr fun s hs => by
    have hCounted := h s (hl ▸ List.mem_append_right _ hs)
    rw [hTail s hs] at hCounted
    cases hCounted
  rw [hNone, List.append_nil] at hl
  exact hl.symm

theorem of_ofNames {names : List Text} (hNonempty : names ≠ []) (hNames : ∀ s ∈ names, IsName s) :
    (ofNames names).isAbsolute = false ∧ (ofNames names).moves = names.map .name ∧
      (ofNames names).IsSharp := by
  obtain ⟨hSegments, hSharp, -⟩ := of_join names hNonempty
    (fun s hs => (hNames s hs).slash_not_mem)
    fun s hs => (hNames s (List.mem_of_mem_getLast? hs)).counted
  have hRelative := isAbsolute_ofNames hNonempty hNames
  have hSegment : ∀ s ∈ names, Component.ofSegment s = .name s :=
    fun s hs => (hNames s hs).ofSegment_eq
  have hOwn : (ofNames names).segments = names :=
    hSegments.trans (List.filter_eq_self.mpr fun s hs => (hNames s hs).counted)
  refine ⟨hRelative, ?_, hSharp⟩
  rw [moves, hRelative, hOwn, List.map_congr_left hSegment]
  rfl

theorem exists_cancel_of_normalize? (h : p.normalize? = some q) :
    ∃ names, cancel p.moves [] = some names ∧ names ≠ [] ∧ (∀ s ∈ names, IsName s) ∧
      q = ofNames names.reverse := by
  rw [normalize?] at h
  split at h
  · cases h
  · cases h
  · rename_i names hNonempty hCancel
    exact ⟨names, cancel_components p [] ▸ hCancel, fun hNil => hNonempty hNil,
      isName_of_cancel hCancel (fun s => isName_of_mem_components) (by simp),
      (Option.some.inj h).symm⟩

/-- An absolute root is taken off a normal path as it was put before it. -/
theorem IsNormal.within_append (h : p.IsNormal) (hRoot : root.isAbsolute = true) :
    within root (root.append p) = p := by
  obtain ⟨names, hNonempty, hNames, rfl⟩ := h.exists_names
  obtain ⟨hRelative, -⟩ := of_ofNames hNonempty hNames
  have hText : root.text ≠ [] := by
    intro hNil
    rw [isAbsolute, hNil] at hRoot
    cases hRoot
  obtain ⟨front, hAppend, hAbsolute, hSegments⟩ := exists_text_append hRelative hText
  have hAll : Text.splitOn '/' (root.append (ofNames names)).text =
      Text.splitOn '/' front ++ names := by
    rw [hAppend, Text.splitOn_append_mark, ofNames,
      Text.splitOn_join hNonempty fun s hs => (hNames s hs).slash_not_mem]
  have hBase : root.components ≠ [] := by
    rw [components_of_isAbsolute hRoot, moves_of_isAbsolute hRoot]
    exact List.cons_ne_nil _ _
  have hPrefix : root.components.isPrefixOf (root.append (ofNames names)).components = true := by
    rw [components_of_isAbsolute hRoot, components_of_isAbsolute (hAbsolute.trans hRoot),
      moves_append hRelative]
    exact List.isPrefixOf_iff_prefix.mpr (List.prefix_append _ _)
  have hDrop : dropCounted 0 names = names := by
    obtain ⟨first, rest, rfl⟩ := List.exists_cons_of_ne_nil hNonempty
    rw [dropCounted.eq_def]
    simp only [(hNames first List.mem_cons_self).counted, if_true]
  rw [within, if_pos (hAbsolute.trans hRoot), relativeTo?, if_neg hBase, if_pos hPrefix,
    Option.getD_some, hAll, ← hSegments, segments, dropCounted_append, hDrop,
    dropTail_of_counted fun s hs => (hNames s hs).counted, ofNames]

end

end Path

end DesignParams
