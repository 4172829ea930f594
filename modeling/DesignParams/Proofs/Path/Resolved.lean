import DesignParams.Project.Reference
import DesignParams.Proofs.Path.Moves

/-!
# Resolved paths

A path has a normal form if its `..` never take it above its start and do not bring it back there.
The names that are left are those that no `..` takes back, and a path can be resolved piece by piece.
So a reference is resolved to a file below the project, or not at all.
-/
set_option autoImplicit false

namespace DesignParams

namespace Path

/-! ## Heights -/

def Component.isName : Component → Bool
  | .name _ => true
  | _ => false

/-- How far some components lead down: their names less their `..`. -/
def height (l : List Component) : Int :=
  (l.countP Component.isName : Int) - (l.count .parent : Int)

theorem height_nil : height [] = 0 := rfl

@[simp] theorem height_name (s : Text) (l : List Component) :
    height (.name s :: l) = height l + 1 := by
  rw [height, height, List.countP_cons_of_pos rfl, List.count_cons_of_ne Component.noConfusion]
  omega

@[simp] theorem height_parent (l : List Component) : height (.parent :: l) = height l - 1 := by
  rw [height, height, List.countP_cons_of_neg Bool.false_ne_true, List.count_cons_self]
  omega

@[simp] theorem height_root (l : List Component) : height (.root :: l) = height l := by
  rw [height, height, List.countP_cons_of_neg Bool.false_ne_true,
    List.count_cons_of_ne Component.noConfusion]

@[simp] theorem height_current (l : List Component) : height (.current :: l) = height l := by
  rw [height, height, List.countP_cons_of_neg Bool.false_ne_true,
    List.count_cons_of_ne Component.noConfusion]

theorem length_cancel {l : List Component} {before names : List Text}
    (h : cancel l before = some names) : (names.length : Int) = before.length + height l := by
  fun_induction cancel l before with
  | case1 before =>
    obtain rfl := Option.some.inj h
    rw [height_nil, Int.add_zero]
  | case2 before rest ih => rw [height_root, ih h]
  | case3 before rest ih => rw [height_current, ih h]
  | case4 => cases h
  | case5 rest last before ih =>
    rw [height_parent, ih h, List.length_cons]
    omega
  | case6 before s rest ih =>
    rw [height_name, ih h, List.length_cons]
    omega

theorem exists_cancel_iff (l : List Component) (before : List Text) :
    (∃ names, cancel l before = some names) ↔
      ∀ front, front <+: l → 0 ≤ (before.length : Int) + height front := by
  have hStep {c : Component} {rest : List Component} {n : Nat} :
      (∀ front, front <+: c :: rest → 0 ≤ (n : Int) + height front) ↔
        ∀ front, front <+: rest → 0 ≤ (n : Int) + height (c :: front) := by
    constructor
    · exact fun h front hFront => h _ (List.cons_prefix_cons.mpr ⟨rfl, hFront⟩)
    · intro h front hFront
      rcases List.prefix_cons_iff.mp hFront with rfl | ⟨behind, rfl, hBehind⟩
      · rw [height_nil]
        omega
      · exact h behind hBehind
  fun_induction cancel l before with
  | case1 before =>
    refine iff_of_true ⟨_, rfl⟩ fun front hFront => ?_
    rw [List.prefix_nil.mp hFront, height_nil]
    omega
  | case2 before rest ih => simpa [hStep] using ih
  | case3 before rest ih => simpa [hStep] using ih
  | case4 rest =>
    refine iff_of_false (by simp) fun h => ?_
    have hHere := hStep.mp h [] List.nil_prefix
    rw [height_parent, height_nil] at hHere
    exact absurd hHere (by decide)
  | case5 rest last before ih =>
    refine ih.trans (Iff.trans ?_ hStep.symm)
    refine forall₂_congr fun front _ => ?_
    rw [height_parent, List.length_cons]
    omega
  | case6 before s rest ih =>
    refine ih.trans (Iff.trans ?_ hStep.symm)
    refine forall₂_congr fun front _ => ?_
    rw [height_name, List.length_cons]
    omega

/-! ## The names that are left -/

/-- Components that come back to where they start: each `..` takes back the nearest name before it
that is not taken back already. -/
inductive IsLoop : List Component → Prop
  | nil : IsLoop []
  | root {l : List Component} (h : IsLoop l) : IsLoop (.root :: l)
  | current {l : List Component} (h : IsLoop l) : IsLoop (.current :: l)
  | back (s : Text) {inner l : List Component} (hInner : IsLoop inner) (h : IsLoop l) :
      IsLoop (.name s :: (inner ++ .parent :: l))

/-- The names of some components that no `..` takes back, in order. -/
inductive Leaves : List Component → List Text → Prop
  | loop {l : List Component} (h : IsLoop l) : Leaves l []
  | name {loop l : List Component} {names : List Text} (hLoop : IsLoop loop) (s : Text)
      (h : Leaves l names) : Leaves (loop ++ .name s :: l) (s :: names)

section Leaves

variable {l l' : List Component} {names names' : List Text}

theorem IsLoop.append (h : IsLoop l) (h' : IsLoop l') : IsLoop (l ++ l') := by
  induction h with
  | nil => exact h'
  | root _ ih => exact .root ih
  | current _ ih => exact .current ih
  | back s hInner _ _ ih =>
    rw [List.cons_append, List.append_assoc, List.cons_append]
    exact .back s hInner ih

theorem Leaves.prepend (hLoop : IsLoop l) (h : Leaves l' names) : Leaves (l ++ l') names := by
  cases h with
  | loop h => exact .loop (hLoop.append h)
  | name hFirst s h =>
    rw [← List.append_assoc]
    exact .name (hLoop.append hFirst) s h

theorem Leaves.append (h : Leaves l names) (h' : Leaves l' names') :
    Leaves (l ++ l') (names ++ names') := by
  induction h with
  | loop hLoop => exact h'.prepend hLoop
  | name hLoop s _ ih =>
    rw [List.append_assoc, List.cons_append]
    exact .name hLoop s ih

theorem Leaves.exists_last {s : Text} (h : Leaves l (names ++ [s])) :
    ∃ front loop, l = front ++ .name s :: loop ∧ Leaves front names ∧ IsLoop loop := by
  induction names generalizing l with
  | nil =>
    cases h with
    | name hLoop _ h =>
      cases h with
      | loop hBehind => exact ⟨_, _, rfl, .loop hLoop, hBehind⟩
  | cons t names ih =>
    cases h with
    | name hLoop _ h =>
      obtain ⟨front, loop, rfl, hFront, hBehind⟩ := ih h
      exact ⟨_, loop, by rw [List.append_assoc, List.cons_append], .name hLoop t hFront, hBehind⟩

theorem Leaves.mem {s : Text} (h : Leaves l names) (hs : s ∈ names) : .name s ∈ l := by
  induction h with
  | loop => cases hs
  | name hLoop t _ ih =>
    rcases List.mem_cons.mp hs with rfl | hs
    · exact List.mem_append_right _ List.mem_cons_self
    · exact List.mem_append_right _ (List.mem_cons_of_mem _ (ih hs))

theorem cancel_append (l l' : List Component) (before : List Text) :
    cancel (l ++ l') before = (cancel l before).bind (cancel l') := by
  fun_induction cancel l before with
  | case1 => rfl
  | case2 before rest ih | case3 before rest ih => exact ih
  | case4 => rfl
  | case5 rest last before ih | case6 before s rest ih => exact ih

theorem IsLoop.cancel (h : IsLoop l) (before : List Text) : cancel l before = some before := by
  induction h generalizing before with
  | nil => rfl
  | root _ ih | current _ ih => exact ih before
  | back s _ _ ihInner ih =>
    rw [Path.cancel, cancel_append, ihInner]
    exact ih before

theorem Leaves.cancel (h : Leaves l names) (before : List Text) :
    cancel l before = some (names.reverse ++ before) := by
  induction h generalizing before with
  | loop hLoop => exact hLoop.cancel before
  | name hLoop s _ ih =>
    rw [cancel_append, hLoop.cancel, Option.bind_some, Path.cancel, ih, List.reverse_cons,
      List.append_assoc]
    rfl

/-- Cancelling leaves exactly the names that no `..` takes back. -/
theorem cancel_eq_some_iff : cancel l [] = some names ↔ Leaves l names.reverse := by
  constructor
  · intro h
    -- On the last component, since it is the last name that a `..` takes back.
    induction l using List.reverseRecOn generalizing names with
    | nil =>
      obtain rfl := Option.some.inj h
      exact .loop .nil
    | append_singleton l c ih =>
      obtain ⟨before, hBefore, hLast⟩ := Option.bind_eq_some_iff.mp (cancel_append l [c] [] ▸ h)
      have hLeaves := ih hBefore
      cases c with
      | root =>
        obtain rfl := Option.some.inj hLast
        simpa using hLeaves.append (.loop (.root .nil))
      | current =>
        obtain rfl := Option.some.inj hLast
        simpa using hLeaves.append (.loop (.current .nil))
      | parent =>
        cases before with
        | nil => cases hLast
        | cons s before =>
          obtain rfl := Option.some.inj hLast
          rw [List.reverse_cons] at hLeaves
          obtain ⟨front, loop, rfl, hFront, hLoop⟩ := hLeaves.exists_last
          have hBack : IsLoop (.name s :: (loop ++ [.parent])) := .back s hLoop .nil
          simpa using hFront.append (.loop hBack)
      | name s =>
        obtain rfl := Option.some.inj hLast
        rw [List.reverse_cons]
        exact hLeaves.append (.name .nil s (.loop .nil))
  · intro h
    rw [h.cancel, List.reverse_reverse, List.append_nil]

end Leaves

/-! ## Normal forms -/

section

variable {p q a a' b : Path}

theorem normalize?_eq_some_iff :
    p.normalize? = some q ↔ ∃ names, names ≠ [] ∧ Leaves p.components names ∧ q = ofNames names := by
  constructor
  · intro h
    obtain ⟨names, hCancel, hNonempty, -, rfl⟩ := exists_cancel_of_normalize? h
    rw [← cancel_components] at hCancel
    exact ⟨names.reverse, by simpa using hNonempty, cancel_eq_some_iff.mp hCancel, rfl⟩
  · rintro ⟨names, hNonempty, hLeaves, rfl⟩
    rw [normalize?, cancel_eq_some_iff.mpr (by rwa [List.reverse_reverse])]
    split
    · rename_i h
      cases h
    · rename_i h
      exact absurd (List.reverse_eq_nil_iff.mp (Option.some.inj h)) hNonempty
    · rename_i h
      rw [← Option.some.inj h, List.reverse_reverse]

theorem exists_normalize?_iff :
    (∃ q, p.normalize? = some q) ↔
      (∀ front, front <+: p.components → 0 ≤ height front) ∧ 0 < height p.components := by
  have hHeights := exists_cancel_iff p.components []
  simp only [List.length_nil, Int.natCast_zero, Int.zero_add] at hHeights
  rw [← hHeights]
  constructor
  · rintro ⟨q, h⟩
    obtain ⟨names, hCancel, hNonempty, -⟩ := exists_cancel_of_normalize? h
    rw [← cancel_components] at hCancel
    have hLength := length_cancel hCancel
    have hPositive := List.length_pos_iff.mpr hNonempty
    refine ⟨⟨names, hCancel⟩, ?_⟩
    simp at hLength
    omega
  · rintro ⟨⟨names, hCancel⟩, hHeight⟩
    have hLength := length_cancel hCancel
    have hNonempty : names ≠ [] := by
      rintro rfl
      simp at hLength
      omega
    exact ⟨_, normalize?_eq_some_iff.mpr
      ⟨names.reverse, by simpa using hNonempty, cancel_eq_some_iff.mp hCancel, rfl⟩⟩

theorem normalize?_eq_of_cancel {p p' : Path} (h : cancel p.moves [] = cancel p'.moves []) :
    p.normalize? = p'.normalize? := by
  rw [normalize?, normalize?, cancel_components, cancel_components, h]

/-- Behind a path that has a normal form, every relative path is resolved as behind the normal
form. -/
theorem normalize?_append (h : a.normalize? = some a') (hRelative : b.isAbsolute = false) :
    (a.append b).normalize? = (a'.append b).normalize? := by
  obtain ⟨names, hCancel, hNonempty, hNames, rfl⟩ := exists_cancel_of_normalize? h
  obtain ⟨-, hMoves, -⟩ := of_ofNames (mt List.reverse_eq_nil_iff.mp hNonempty)
    fun s hs => hNames s (List.mem_reverse.mp hs)
  refine normalize?_eq_of_cancel ?_
  rw [moves_append hRelative, moves_append hRelative, cancel_append, cancel_append, hCancel, hMoves,
    cancel_names, List.reverse_reverse, List.append_nil]

end

/-- Is a path a way down from wherever it is taken? -/
structure IsBelow (q : Path) : Prop where
  relative : q.isAbsolute = false
  descends : ∃ names, names ≠ [] ∧ (∀ s ∈ names, IsName s) ∧
    ∀ root : Path, (root.append q).moves = root.moves ++ names.map .name

theorem IsNormal.isBelow {q : Path} (h : IsNormal q) : IsBelow q := by
  obtain ⟨names, hNonempty, hNames, rfl⟩ := h.exists_names
  obtain ⟨hRelative, hMoves, -⟩ := of_ofNames hNonempty hNames
  exact ⟨hRelative, names, hNonempty, hNames, fun root => by rw [moves_append hRelative, hMoves]⟩

end Path

namespace Reference

theorem withoutQuery_append (target : Text) {mark : Char} (h : mark = '?' ∨ mark = '#')
    (tail : Text) : withoutQuery (target ++ mark :: tail) = withoutQuery target := by
  have hMark : (mark :: tail).takeWhile (fun c => c ≠ '?' && c ≠ '#') = [] :=
    List.takeWhile_cons_of_neg (by rcases h with rfl | rfl <;> decide)
  rw [withoutQuery, withoutQuery, List.takeWhile_append]
  split
  · rename_i hAll
    rw [hMark, List.append_nil, (List.takeWhile_prefix _).eq_of_length hAll]
  · rfl

theorem isNormal_resolve? {directory q : Path} {target : Text}
    (h : resolve? directory target = some q) : q.IsNormal := by
  rw [resolve?] at h
  split at h
  · cases h
  · split at h
    · exact Path.isNormal_of_normalize? h
    · split at h
      · exact Path.isNormal_of_normalize? h
      · exact Path.isNormal_of_normalize? h

theorem resolve?_congr {target target' : Text} (h : withoutQuery target = withoutQuery target')
    (directory : Path) : resolve? directory target = resolve? directory target' := by
  rw [resolve?, resolve?, h]

/-- Paths are resolved by cancelling each `..` with the nearest name before it, exactly if none
leads above the start and something is left, and piece by piece. What a reference is resolved to
lies below the project, whatever its query. -/
theorem isBelow_resolve? (p a b directory : Path) (target tail : Text) :
    ((∃ q, p.normalize? = some q) ↔
      (∀ front, front <+: p.components → 0 ≤ Path.height front) ∧ 0 < Path.height p.components) ∧
    (∀ q, p.normalize? = some q ↔
      ∃ names, names ≠ [] ∧ Path.Leaves p.components names ∧ q = .ofNames names) ∧
    (∀ q, p.normalize? = some q → q.normalize? = some q ∧
      ∃ names, Path.Leaves p.components names ∧ q.components = names.map .name) ∧
    (∀ a', a.normalize? = some a' → b.isAbsolute = false →
      (a.append b).normalize? = (a'.append b).normalize?) ∧
    (∀ q, resolve? directory target = some q → q.IsBelow) ∧
    ∀ mark, mark = '?' ∨ mark = '#' →
      resolve? directory (target ++ mark :: tail) = resolve? directory target := by
  refine ⟨Path.exists_normalize?_iff, fun q => Path.normalize?_eq_some_iff,
    fun q h => ⟨Path.isNormal_of_normalize? h, ?_⟩, fun a' => Path.normalize?_append,
    fun q h => (isNormal_resolve? h).isBelow,
    fun mark hMark => resolve?_congr (withoutQuery_append target hMark tail) directory⟩
  obtain ⟨names, hNonempty, hLeaves, rfl⟩ := Path.normalize?_eq_some_iff.mp h
  exact ⟨names, hLeaves, Path.components_ofNames hNonempty fun s hs =>
    Path.isName_of_mem_components (hLeaves.mem hs)⟩

/-- A base that goes down and up again, and a reference with a query. -/
theorem isBelow_resolve?_index :
    let a := Path.ofString "./src//x/.."
    let b := Path.ofString "../theme.css"
    (a.normalize? = some (.ofString "src") ∧ b.isAbsolute = false ∧
      (a.append b).normalize? = ((Path.ofString "src").append b).normalize?) ∧
    (resolve? a "./index.css".toList = some (.ofString "src/index.css") ∧
      (Path.ofString "src/index.css").IsBelow) ∧
    resolve? a "./index.css?v=3".toList = resolve? a "./index.css".toList := by
  intro a b
  obtain ⟨-, -, -, hAppend, hBelow, hQuery⟩ :=
    isBelow_resolve? a a b a "./index.css".toList "v=3".toList
  have hBase : a.normalize? = some (.ofString "src") := by decide
  have hFound : resolve? a "./index.css".toList = some (.ofString "src/index.css") := by decide
  exact ⟨⟨hBase, by decide, hAppend _ hBase (by decide)⟩, ⟨hFound, hBelow _ hFound⟩,
    hQuery '?' (.inl rfl)⟩

end Reference

end DesignParams
