import DesignParams.Proofs.List.First
import DesignParams.Proofs.Stylesheet.Name
import Mathlib.Data.List.Infix

/-!
# Which declarations become parameters

Of the declarations that set an allowed property to a literal, each identity gives one parameter,
up to the limit. The parameters stand in the order of their declarations, and each is named for
what is hashed, by a number where that name is taken.
-/
set_option autoImplicit false

namespace DesignParams

namespace Stylesheet

/-- Is an allowed property set to a value that does not begin with a reference? -/
def Qualifies (d : Declaration) : Prop :=
  d.property ∈ Property.allowed ∧
    ∀ lead, lead <+: d.value → Text.asciiLowered lead ≠ "var(".toList

theorem isReference_eq_true_iff (value : Text) :
    Property.isReference value = true ↔
      ∃ lead, lead <+: value ∧ Text.asciiLowered lead = "var(".toList := by
  have hLower : Text.asciiLowered "var(".toList = "var(".toList := by decide
  rw [Property.isReference, Text.eqIgnoringCase, hLower, beq_iff_eq]
  constructor
  · intro h
    exact ⟨value.take 4, List.take_prefix 4 value, h⟩
  · rintro ⟨lead, hPrefix, hLead⟩
    have hLength : lead.length = 4 := by simpa [Text.asciiLowered] using congrArg List.length hLead
    rw [← hLength, ← List.prefix_iff_eq_take.mp hPrefix, hLead]

theorem isCandidate_eq_true_iff (d : Declaration) : isCandidate d = true ↔ Qualifies d := by
  rw [isCandidate, Bool.and_eq_true, Bool.not_eq_true', Property.isAllowed, List.contains_iff_mem,
    ← Bool.not_eq_true, isReference_eq_true_iff]
  simp only [Qualifies, not_exists, not_and]

instance : DecidablePred Qualifies := fun d =>
  decidable_of_iff _ (isCandidate_eq_true_iff d)

/-- The declarations that count, of each identity the first one, up to the limit. -/
def kept (css : Text) (file : Path) : List Declaration :=
  (firsts (identity file)
    (((Declaration.structural? css).getD (Declaration.pairs css)).filter (Qualifies ·))).take 120

theorem distinct_eq_unseen (file : Path) (seen : List Text) (l : List Declaration) :
    distinct file seen l = unseen (identity file) seen l :=
  eq_unseen (fun _ => rfl) (fun _ _ _ => rfl) seen l

theorem selected_eq_kept (css : Text) (file : Path) : selected css file = kept css file := by
  have hFilter (l : List Declaration) : l.filter isCandidate = l.filter (Qualifies ·) := by
    refine List.filter_congr fun d _ => ?_
    rw [Bool.eq_iff_iff, isCandidate_eq_true_iff, decide_eq_true_iff]
  rw [selected, distinct_eq_unseen, unseen_nil_left, hFilter]
  rfl

/-! ## What a parameter holds -/

/-- Does a parameter hold what a declaration of a file says, and where it says it? -/
structure Represents (file : Path) (d : Declaration) (p : Parameter) : Prop where
  file : p.source.file = file
  property : p.source.property = d.property
  value : p.source.value = d.value
  start : p.source.start = d.start
  stop : p.source.stop = d.stop
  line : p.source.line = some d.position.line
  column : p.source.column = some d.position.column
  selector : p.source.selector = if d.selector = [] then none else some d.selector

theorem represents_parameter (file : Path) (d : Declaration) (s : Text) :
    Represents file d (parameter file d s) where
  file := rfl
  property := rfl
  value := rfl
  start := rfl
  stop := rfl
  line := rfl
  column := rfl
  selector := by simp only [parameter, List.isEmpty_iff]

theorem represents_named (file : Path) (used : List Text) (declarations : List Declaration) :
    List.Forall₂ (Represents file) declarations (named file used declarations) := by
  induction declarations generalizing used with
  | nil => exact .nil
  | cons d rest ih =>
    rw [named]
    constructor
    · apply represents_parameter
    · apply ih

/-! ## What a parameter is called -/

/-- Is a name free for a base: the base itself, or where it is taken the base with the least number
from 2 on that is not? -/
inductive IsFree (taken : Text → Prop) (base : Text) : Text → Prop
  | bare (free : ¬ taken base) : IsFree taken base base
  | numbered (n : Nat) (occupied : taken base) (two_le : 2 ≤ n)
      (free : ¬ taken (base ++ '-' :: Text.ofNat n))
      (least : ∀ m, 2 ≤ m → m < n → taken (base ++ '-' :: Text.ofNat m)) :
      IsFree taken base (base ++ '-' :: Text.ofNat n)

theorem IsFree.congr {taken taken' : Text → Prop} {base s : Text}
    (hSame : ∀ name, taken name ↔ taken' name) (h : IsFree taken base s) :
    IsFree taken' base s := by
  obtain rfl : taken = taken' := funext fun name => propext (hSame name)
  exact h

theorem IsFree.eq_base {taken : Text → Prop} {base s : Text} (h : IsFree taken base s)
    (hFree : ¬ taken base) : s = base := by
  cases h with
  | bare => rfl
  | numbered _ hTaken => exact absurd hTaken hFree

theorem isFree_unusedStem (used : List Text) (base : Text) :
    IsFree (· ∈ used) base (unusedStem used base) := by
  have hUnused := unusedStem_not_mem used base
  rw [unusedStem] at hUnused ⊢
  split at hUnused
  · rename_i hUsed
    have hTaken : base ∈ used := by simpa using hUsed
    rw [if_pos hUsed]
    simp only [List.find?_map] at hUnused ⊢
    -- With no number free the stem would be the base, which is taken.
    cases hFind : (List.range (used.length + 1)).find?
        ((!used.contains ·) ∘ fun n => base ++ '-' :: Text.ofNat (n + 2)) with
    | none =>
      rw [hFind] at hUnused
      exact absurd hTaken hUnused
    | some n =>
      obtain ⟨hFree, -, hLeast⟩ := List.find?_range_eq_some.mp hFind
      refine .numbered (n + 2) hTaken (Nat.le_add_left 2 n) (by simpa using hFree) ?_
      intro m hTwo hm
      obtain ⟨i, rfl⟩ := Nat.exists_eq_add_of_le' hTwo
      have hi : i < n := by omega
      simpa using hLeast i hi
  · rename_i hUsed
    rw [if_neg hUsed]
    exact .bare (by simpa using hUsed)

def Taken (params : List Parameter) (s : Text) : Prop :=
  ∃ p ∈ params, p.id = "rig.".toList ++ s

theorem named_getElem? (file : Path) (used : List Text) {declarations : List Declaration} {k : Nat}
    {d : Declaration} (h : declarations[k]? = some d) :
    ∃ s, (named file used declarations)[k]? = some (parameter file d s) ∧
      IsFree (fun name => Taken ((named file used declarations).take k) name ∨ name ∈ used)
        (stem file d) s := by
  induction declarations generalizing used k with
  | nil => cases h
  | cons e rest ih =>
    rw [named]
    cases k with
    | zero =>
      obtain rfl : e = d := by simpa using h
      refine ⟨_, rfl, (isFree_unusedStem used (stem file e)).congr fun name => ?_⟩
      simp [Taken]
    | succ k =>
      have hRest : rest[k]? = some d := by simpa using h
      obtain ⟨s, hParam, hFree⟩ := ih (unusedStem used (stem file e) :: used) hRest
      refine ⟨s, by simpa using hParam, hFree.congr fun name => ?_⟩
      have hHead : (parameter file e (unusedStem used (stem file e))).id = "rig.".toList ++ name ↔
          name = unusedStem used (stem file e) := by
        rw [parameter, List.append_right_inj, eq_comm]
      simp only [Taken, List.take_succ_cons, List.mem_cons, exists_eq_or_imp, hHead]
      rw [or_left_comm, or_assoc]

theorem exists_name {css : Text} {file : Path} {k : Nat} {d : Declaration} {p : Parameter}
    (hKept : (kept css file)[k]? = some d) (hParam : (scan css file)[k]? = some p) :
    ∃ s, IsFree (Taken ((scan css file).take k)) (stem file d) s ∧
      p.id = "rig.".toList ++ s ∧ p.customProperty = "--rig-".toList ++ s := by
  rw [scan, selected_eq_kept] at hParam ⊢
  obtain ⟨s, hAt, hFree⟩ := named_getElem? file [] hKept
  obtain rfl : p = parameter file d s := Option.some.inj (hParam.symm.trans hAt)
  exact ⟨s, hFree.congr fun name => by simp, rfl, rfl⟩

/-- The parameters of a stylesheet are those of the declarations kept, in order and at their places.
Each is called by the stem of its declaration, or by the least number behind it where an earlier
parameter has that stem already; no two are called the same. So a parameter whose stem no earlier
one has is called alike in every stylesheet of that name, for all that its selector, property and
value are the same. -/
theorem represents_scan (css : Text) (file : Path) :
    List.Forall₂ (Represents file) (kept css file) (scan css file) ∧
      (∀ (k : Nat) (d : Declaration) (p : Parameter), (kept css file)[k]? = some d →
        (scan css file)[k]? = some p →
          ∃ s, IsFree (Taken ((scan css file).take k)) (stem file d) s ∧
            p.id = "rig.".toList ++ s ∧ p.customProperty = "--rig-".toList ++ s) ∧
      ((scan css file).map (·.id)).Nodup ∧
      ((scan css file).map (·.customProperty)).Nodup ∧
      ∀ (css' : Text) (k k' : Nat) (d d' : Declaration) (p p' : Parameter),
        (kept css file)[k]? = some d → (scan css file)[k]? = some p →
        (kept css' file)[k']? = some d' → (scan css' file)[k']? = some p' →
        ¬ Taken ((scan css file).take k) (stem file d) →
        ¬ Taken ((scan css' file).take k') (stem file d') →
        d.selector = d'.selector → d.property = d'.property → d.value = d'.value →
          p.id = p'.id ∧ p.customProperty = p'.customProperty := by
  refine ⟨?_, fun k d p => exists_name, nodup_id_scan css file, nodup_customProperty_scan css file,
    ?_⟩
  · rw [scan, selected_eq_kept]
    apply represents_named
  intro css' k k' d d' p p' hKept hParam hKept' hParam' hFree hFree' hSelector hProperty hValue
  obtain ⟨s, hName, hId, hCustom⟩ := exists_name hKept hParam
  obtain ⟨s', hName', hId', hCustom'⟩ := exists_name hKept' hParam'
  have hStem : stem file d = stem file d' := by
    rw [stem, stem, identity, identity, hSelector, hProperty, hValue]
  obtain rfl := hName.eq_base hFree
  obtain rfl := hName'.eq_base hFree'
  rw [hId, hId', hCustom, hCustom', hStem]
  exact ⟨rfl, rfl⟩

end Stylesheet

end DesignParams
