import DesignParams.Proofs.Stylesheet.Selection
import DesignParams.Proofs.Text.Join

/-!
# A stylesheet under another path

The path of a stylesheet is part of what is hashed, and of nothing else that names a parameter. So
under two paths a stylesheet has the same parameters, and they have the same names exactly where
the hashes agree.
-/
set_option autoImplicit false

namespace DesignParams

def Parameter.names (p : Parameter) : Text × Text :=
  (p.id, p.customProperty)

def Parameter.inFile (file : Path) (p : Parameter) : Parameter :=
  { p with source := { p.source with file } }

namespace Stylesheet

section

variable {css : Text} {file other : Path}

theorem identity_eq_iff {d e : Declaration} :
    identity file d = identity file e ↔ identity other d = identity other e := by
  simp only [identity, Text.join_cons_cons _ file.text, Text.join_cons_cons _ other.text,
    List.append_right_inj]

theorem kept_eq (css : Text) (file other : Path) : kept css other = kept css file := by
  rw [kept, kept, firsts_congr fun _ _ => identity_eq_iff]

/-- Do the hashes of the declarations of a stylesheet that are kept agree under two paths? -/
def HashedAlike (css : Text) (file other : Path) : Prop :=
  ∀ d ∈ kept css file,
    Identity.shortHash (identity other d) = Identity.shortHash (identity file d)

instance : Decidable (HashedAlike css file other) :=
  inferInstanceAs (Decidable (∀ d ∈ kept css file,
    Identity.shortHash (identity other d) = Identity.shortHash (identity file d)))

/-! ## Stems -/

theorem hyphen_not_mem_shortHash (s : Text) : '-' ∉ Identity.shortHash s := by
  intro h
  exact absurd (List.all_eq_true.mp (Identity.all_base36 _) _ (List.mem_of_mem_take h)) (by decide)

/-- What stands behind a stem to make it unused does not begin within the hash. -/
theorem exists_unusedStem_eq (used : List Text) (lead : Text) {hash : Text} (hHash : '-' ∉ hash) :
    ∃ tail, unusedStem used (lead ++ '-' :: hash) = lead ++ '-' :: (hash ++ tail) ∧
      (hash ++ tail).takeWhile (· ≠ '-') = hash := by
  have hWhole : hash.takeWhile (· ≠ '-') = hash :=
    List.takeWhile_eq_self_iff.mpr fun c hc => by
      have hMark : c ≠ '-' := fun h => hHash (h ▸ hc)
      simpa using hMark
  obtain hBare | ⟨n, hNumbered⟩ := unusedStem_eq used (lead ++ '-' :: hash)
  · exact ⟨[], by rw [hBare, List.append_nil], by rw [List.append_nil, hWhole]⟩
  · refine ⟨'-' :: Text.ofNat n, ?_, ?_⟩
    · rw [hNumbered, List.append_assoc, List.cons_append]
    · rw [List.takeWhile_append, if_pos (by rw [hWhole])]
      simp

theorem unusedStem_inj {used : List Text} {lead hash hash' : Text} (hHash : '-' ∉ hash)
    (hHash' : '-' ∉ hash')
    (h : unusedStem used (lead ++ '-' :: hash) = unusedStem used (lead ++ '-' :: hash')) :
    hash = hash' := by
  obtain ⟨tail, hStem, hTail⟩ := exists_unusedStem_eq used lead hHash
  obtain ⟨tail', hStem', hTail'⟩ := exists_unusedStem_eq used lead hHash'
  rw [hStem, hStem', List.append_right_inj, List.cons_inj_right] at h
  rw [← hTail, ← hTail', h]

theorem stems_eq_iff {used : List Text} {declarations : List Declaration} :
    stems other used declarations = stems file used declarations ↔
      ∀ d ∈ declarations,
        Identity.shortHash (identity other d) = Identity.shortHash (identity file d) := by
  -- A stem shows its hash, so from the first one on the same stems are used under both paths.
  induction declarations generalizing used with
  | nil => exact iff_of_true rfl fun d hd => by cases hd
  | cons d rest ih =>
    rw [stems, stems, List.forall_mem_cons, List.cons.injEq]
    constructor
    · rintro ⟨hFirst, hRest⟩
      rw [hFirst] at hRest
      exact ⟨unusedStem_inj (hyphen_not_mem_shortHash _) (hyphen_not_mem_shortHash _) hFirst,
        ih.mp hRest⟩
    · rintro ⟨hHash, hRest⟩
      have hStem : stem other d = stem file d := by rw [stem, stem, hHash]
      rw [hStem]
      exact ⟨rfl, ih.mpr hRest⟩

/-! ## Parameters -/

theorem map_names_named (file : Path) (used : List Text) (declarations : List Declaration) :
    (named file used declarations).map Parameter.names =
      (stems file used declarations).map fun s => ("rig.".toList ++ s, "--rig-".toList ++ s) := by
  induction declarations generalizing used with
  | nil => rfl
  | cons d rest ih =>
    rw [named, stems, List.map_cons, List.map_cons, ih]
    rfl

/-- The parameters of a stylesheet have the same names under two paths if and only if the hashes
agree. -/
theorem map_names_scan_eq_iff (css : Text) (file other : Path) :
    (scan css other).map Parameter.names = (scan css file).map Parameter.names ↔
      HashedAlike css file other := by
  rw [scan, scan, selected_eq_kept, selected_eq_kept, kept_eq css file other, map_names_named,
    map_names_named, List.map_inj_right, stems_eq_iff, HashedAlike]
  intro s t h
  exact List.append_cancel_left (Prod.mk.inj h).1

theorem inFile_parameter (file other : Path) (d : Declaration) (s : Text) :
    (parameter other d s).inFile file = parameter file d s := by
  rw [parameter, parameter, Parameter.inFile]

theorem map_inFile_named {used : List Text} {declarations : List Declaration}
    (h : ∀ d ∈ declarations,
      Identity.shortHash (identity other d) = Identity.shortHash (identity file d)) :
    (named other used declarations).map (Parameter.inFile file) = named file used declarations := by
  induction declarations generalizing used with
  | nil => rfl
  | cons d rest ih =>
    obtain ⟨hHash, hRest⟩ := List.forall_mem_cons.mp h
    have hStem : stem other d = stem file d := by rw [stem, stem, hHash]
    rw [named, named, List.map_cons, inFile_parameter, hStem, ih hRest]

theorem map_inFile_scan (h : HashedAlike css file other) :
    (scan css other).map (Parameter.inFile file) = scan css file := by
  rw [scan, scan, selected_eq_kept, selected_eq_kept, kept_eq css file other]
  exact map_inFile_named h

end

end Stylesheet

end DesignParams
