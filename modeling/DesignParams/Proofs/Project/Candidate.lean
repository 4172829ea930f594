import DesignParams.Project.Scan
import DesignParams.Proofs.List.First
import DesignParams.Proofs.Path.Normal
import Mathlib.Algebra.GroupWithZero.Nat
import Mathlib.Data.List.Sort

/-!
# The ranking of stylesheets

Taking up evidence piece by piece tallies it by file: there is one candidate for each file that
evidence points at, in the order of the first pieces, and it has the weights and the reasons of all
of them. Sorting by score leaves equal scores in that order.
-/
set_option autoImplicit false

namespace DesignParams

namespace Candidate

/-! ## The tally -/

def tallied (evidence : List Evidence) (file : Path) : Candidate :=
  let own := evidence.filter (·.file = file)
  ⟨file, (own.map Evidence.weight).sum, Text.join "; ".toList (own.map Evidence.note)⟩

theorem tallied_concat_of_ne {e : Evidence} {file : Path} (h : e.file ≠ file)
    (evidence : List Evidence) : tallied (evidence ++ [e]) file = tallied evidence file := by
  have hOwn : (evidence ++ [e]).filter (·.file = file) = evidence.filter (·.file = file) := by
    simp [List.filter_append, h]
  rw [tallied, hOwn]
  rfl

theorem tallied_concat_of_mem {evidence : List Evidence} {e : Evidence}
    (h : e.file ∈ evidence.map (·.file)) :
    tallied (evidence ++ [e]) e.file =
      { tallied evidence e.file with
        score := (tallied evidence e.file).score + e.weight
        reason := (tallied evidence e.file).reason ++ "; ".toList ++ e.note } := by
  have hOwn : (evidence ++ [e]).filter (·.file = e.file) =
      evidence.filter (·.file = e.file) ++ [e] := by simp [List.filter_append]
  have hNonempty : (evidence.filter (·.file = e.file)).map Evidence.note ≠ [] := by
    obtain ⟨first, hFirst, hFile⟩ := List.mem_map.mp h
    exact List.ne_nil_of_mem (List.mem_map_of_mem (List.mem_filter.mpr ⟨hFirst, by simpa using hFile⟩))
  simp only [tallied, hOwn, List.map_append, List.map_cons, List.map_nil, List.sum_append,
    List.sum_singleton, Text.join_concat hNonempty]

theorem tallied_concat_of_not_mem {evidence : List Evidence} {e : Evidence}
    (h : e.file ∉ evidence.map (·.file)) : tallied (evidence ++ [e]) e.file = ofEvidence e := by
  have hOwn : (evidence ++ [e]).filter (·.file = e.file) = [e] := by
    have hNone : evidence.filter (·.file = e.file) = [] := by
      refine List.filter_eq_nil_iff.mpr fun d hd hFile => h ?_
      exact List.mem_map.mpr ⟨d, hd, by simpa using hFile⟩
    simp [List.filter_append, hNone]
  rw [tallied, hOwn]
  simp [ofEvidence, Text.join_singleton]

theorem enter_tallied {evidence : List Evidence} {e : Evidence} {files : List Path}
    (hNodup : files.Nodup) (hFiles : ∀ p ∈ files, p.IsNormal ∧ p ∈ evidence.map (·.file))
    (hNormal : e.file.IsNormal) (hMem : e.file ∈ evidence.map (·.file) → e.file ∈ files) :
    enter e (files.map (tallied evidence)) =
      (files ++ if e.file ∈ evidence.map (·.file) then [] else [e.file]).map
        (tallied (evidence ++ [e])) := by
  -- The induction follows the entry, which goes on until it meets the file of the evidence.
  induction files with
  | nil =>
    have hNew : e.file ∉ evidence.map (·.file) := fun h => by cases hMem h
    rw [if_neg hNew, List.nil_append, List.map_singleton, tallied_concat_of_not_mem hNew]
    rfl
  | cons p files ih =>
    obtain ⟨hp, hFiles⟩ := List.forall_mem_cons.mp hFiles
    obtain ⟨hFresh, hNodup⟩ := List.nodup_cons.mp hNodup
    rw [List.map_cons, enter, List.cons_append, List.map_cons]
    have hSame : Path.same (tallied evidence p).file e.file = true ↔ p = e.file :=
      hp.1.same_iff hNormal
    by_cases hFile : p = e.file
    · subst hFile
      have hRest : files.map (tallied (evidence ++ [e])) = files.map (tallied evidence) := by
        refine List.map_congr_left fun q hq => tallied_concat_of_ne ?_ evidence
        rintro rfl
        exact hFresh hq
      rw [if_pos (hSame.mpr rfl), if_pos hp.2, List.append_nil, hRest, tallied_concat_of_mem hp.2]
    · have hRest : e.file ∈ evidence.map (·.file) → e.file ∈ files := fun h =>
        (List.mem_cons.mp (hMem h)).resolve_left (Ne.symm hFile)
      rw [if_neg (mt hSame.mp hFile), ih hNodup hFiles hRest,
        tallied_concat_of_ne (Ne.symm hFile)]

/-- All evidence, taken up in order, is tallied by file. -/
theorem foldl_enter {evidence : List Evidence} (hNormal : ∀ e ∈ evidence, e.file.IsNormal) :
    evidence.foldl (fun candidates e => enter e candidates) [] =
      (firsts id (evidence.map (·.file))).map (tallied evidence) := by
  -- The last piece is entered last, so it is taken off the end of the evidence.
  induction evidence using List.reverseRecOn with
  | nil => rfl
  | append_singleton evidence e ih =>
    obtain ⟨hFront, hLast⟩ := List.forall_mem_append.mp hNormal
    rw [List.foldl_concat, ih hFront, List.map_append, List.map_singleton, firsts_concat,
      List.map_id]
    refine enter_tallied nodup_firsts_id (fun p hp => ?_) (hLast e List.mem_cons_self)
      mem_firsts_id_iff.mpr
    have hMem := mem_firsts_id_iff.mp hp
    obtain ⟨d, hd, rfl⟩ := List.mem_map.mp hMem
    exact ⟨hFront d hd, hMem⟩

/-! ## Which evidence counts -/

def isAccepted (project : Project) (p : Path) : Bool :=
  p.isCandidate && project.isFile p

theorem foldl_add {project : Project} {evidence : List Evidence}
    (hNormal : ∀ e ∈ evidence, e.file.IsNormal) :
    evidence.foldl (add project) [] =
      ((firsts id (evidence.map (·.file))).filter (isAccepted project)).map (tallied evidence) := by
  have hAdd : add project = fun candidates e =>
      if isAccepted project e.file then enter e candidates else candidates := rfl
  have hFiles : (evidence.filter fun e => isAccepted project e.file).map (·.file) =
      (evidence.map (·.file)).filter (isAccepted project) := by
    rw [List.filter_map]
    rfl
  have hKeep (p q : Path) (h : id p = id q) : isAccepted project p = isAccepted project q :=
    congrArg (isAccepted project) h
  rw [hAdd, ← List.foldl_filter, foldl_enter fun e he => hNormal e (List.mem_of_mem_filter he),
    hFiles, firsts_filter hKeep]
  refine List.map_congr_left fun p hp => ?_
  have hOwn : (evidence.filter fun e => isAccepted project e.file).filter (·.file = p) =
      evidence.filter (·.file = p) := by
    rw [List.filter_filter]
    refine List.filter_congr fun e _ => ?_
    by_cases hFile : e.file = p
    · simp [hFile, (List.mem_filter.mp hp).2]
    · simp [hFile]
  rw [tallied, hOwn]
  rfl

/-! ## The order -/

theorem score_trans (a b c : Candidate) (hab : decide (b.score ≤ a.score) = true)
    (hbc : decide (c.score ≤ b.score) = true) : decide (c.score ≤ a.score) = true := by
  simp only [decide_eq_true_eq] at hab hbc ⊢
  omega

theorem score_total (a b : Candidate) :
    (decide (b.score ≤ a.score) || decide (a.score ≤ b.score)) = true := by
  simp only [Bool.or_eq_true, decide_eq_true_eq]
  omega

theorem pairwise_ranked_score (candidates : List Candidate) :
    (ranked candidates).Pairwise fun a b => b.score ≤ a.score := by
  refine (List.pairwise_mergeSort score_trans score_total candidates).imp fun h => ?_
  simpa using h

theorem of_mem_ranked_map {tally : Path → Candidate} (hOwn : ∀ p, (tally p).file = p)
    {files : List Path} {c : Candidate} (h : c ∈ ranked (files.map tally)) :
    c.file ∈ files ∧ c = tally c.file := by
  have hPerm : (ranked (files.map tally)).Perm (files.map tally) := List.mergeSort_perm _ _
  obtain ⟨p, hp, rfl⟩ := List.mem_map.mp (hPerm.mem_iff.mp h)
  rw [hOwn]
  exact ⟨hp, rfl⟩

theorem perm_file_ranked {tally : Path → Candidate} (hOwn : ∀ p, (tally p).file = p)
    (files : List Path) : ((ranked (files.map tally)).map (·.file)).Perm files := by
  have hPerm : (ranked (files.map tally)).Perm (files.map tally) := List.mergeSort_perm _ _
  have hFiles : (files.map tally).map (·.file) = files := by
    rw [List.map_map]
    exact (List.map_congr_left fun p _ => hOwn p).trans (List.map_id files)
  exact (hPerm.map _).trans (.of_eq hFiles)

theorem filter_ranked (candidates : List Candidate) (n : Nat) :
    (ranked candidates).filter (·.score = n) = candidates.filter (·.score = n) := by
  have hSame : (candidates.filter (·.score = n)).Pairwise
      fun a b => decide (b.score ≤ a.score) = true := by
    refine List.pairwise_of_forall_mem_list fun a ha b hb => ?_
    have ha := (List.mem_filter.mp ha).2
    have hb := (List.mem_filter.mp hb).2
    simp only [decide_eq_true_eq] at ha hb ⊢
    omega
  have hSublist : (candidates.filter (·.score = n)).Sublist (ranked candidates) :=
    List.sublist_mergeSort score_trans score_total hSame List.filter_sublist
  have hFilter := hSublist.filter (·.score = n)
  rw [List.filter_filter] at hFilter
  simp only [Bool.and_self] at hFilter
  refine (hFilter.eq_of_length ?_).symm
  exact ((List.mergeSort_perm candidates _).filter _).symm.length_eq

theorem pairwise_ranked {R : Candidate → Candidate → Prop} {candidates : List Candidate}
    (h : candidates.Pairwise R) :
    (ranked candidates).Pairwise fun a b => b.score < a.score ∨ a.score = b.score ∧ R a b := by
  refine List.pairwise_iff_forall_sublist.mpr fun {a b} hPair => ?_
  have hScore := List.pairwise_iff_forall_sublist.mp (pairwise_ranked_score candidates) hPair
  rcases Nat.lt_or_eq_of_le hScore with hLess | hSame
  · exact .inl hLess
  · have hFilter := hPair.filter (·.score = a.score)
    rw [filter_ranked, List.filter_cons_of_pos (by simp), List.filter_cons_of_pos (by simp [hSame]),
      List.filter_nil] at hFilter
    exact .inr ⟨hSame.symm,
      List.pairwise_iff_forall_sublist.mp h (hFilter.trans List.filter_sublist)⟩

end Candidate

namespace Project

/-! ## Evidence points at normal paths -/

variable {project : Project}

theorem isNormal_of_mem_referenceEvidence {file : Path} {signal : Signal} {lead : String}
    {targets : List Text} {e : Evidence} (h : e ∈ referenceEvidence file signal lead targets) :
    e.file.IsNormal := by
  obtain ⟨target, hTarget, rfl⟩ := List.mem_map.mp h
  obtain ⟨t, -, hResolve⟩ := List.mem_filterMap.mp hTarget
  rw [Reference.resolve?.eq_def] at hResolve
  split at hResolve
  · cases hResolve
  · split at hResolve
    · exact Path.isNormal_of_normalize? hResolve
    · split at hResolve
      · exact Path.isNormal_of_normalize? hResolve
      · exact Path.isNormal_of_normalize? hResolve

theorem isNormal_of_mem_entryEvidence {file : Path} {e : Evidence}
    (h : e ∈ entryEvidence project file) : e.file.IsNormal := by
  rw [entryEvidence] at h
  split at h
  · split at h
    · cases h
    · rcases List.mem_append.mp h with h | h
      · exact isNormal_of_mem_referenceEvidence h
      · split at h
        · exact isNormal_of_mem_referenceEvidence h
        · cases h
  · cases h

theorem isNormal_of_mem_sourceEvidence {signal : Signal} {lead : String}
    {targets : Text → List Text} {file : Path} {e : Evidence}
    (h : e ∈ sourceEvidence project signal lead targets file) : e.file.IsNormal := by
  rw [sourceEvidence] at h
  split at h
  · cases h
  · exact isNormal_of_mem_referenceEvidence h

theorem isNormal_of_mem_evidence {kind : ProjectKind} {samples : Samples} {e : Evidence}
    (hSheets : ∀ p ∈ project.stylesheets, p.IsNormal) (h : e ∈ project.evidence kind samples) :
    e.file.IsNormal := by
  have hPreferred : ∀ p ∈ preferredFiles, p.IsNormal := by decide
  have hDefault : ∀ p ∈ defaultFiles kind, p.IsNormal := by cases kind <;> decide
  simp only [evidence, List.mem_append, List.mem_map, List.mem_flatMap] at h
  obtain (((((⟨p, hp, rfl⟩ | ⟨p, -, he⟩) | ⟨p, -, he⟩) | ⟨p, hp, rfl⟩) | ⟨p, -, he⟩) | ⟨p, hp, rfl⟩) |
    ⟨p, hp, rfl⟩ := h
  · exact hPreferred p hp
  · exact isNormal_of_mem_entryEvidence he
  · exact isNormal_of_mem_sourceEvidence he
  · exact hSheets p (List.mem_of_mem_filter hp)
  · exact isNormal_of_mem_sourceEvidence he
  · exact hSheets p hp
  · exact hDefault p hp

end Project

end DesignParams
