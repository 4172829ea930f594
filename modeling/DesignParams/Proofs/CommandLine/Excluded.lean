import DesignParams.Proofs.CommandLine.Apply
import DesignParams.Proofs.Project.Ranking

/-!
# Excluded directories

The files that a project lists lie in no excluded directory. A candidate need not be listed: it can
be named by its customary place, or by a reference in another file, and then nothing but its name
and its being a file is looked at.
-/
set_option autoImplicit false

namespace DesignParams

namespace Path

instance : DecidablePred IsName := fun s =>
  decidable_of_iff (isCounted s = true ∧ s ≠ ['.', '.'] ∧ '/' ∉ s)
    ⟨fun ⟨hCounted, hParent, hSlash⟩ => ⟨hCounted, hParent, hSlash⟩,
      fun h => ⟨h.counted, h.ne_parent, h.slash_not_mem⟩⟩

/-- Does a path lead through a directory with one of these names? -/
def LiesBelow (names : List Text) (p : Path) : Prop :=
  ∃ s ∈ names, .name s ∈ p.components.dropLast

instance (names : List Text) (p : Path) : Decidable (p.LiesBelow names) :=
  inferInstanceAs (Decidable (∃ s ∈ names, .name s ∈ p.components.dropLast))

theorem liesBelow_ofNames_iff {exclude names : List Text} (hNonempty : names ≠ [])
    (hNames : ∀ s ∈ names, IsName s) :
    (ofNames names).LiesBelow exclude ↔ ∃ s ∈ names.dropLast, s ∈ exclude := by
  rw [LiesBelow, components_ofNames hNonempty hNames, ← List.map_dropLast]
  constructor
  · rintro ⟨s, hExcluded, hs⟩
    obtain ⟨t, ht, hSame⟩ := List.mem_map.mp hs
    obtain rfl := Component.name.inj hSame
    exact ⟨t, ht, hExcluded⟩
  · rintro ⟨s, hs, hExcluded⟩
    exact ⟨s, hExcluded, List.mem_map_of_mem hs⟩

end Path

/-! ## What is listed -/

namespace FileTree

/-- Can every location of a tree be written as a path? -/
def IsProper (tree : FileTree) : Prop :=
  ∀ e ∈ tree.entries, ∀ s ∈ e.1, Path.IsName s

instance : DecidablePred IsProper := fun tree =>
  inferInstanceAs (Decidable (∀ e ∈ tree.entries, ∀ s ∈ e.1, Path.IsName s))

theorem exists_names_of_mem_filesBelow {tree : FileTree} (hTree : tree.IsProper)
    {directory : Location} {exclude : List Text} {p : Path}
    (h : p ∈ tree.filesBelow directory exclude) :
    ∃ names, p = .ofNames names ∧ (∀ s ∈ names, Path.IsName s) ∧
      ∀ s ∈ names.dropLast, s ∉ exclude := by
  rw [filesBelow, List.mem_mergeSort] at h
  obtain ⟨⟨location, entry⟩, hEntry, hBelow⟩ := List.mem_filterMap.mp h
  rw [filesBelow.below?.eq_def] at hBelow
  split at hBelow
  · cases hBelow
  · rename_i hSame
    obtain ⟨rfl, rfl⟩ := Prod.mk.inj hSame
    split at hBelow
    · simp only at hBelow
      split at hBelow
      · cases hBelow
      · rename_i hNone
        refine ⟨location.drop directory.length, (Option.some.inj hBelow).symm,
          fun s hs => hTree _ hEntry s (List.mem_of_mem_drop hs), fun s hs hExcluded => hNone ?_⟩
        exact List.any_eq_true.mpr ⟨s, hs, List.contains_iff_mem.mpr hExcluded⟩
    · cases hBelow

theorem of_mem_stylesheets_project {tree : FileTree} (hTree : tree.IsProper) {root : Path}
    {exclude : List Text} {p : Path} (h : p ∈ (tree.project root exclude).stylesheets) :
    p.IsNormal ∧ ¬ p.LiesBelow exclude := by
  obtain ⟨hListed, hExtension⟩ := List.mem_filter.mp h
  split at hListed
  · obtain ⟨names, rfl, hNames, hOutside⟩ := exists_names_of_mem_filesBelow hTree hListed
    have hNonempty : names ≠ [] := by
      rintro rfl
      exact absurd hExtension (by decide)
    refine ⟨Path.isNormal_ofNames hNonempty hNames, fun hBelow => ?_⟩
    obtain ⟨s, hs, hExcluded⟩ := (Path.liesBelow_ofNames_iff hNonempty hNames).mp hBelow
    exact hOutside s hs hExcluded
  · cases hListed

end FileTree

/-! ## What is named -/

namespace Project

section

variable (project : Project)

/-- Does a file that can be read hold a reference to a path? -/
def Refers (targets : Text → List Text) (source p : Path) : Prop :=
  ∃ text, project.content? source = some text ∧
    ∃ t ∈ targets text, Reference.resolve? source.directory t = some p

/-- Does a project name a path as a place of stylesheets, listed or not? -/
inductive IsNamed (kind : ProjectKind) (samples : Samples) (p : Path) : Prop
  | preferred (h : p ∈ preferredFiles)
  | customary (h : p ∈ defaultFiles kind)
  | imported {entry : Path} (hEntry : entry ∈ entryFiles) (hFile : project.isFile entry = true)
      (h : project.Refers Reference.ofScript entry p)
  | linked {page : Path} (hPage : page ∈ entryFiles) (hFile : project.isFile page = true)
      (hName : ".html".toList <:+ page.text) (h : project.Refers Reference.ofPage page p)
  | moduleImported {script : Path} (hScript : script ∈ project.scripts.take samples.scripts)
      (h : project.Refers Reference.modulesOfScript script p)
  | sheetImported {sheet : Path} (hSheet : sheet ∈ project.stylesheets.take samples.stylesheets)
      (h : project.Refers Reference.ofStylesheet sheet p)

end

variable {project : Project} {kind : ProjectKind} {samples : Samples} {p : Path}

theorem mem_file_referenceEvidence_iff {file : Path} {signal : Signal} {lead : String}
    {targets : List Text} :
    p ∈ (referenceEvidence file signal lead targets).map (·.file) ↔
      ∃ t ∈ targets, Reference.resolve? file.directory t = some p := by
  rw [referenceEvidence, List.map_map]
  simp [List.mem_filterMap]

theorem mem_file_sourceEvidence_iff {file : Path} {signal : Signal} {lead : String}
    {targets : Text → List Text} :
    p ∈ (sourceEvidence project signal lead targets file).map (·.file) ↔
      project.Refers targets file p := by
  rw [sourceEvidence, Refers]
  cases project.content? file with
  | none => simp
  | some source => simp only [mem_file_referenceEvidence_iff, Option.some.injEq, exists_eq_left']

theorem mem_file_entryEvidence_iff {file : Path} :
    p ∈ (entryEvidence project file).map (·.file) ↔
      project.isFile file = true ∧ (project.Refers Reference.ofScript file p ∨
        ".html".toList <:+ file.text ∧ project.Refers Reference.ofPage file p) := by
  rw [entryEvidence, Refers, Refers]
  by_cases hFile : project.isFile file = true
  · rw [if_pos hFile, and_iff_right hFile]
    cases project.content? file with
    | none => simp
    | some source =>
      simp only [List.map_append, List.mem_append, mem_file_referenceEvidence_iff,
        Option.some.injEq, exists_eq_left', ← Text.endsWith_eq_true_iff]
      refine or_congr_right ?_
      split
      · rename_i hName
        rw [mem_file_referenceEvidence_iff, and_iff_right hName]
      · rename_i hName
        exact iff_of_false List.not_mem_nil fun h => hName h.1
  · rw [if_neg hFile]
    exact iff_of_false List.not_mem_nil fun h => hFile h.1

/-- Evidence points at the stylesheets that are listed and at those that are named. -/
theorem mem_file_evidence_iff :
    p ∈ (project.evidence kind samples).map (·.file) ↔
      p ∈ project.stylesheets ∨ project.IsNamed kind samples p := by
  simp only [evidence, List.map_append, List.map_flatMap, List.map_map, Function.comp_def,
    List.map_id', List.mem_append, List.mem_flatMap, mem_file_sourceEvidence_iff,
    mem_file_entryEvidence_iff]
  constructor
  · rintro ((((((hp | ⟨entry, hEntry, hFile, hRefers | ⟨hName, hRefers⟩⟩) |
      ⟨script, hScript, hRefers⟩) | hp) | ⟨sheet, hSheet, hRefers⟩) | hp) | hp)
    · exact .inr (.preferred hp)
    · exact .inr (.imported hEntry hFile hRefers)
    · exact .inr (.linked hEntry hFile hName hRefers)
    · exact .inr (.moduleImported hScript hRefers)
    · exact .inl (List.mem_of_mem_filter hp)
    · exact .inr (.sheetImported hSheet hRefers)
    · exact .inl hp
    · exact .inr (.customary hp)
  · rintro (hListed | hNamed)
    · exact .inl (.inr hListed)
    · cases hNamed with
      | preferred hp => simp [hp]
      | customary hp => exact .inr hp
      | imported hEntry hFile hRefers =>
        exact .inl (.inl (.inl (.inl (.inl (.inr ⟨_, hEntry, hFile, .inl hRefers⟩)))))
      | linked hPage hFile hName hRefers =>
        exact .inl (.inl (.inl (.inl (.inl (.inr ⟨_, hPage, hFile, .inr ⟨hName, hRefers⟩⟩)))))
      | moduleImported hScript hRefers =>
        exact .inl (.inl (.inl (.inl (.inr ⟨_, hScript, hRefers⟩))))
      | sheetImported hSheet hRefers => exact .inl (.inl (.inr ⟨_, hSheet, hRefers⟩))

theorem mem_file_candidates_iff (hSheets : ∀ p ∈ project.stylesheets, p.IsNormal) :
    p ∈ (project.candidates kind samples).map (·.file) ↔
      (p ∈ project.stylesheets ∨ project.IsNamed kind samples p) ∧
        Candidate.isAccepted project p = true := by
  rw [candidates_eq hSheets]
  have hOwn (p : Path) : (Candidate.tallied (project.evidence kind samples) p).file = p := rfl
  have hFiles := Candidate.perm_file_ranked hOwn
    ((firsts id ((project.evidence kind samples).map (·.file))).filter
      (Candidate.isAccepted project))
  rw [hFiles.mem_iff, List.mem_filter, mem_firsts_id_iff, mem_file_evidence_iff]

end Project

namespace Workspace

/-- The candidates lie in no excluded directory if and only if this holds of every stylesheet that
the project names. Without a choice of its own, a command takes the first candidate. -/
theorem forall_not_liesBelow_candidates_iff {w : Workspace} (hTree : w.tree.IsProper) :
    ((∀ c ∈ w.candidates, ¬ c.file.LiesBelow w.settings.exclude) ↔
      ∀ p, w.project.IsNamed w.project.kind.1 w.settings.samples p → w.project.isFile p = true →
        ".css".toList <:+ p.text → ¬ ".min.css".toList <:+ p.text →
        ¬ p.LiesBelow w.settings.exclude) ∧
    (w.settings.stylesheet = none →
      (w.scan none).stylesheet = w.candidates.head?.map (·.file) ∧
        ∀ overrides now plan current, w.plan none overrides now = .ok (plan, current) →
          w.candidates.head?.map (·.file) = some plan.file) := by
  have hSheets : ∀ p ∈ w.project.stylesheets, p.IsNormal ∧ ¬ p.LiesBelow w.settings.exclude :=
    fun p => FileTree.of_mem_stylesheets_project hTree
  have hFile {p : Path} : p ∈ w.candidates.map (·.file) ↔
      (p ∈ w.project.stylesheets ∨ w.project.IsNamed w.project.kind.1 w.settings.samples p) ∧
        Candidate.isAccepted w.project p = true :=
    Project.mem_file_candidates_iff fun p hp => (hSheets p hp).1
  constructor
  · constructor
    · intro hOutside p hNamed hIsFile hCss hMin
      obtain ⟨c, hc, rfl⟩ := List.mem_map.mp (hFile.mpr ⟨.inr hNamed,
        (Project.isAccepted_eq_true_iff _ p).mpr ⟨⟨hCss, hMin⟩, hIsFile⟩⟩)
      exact hOutside c hc
    · intro hNamed c hc
      obtain ⟨hPlace, hAccepted⟩ := hFile.mp (List.mem_map_of_mem hc)
      obtain ⟨⟨hCss, hMin⟩, hIsFile⟩ := (Project.isAccepted_eq_true_iff _ _).mp hAccepted
      rcases hPlace with hListed | hPlace
      · exact (hSheets c.file hListed).2
      · exact hNamed c.file hPlace hIsFile hCss hMin
  · intro hNone
    have hScan : (w.scan none).stylesheet = w.candidates.head?.map (·.file) := by
      rw [scan, selected, hNone]
      rfl
    exact ⟨hScan, fun overrides now plan current hPlan => hScan.symm.trans (of_plan hPlan).1⟩

/-- A page links what was built; that is a candidate, and a scan takes it. -/
theorem liesBelow_candidates_page :
    let tree := ((FileTree.empty ["site".toList]).place
      (.file (.text "p \x7B color: red \x7D".toList)) ["site".toList]
        ["dist".toList, "x.css".toList]).place
      (.file (.text "<link rel='stylesheet' href='dist/x.css'>".toList)) ["site".toList]
        ["index.html".toList]
    let w : Workspace := ⟨tree, .ofString ".", .default⟩
    tree.IsProper ∧ (∃ c ∈ w.candidates, c.file.LiesBelow w.settings.exclude) ∧
      (w.scan none).stylesheet = some (.ofString "dist/x.css") := by
  intro tree w
  have hTree : tree.IsProper := by decide +kernel
  obtain ⟨hCandidates, hChosen⟩ := forall_not_liesBelow_candidates_iff (w := w) hTree
  have hPage : w.project.isFile (.ofString "index.html") = true ∧
      w.project.isFile (.ofString "dist/x.css") = true ∧
      (Path.ofString "dist/x.css").LiesBelow w.settings.exclude ∧
      w.candidates.head?.map (·.file) = some (.ofString "dist/x.css") := by
    decide +kernel
  have hEntry : .ofString "index.html" ∈ Project.entryFiles := by decide
  have hNamed : w.project.IsNamed w.project.kind.1 w.settings.samples (.ofString "dist/x.css") :=
    .linked hEntry hPage.1 (by decide) ⟨_, rfl, "dist/x.css".toList, by decide +kernel, by decide⟩
  refine ⟨hTree, ?_, ?_⟩
  · by_contra hNone
    push Not at hNone
    exact hCandidates.mp hNone _ hNamed hPage.2.1 (by decide) (by decide) hPage.2.2.1
  · rw [(hChosen rfl).1]
    exact hPage.2.2.2

end Workspace

end DesignParams
