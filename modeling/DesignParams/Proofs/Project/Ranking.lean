import DesignParams.Proofs.Project.Candidate

/-!
# What a ranking says

A ranking lists every stylesheet of a project once. The score of a file is the sum of what its
signals weigh, each reference counted where it resolves to the file, and its reason lists what they
report.
-/
set_option autoImplicit false

namespace DesignParams

namespace Project

/-! ## The signals for one file -/

section Signals

variable (project : Project) (kind : ProjectKind) (samples : Samples) (file : Path)

/-- Signals of one weight from those targets in a source that mean the file. -/
def mentions (source : Path) (weight : Nat) (lead : String) (targets : List Text) :
    List (Nat × Text) :=
  (targets.filter (Reference.resolve? source.directory · = some file)).map fun _ =>
    (weight, lead.toList ++ source.text)

def sourceSignals (weight : Nat) (lead : String) (targets : Text → List Text) (source : Path) :
    List (Nat × Text) :=
  (project.content? source).toList.flatMap fun text =>
    mentions file source weight lead (targets text)

def entrySignals (entry : Path) : List (Nat × Text) :=
  (project.content? entry).toList.flatMap fun text =>
    mentions file entry 10 "import in " (Reference.ofScript text) ++
      if ".html".toList <:+ entry.text then
        mentions file entry 8 "link in " (Reference.ofPage text)
      else []

/-- The signals for a file: what each one weighs and what it reports, in order. -/
def signals : List (Nat × Text) :=
  (preferredFiles.filter (· = file)).map (fun _ => (6, "preferred".toList)) ++
  (entryFiles.filter project.isFile).flatMap (entrySignals project file) ++
  (project.scripts.take samples.scripts).flatMap
    (sourceSignals project file 6 "module import in " Reference.modulesOfScript) ++
  (project.stylesheets.filter fun p => p = file ∧ ".module.css".toList <:+ p.text).map
    (fun _ => (3, "module css".toList)) ++
  (project.stylesheets.take samples.stylesheets).flatMap
    (sourceSignals project file 5 "@import in " Reference.ofStylesheet) ++
  (project.stylesheets.filter (· = file)).map (fun _ => (1, "discovered".toList)) ++
  ((defaultFiles kind).filter (· = file)).map fun _ => (4, kind.name ++ " default".toList)

/-- What a weight counts for a file: half, rounded up, for a stylesheet module. -/
def counted (weight : Nat) : Nat :=
  if ".module.css".toList <:+ file.text then (weight + 1) / 2 else weight

def reported (reason : Text) : Text :=
  if ".module.css".toList <:+ file.text ∧ ¬ "module".toList <:+: reason then
    reason ++ " (module)".toList
  else reason

def signalsBefore : Nat :=
  ((project.evidence kind samples).map (·.file)).idxOf file

end Signals

theorem isModule_eq_true_iff (p : Path) : p.isModule = true ↔ ".module.css".toList <:+ p.text :=
  Text.endsWith_eq_true_iff

theorem weight_eq_counted (e : Evidence) : e.weight = counted e.file e.signal.weight := by
  rw [Evidence.weight, counted, if_congr (isModule_eq_true_iff e.file) rfl rfl]

theorem note_eq_reported (e : Evidence) : e.note = reported e.file e.reason := by
  have hSame : (e.file.isModule && !Text.contains e.reason "module".toList) = true ↔
      ".module.css".toList <:+ e.file.text ∧ ¬ "module".toList <:+: e.reason := by
    rw [Bool.and_eq_true, Bool.not_eq_true', isModule_eq_true_iff, Text.contains,
      Option.isSome_eq_false_iff, Option.isNone_iff_eq_none, Text.splitOnce?_eq_none_iff]
  rw [Evidence.note, reported, if_congr hSame rfl rfl]

section Filtered

variable {project : Project} {kind : ProjectKind} {samples : Samples} (file : Path)

def signalsOf (evidence : List Evidence) : List (Nat × Text) :=
  (evidence.filter (·.file = file)).map fun e => (e.signal.weight, e.reason)

theorem signalsOf_append (s t : List Evidence) :
    signalsOf file (s ++ t) = signalsOf file s ++ signalsOf file t := by
  rw [signalsOf, List.filter_append, List.map_append]
  rfl

theorem signalsOf_flatMap (f : Path → List Evidence) (l : List Path) :
    signalsOf file (l.flatMap f) = l.flatMap fun p => signalsOf file (f p) := by
  induction l with
  | nil => rfl
  | cons p l ih => rw [List.flatMap_cons, List.flatMap_cons, signalsOf_append, ih]

theorem signalsOf_map (signal : Signal) (reason : Text) (l : List Path) :
    signalsOf file (l.map fun p => ⟨p, signal, reason⟩) =
      (l.filter (· = file)).map fun _ => (signal.weight, reason) := by
  rw [signalsOf, List.filter_map, List.map_map]
  rfl

theorem signalsOf_referenceEvidence (source : Path) (signal : Signal) (lead : String)
    (targets : List Text) :
    signalsOf file (referenceEvidence source signal lead targets) =
      mentions file source signal.weight lead targets := by
  rw [referenceEvidence, signalsOf_map, mentions]
  induction targets with
  | nil => rfl
  | cons t targets ih =>
    cases hResolve : Reference.resolve? source.directory t with
    | none => simp [hResolve, ih]
    | some p =>
      by_cases hFile : p = file
      · simp [hResolve, hFile, ih]
      · simp [hResolve, hFile, ih]

theorem signalsOf_entryEvidence {entry : Path} (hEntry : project.isFile entry = true) :
    signalsOf file (entryEvidence project entry) = entrySignals project file entry := by
  rw [entryEvidence, if_pos hEntry, entrySignals]
  cases project.content? entry with
  | none => rfl
  | some text =>
    simp only [Option.toList_some, List.flatMap_cons, List.flatMap_nil, List.append_nil]
    rw [signalsOf_append, signalsOf_referenceEvidence,
      ← if_congr Text.endsWith_eq_true_iff rfl rfl]
    split
    · rw [signalsOf_referenceEvidence]
      rfl
    · rfl

theorem signalsOf_entries (entries : List Path) :
    signalsOf file (entries.flatMap (entryEvidence project)) =
      (entries.filter project.isFile).flatMap (entrySignals project file) := by
  induction entries with
  | nil => rfl
  | cons entry entries ih =>
    rw [List.flatMap_cons, signalsOf_append, ih]
    by_cases hEntry : project.isFile entry = true
    · rw [List.filter_cons_of_pos hEntry, List.flatMap_cons, signalsOf_entryEvidence file hEntry]
    · rw [List.filter_cons_of_neg hEntry, entryEvidence, if_neg hEntry]
      rfl

theorem signalsOf_sourceEvidence (signal : Signal) (lead : String) (targets : Text → List Text)
    (source : Path) :
    signalsOf file (sourceEvidence project signal lead targets source) =
      sourceSignals project file signal.weight lead targets source := by
  rw [sourceEvidence, sourceSignals]
  cases project.content? source with
  | none => rfl
  | some text =>
    simp only [Option.toList_some, List.flatMap_cons, List.flatMap_nil, List.append_nil]
    apply signalsOf_referenceEvidence

theorem signalsOf_evidence :
    signalsOf file (project.evidence kind samples) = signals project kind samples file := by
  have hModules : (project.stylesheets.filter Path.isModule).filter (· = file) =
      project.stylesheets.filter fun p => p = file ∧ ".module.css".toList <:+ p.text := by
    rw [List.filter_filter]
    refine List.filter_congr fun p _ => ?_
    rw [Bool.eq_iff_iff, Bool.and_eq_true, decide_eq_true_iff, isModule_eq_true_iff,
      decide_eq_true_iff]
  rw [evidence]
  simp only [signalsOf_append, signalsOf_entries]
  simp only [signalsOf_map, signalsOf_flatMap, signalsOf_sourceEvidence, hModules]
  rfl

end Filtered

/-! ## The ranking -/

/-- Do the candidates rank the stylesheets of a project? -/
structure IsRanking (project : Project) (kind : ProjectKind) (samples : Samples)
    (candidates : List Candidate) : Prop where
  nodup : (candidates.map (·.file)).Nodup
  normal : ∀ c ∈ candidates, c.file.IsNormal
  isFile : ∀ c ∈ candidates, project.isFile c.file = true
  named : ∀ c ∈ candidates, ".css".toList <:+ c.file.text ∧ ¬ ".min.css".toList <:+ c.file.text
  complete : ∀ p ∈ project.stylesheets, ¬ ".min.css".toList <:+ p.text →
    p ∈ candidates.map (·.file)
  ordered : candidates.Pairwise fun a b => b.score < a.score ∨
    a.score = b.score ∧
      signalsBefore project kind samples a.file < signalsBefore project kind samples b.file
  score : ∀ c ∈ candidates,
    c.score = ((signals project kind samples c.file).map fun s => counted c.file s.1).sum
  reason : ∀ c ∈ candidates,
    c.reason = Text.join "; ".toList
      ((signals project kind samples c.file).map fun s => reported c.file s.2)

theorem tallied_evidence (project : Project) (kind : ProjectKind) (samples : Samples)
    (file : Path) :
    Candidate.tallied (project.evidence kind samples) file =
      ⟨file, ((signals project kind samples file).map fun s => counted file s.1).sum,
        Text.join "; ".toList ((signals project kind samples file).map fun s => reported file s.2)⟩ := by
  rw [Candidate.tallied, ← signalsOf_evidence, signalsOf, List.map_map, List.map_map]
  have hOwn : ∀ e ∈ (project.evidence kind samples).filter (·.file = file), e.file = file :=
    fun e he => by simpa using (List.mem_filter.mp he).2
  congr 2
  · refine List.map_congr_left fun e he => ?_
    rw [weight_eq_counted, hOwn e he]
    rfl
  · refine List.map_congr_left fun e he => ?_
    rw [note_eq_reported, hOwn e he]
    rfl

theorem isAccepted_eq_true_iff (project : Project) (p : Path) :
    Candidate.isAccepted project p = true ↔
      (".css".toList <:+ p.text ∧ ¬ ".min.css".toList <:+ p.text) ∧ project.isFile p = true := by
  rw [Candidate.isAccepted, Path.isCandidate, Bool.and_eq_true, Bool.and_eq_true,
    Bool.not_eq_true', ← Bool.not_eq_true, Text.endsWith_eq_true_iff, Text.endsWith_eq_true_iff]

theorem candidates_eq {project : Project} (hSheets : ∀ p ∈ project.stylesheets, p.IsNormal)
    (kind : ProjectKind) (samples : Samples) :
    project.candidates kind samples =
      Candidate.ranked
        (((firsts id ((project.evidence kind samples).map (·.file))).filter
            (Candidate.isAccepted project)).map
          (Candidate.tallied (project.evidence kind samples))) := by
  rw [candidates, Candidate.foldl_add fun e he => isNormal_of_mem_evidence hSheets he]

/-- A project whose stylesheets are listed under their normal paths is ranked. -/
theorem isRanking_candidates_of_listed {project : Project}
    (hSheets : ∀ p ∈ project.stylesheets,
      p.IsNormal ∧ project.isFile p = true ∧ ".css".toList <:+ p.text)
    (kind : ProjectKind) (samples : Samples) :
    IsRanking project kind samples (project.candidates kind samples) := by
  have hNormal : ∀ p ∈ project.stylesheets, p.IsNormal := fun p hp => (hSheets p hp).1
  rw [candidates_eq hNormal]
  generalize hFiles : (firsts id ((project.evidence kind samples).map (·.file))).filter
    (Candidate.isAccepted project) = files
  have hFile : ∀ {p}, p ∈ files ↔
      p ∈ (project.evidence kind samples).map (·.file) ∧ Candidate.isAccepted project p = true := by
    intro p
    rw [← hFiles, List.mem_filter, mem_firsts_id_iff]
  have hOrder : files.Pairwise fun p q =>
      signalsBefore project kind samples p < signalsBefore project kind samples q := by
    rw [← hFiles]
    exact pairwise_firsts_id.filter _
  have hTally := tallied_evidence project kind samples
  generalize Candidate.tallied (project.evidence kind samples) = tally at hTally
  have hOwn (p : Path) : (tally p).file = p := by rw [hTally]
  have hMem : ∀ c ∈ Candidate.ranked (files.map tally), c.file ∈ files ∧ c = tally c.file :=
    fun c => Candidate.of_mem_ranked_map hOwn
  have hNames : ((Candidate.ranked (files.map tally)).map (·.file)).Perm files :=
    Candidate.perm_file_ranked hOwn files
  constructor
  case nodup =>
    refine hNames.nodup_iff.mpr (hOrder.imp fun hLess hSame => ?_)
    exact Nat.lt_irrefl _ (hSame ▸ hLess)
  case normal =>
    intro c hc
    obtain ⟨e, he, hSame⟩ := List.mem_map.mp (hFile.mp (hMem c hc).1).1
    exact hSame ▸ isNormal_of_mem_evidence hNormal he
  case isFile =>
    intro c hc
    exact ((isAccepted_eq_true_iff project _).mp (hFile.mp (hMem c hc).1).2).2
  case named =>
    intro c hc
    exact ((isAccepted_eq_true_iff project _).mp (hFile.mp (hMem c hc).1).2).1
  case complete =>
    intro p hp hMin
    obtain ⟨-, hIsFile, hExtension⟩ := hSheets p hp
    refine hNames.mem_iff.mpr (hFile.mpr ⟨?_, ?_⟩)
    · refine List.mem_map.mpr ⟨⟨p, .discovered, "discovered".toList⟩, ?_, rfl⟩
      simp [evidence, hp]
    · exact (isAccepted_eq_true_iff project p).mpr ⟨⟨hExtension, hMin⟩, hIsFile⟩
  case ordered =>
    refine Candidate.pairwise_ranked (List.pairwise_map.mpr ?_)
    simpa only [hTally] using hOrder
  case score =>
    intro c hc
    rw [(hMem c hc).2, hTally]
  case reason =>
    intro c hc
    rw [(hMem c hc).2, hTally]

/-! ## Projects of given files -/

theorem isFile_ofFiles_iff {root : Path} {files : Files} (hKeys : ∀ file ∈ files, file.1.IsNormal)
    {p : Path} (hp : p.IsNormal) : (ofFiles root files).isFile p = true ↔ p ∈ files.map (·.1) := by
  have hFind : (ofFiles root files).isFile p = true ↔ ∃ file ∈ files, Path.same file.1 p = true := by
    simp only [ofFiles, Files.find?, Option.isSome_map, List.find?_isSome]
  rw [hFind, List.mem_map]
  constructor
  · rintro ⟨file, hFile, hSame⟩
    exact ⟨file, hFile, ((hKeys file hFile).same_iff hp).mp hSame⟩
  · rintro ⟨file, hFile, rfl⟩
    exact ⟨file, hFile, ((hKeys file hFile).same_iff hp).mpr rfl⟩

theorem suffix_of_hasExtension {p : Path} (h : p.IsNormal)
    (hExtension : p.hasExtension stylesheetExtensions = true) : ".css".toList <:+ p.text := by
  rw [Path.hasExtension] at hExtension
  split at hExtension
  · rename_i e he
    obtain rfl : e = "css".toList := by simpa [stylesheetExtensions] using hExtension
    exact h.extension_suffix he
  · cases hExtension

/-- The candidates of a project of files under normal paths rank its stylesheets, and the best one
is the stylesheet that a scan takes. -/
theorem isRanking_candidates (root : Path) (files : Files)
    (hKeys : ∀ file ∈ files, file.1.IsNormal) (kind : ProjectKind) (samples : Samples) :
    IsRanking (ofFiles root files) kind samples ((ofFiles root files).candidates kind samples) ∧
      ∀ options : ScanOptions, ((ofFiles root files).scan options).stylesheet =
        ((ofFiles root files).candidates (ofFiles root files).kind.1 options.samples).head?.map
          (·.file) := by
  constructor
  · refine isRanking_candidates_of_listed (fun p hp => ?_) kind samples
    obtain ⟨hListed, hExtension⟩ := List.mem_filter.mp hp
    obtain ⟨file, hFile, rfl⟩ := List.mem_map.mp hListed
    have hNormal := hKeys file hFile
    exact ⟨hNormal, (isFile_ofFiles_iff hKeys hNormal).mpr hListed,
      suffix_of_hasExtension hNormal hExtension⟩
  · intro options
    rfl

/-- A stylesheet module that a page links: a link, the module file and its discovery, each counted
by half. -/
theorem isRanking_candidates_page :
    let files : Files :=
      [(.ofString "a.module.css", "p \x7B color: red \x7D".toList),
        (.ofString "index.html", "<link rel='stylesheet' href='./a.module.css?v=1'>".toList)]
    (∀ file ∈ files, file.1.IsNormal) ∧
      ∃ c ∈ (ofFiles (.ofString "/site") files).candidates .vanilla .default,
        c.file = .ofString "a.module.css" ∧ c.score = 7 ∧
          c.reason = "link in index.html (module); module css; discovered (module)".toList := by
  intro files
  have hKeys : ∀ file ∈ files, file.1.IsNormal := by decide
  obtain ⟨hRanking, -⟩ := isRanking_candidates (.ofString "/site") files hKeys .vanilla .default
  obtain ⟨c, hc, hFile⟩ := List.mem_map.mp
    (hRanking.complete (.ofString "a.module.css") (by decide) (by decide))
  refine ⟨hKeys, c, hc, hFile, ?_, ?_⟩
  · rw [hRanking.score c hc, hFile]
    decide
  · rw [hRanking.reason c hc, hFile]
    decide

end Project

end DesignParams
