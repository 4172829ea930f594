import DesignParams.Proofs.CommandLine.Apply
import DesignParams.Proofs.Path.Moves
import DesignParams.Proofs.Stylesheet.Renamed

/-!
# One stylesheet under several spellings

A stylesheet can be named by its normal path, by a path that normalizes to it, and by an absolute
path. All of them lead to the same text, but what a command takes for the path of the stylesheet is
the spelling, or what is left of it behind the root; and this is hashed.
-/
set_option autoImplicit false

namespace DesignParams

namespace FileTree

open DesignParams.Path (Component)

variable {tree : FileTree} {content : FileContent}

/-! ## Where moves lead -/

theorem follow_filter {steps : List Component} {start place : Location}
    (h : tree.follow start steps = .ok place) :
    tree.follow start (steps.filter (· ≠ .current)) = .ok place := by
  induction steps generalizing start with
  | nil => exact h
  | cons c rest ih =>
    rw [follow] at h
    split at h
    · rename_i hDirectory
      by_cases hCurrent : c = .current
      · rw [List.filter_cons_of_neg (by simp [hCurrent])]
        rw [hCurrent] at h
        exact ih h
      · rw [List.filter_cons_of_pos (by simpa using hCurrent), follow, hDirectory]
        exact ih h
    · cases h
    · cases h

theorem directory_of_follow {c : Component} {rest : List Component} {start place : Location}
    (h : tree.follow start (c :: rest) = .ok place) : tree.entry? start = some .directory := by
  rw [follow] at h
  split at h
  · assumption
  · cases h
  · cases h

theorem follow_cons {c : Component} {rest : List Component} {start : Location}
    (h : tree.entry? start = some .directory) :
    tree.follow start (c :: rest) = tree.follow (step start c) rest := by
  rw [follow, h]

/-- A step that stays is only taken from a directory, as the move behind it is. -/
theorem follow_of_filter {steps : List Component} {start place : Location}
    (hLast : steps.getLast? ≠ some .current)
    (h : tree.follow start (steps.filter (· ≠ .current)) = .ok place) :
    tree.follow start steps = .ok place := by
  induction steps generalizing start with
  | nil => exact h
  | cons c rest ih =>
    have hRest : rest.getLast? ≠ some .current := fun hCurrent =>
      hLast (by rw [List.getLast?_cons, hCurrent]; rfl)
    by_cases hCurrent : c = .current
    · rw [List.filter_cons_of_neg (by simp [hCurrent])] at h
      have hDirectory : tree.entry? start = some .directory := by
        cases hMoves : rest.filter (· ≠ .current) with
        | nil =>
          obtain rfl | ⟨front, last, rfl⟩ := rest.eq_nil_or_concat'
          · exact absurd (congrArg some hCurrent) hLast
          · rw [List.getLast?_concat] at hRest
            have hKept := List.filter_eq_nil_iff.mp hMoves last (by simp)
            exact absurd (by simpa using hKept) fun h => hRest (congrArg some h)
        | cons d moves =>
          rw [hMoves] at h
          exact directory_of_follow h
      rw [follow_cons hDirectory, hCurrent]
      exact ih hRest h
    · rw [List.filter_cons_of_pos (by simpa using hCurrent)] at h
      have hDirectory := directory_of_follow h
      rw [follow_cons hDirectory] at h ⊢
      exact ih hRest h

theorem lookup_of_moves {p : Path} {place : Location} (hSharp : p.IsSharp)
    (h : tree.follow tree.working p.moves = .ok place)
    (hEntry : tree.entry? place = some (.file content)) : tree.lookup p = .ok (.file content) := by
  rw [← Path.filter_steps] at h
  rw [lookup, locate, hSharp.hasFinalSlash, if_neg Bool.false_ne_true, List.append_nil,
    follow_of_filter hSharp.getLast?_steps h]
  simp only [hEntry]

theorem exists_moves_of_file {p : Path} (h : tree.lookup p = .ok (.file content)) :
    ∃ place, tree.follow tree.working p.moves = .ok place ∧
      tree.entry? place = some (.file content) := by
  obtain ⟨place, hLocate, hEntry⟩ := exists_place_of_lookup h
  refine ⟨place, ?_, hEntry⟩
  rw [← Path.filter_steps]
  exact follow_filter ((locate_of_file hLocate hEntry).symm.trans hLocate)

theorem eq_append_of_follow {names : List Text} {base place : Location}
    (h : tree.follow base (names.map .name) = .ok place) : place = base ++ names := by
  induction names generalizing base with
  | nil =>
    rw [List.append_nil]
    exact (Except.ok.inj h).symm
  | cons name names ih =>
    rw [List.map_cons, follow_cons (directory_of_follow h)] at h
    rw [ih h, step, List.append_assoc]
    rfl

/-- What leads below a directory by moves that cancel leads there by the names that are left. -/
theorem follow_cancel {moves : List Component} {stack names : List Text} {base place : Location}
    (hCancel : Path.cancel moves stack = some names) (hMoves : .root ∉ moves)
    (hStack : tree.follow base (stack.reverse.map .name) = .ok (base ++ stack.reverse))
    (hFollow : tree.follow (base ++ stack.reverse) moves = .ok place) :
    tree.follow base (names.reverse.map .name) = .ok place := by
  -- The stack holds the names that lead from the base to where the moves have come.
  fun_induction Path.cancel moves stack with
  | case1 stack =>
    obtain rfl := Option.some.inj hCancel
    rw [hStack]
    exact hFollow
  | case2 => exact absurd List.mem_cons_self hMoves
  | case3 stack rest ih =>
    rw [follow_cons (directory_of_follow hFollow)] at hFollow
    exact ih hCancel (fun h => hMoves (List.mem_cons_of_mem _ h)) hStack hFollow
  | case4 => cases hCancel
  | case5 rest last stack ih =>
    have hRest : tree.follow base (stack.reverse.map .name) = .ok (base ++ stack.reverse) := by
      rw [List.reverse_cons, List.map_append, follow_append] at hStack
      cases hFront : tree.follow base (stack.reverse.map .name) with
      | error e =>
        rw [hFront] at hStack
        cases hStack
      | ok front => rw [eq_append_of_follow hFront]
    rw [follow_cons (directory_of_follow hFollow), step, List.reverse_cons, ← List.append_assoc,
      List.dropLast_concat] at hFollow
    exact ih hCancel (fun h => hMoves (List.mem_cons_of_mem _ h)) hRest hFollow
  | case6 name rest stack ih =>
    have hDirectory := directory_of_follow hFollow
    have hName : base ++ (name :: stack).reverse = step (base ++ stack.reverse) (.name name) := by
      rw [step, List.reverse_cons, List.append_assoc]
    refine ih hCancel (fun h => hMoves (List.mem_cons_of_mem _ h)) ?_ ?_
    · rw [List.reverse_cons, List.map_append, follow_append, hStack, ← List.reverse_cons, hName]
      exact follow_cons hDirectory
    · rwa [follow_cons hDirectory, ← hName] at hFollow

/-! ## Spellings of a path -/

/-- A path and its normal form lead from the same directory to the same file. -/
theorem lookup_append_of_normalize? {root p f : Path} (hRelative : p.isAbsolute = false)
    (hNormal : p.normalize? = some f)
    (h : tree.lookup (root.append p) = .ok (.file content)) :
    tree.lookup (root.append f) = .ok (.file content) := by
  obtain ⟨place, hMoves, hEntry⟩ := exists_moves_of_file h
  obtain ⟨names, hCancel, hNonempty, hNames, rfl⟩ := Path.exists_cancel_of_normalize? hNormal
  obtain ⟨hRelative', hNormalMoves, hSharp⟩ := Path.of_ofNames
    (fun hNil => hNonempty (List.reverse_eq_nil_iff.mp hNil))
    fun s hs => hNames s (List.mem_reverse.mp hs)
  refine lookup_of_moves (hSharp.append hRelative') ?_ hEntry
  rw [Path.moves_append hRelative', follow_append]
  rw [Path.moves_append hRelative, follow_append] at hMoves
  cases hRoot : tree.follow tree.working root.moves with
  | error e =>
    rw [hRoot] at hMoves
    cases hMoves
  | ok base =>
    rw [hRoot] at hMoves
    rw [hNormalMoves]
    have hBase : base = base ++ [].reverse := (List.append_nil base).symm
    exact follow_cancel hCancel (Path.root_not_mem_moves hRelative) (congrArg Except.ok hBase)
      (hBase ▸ hMoves)

/-- What is left of an absolute path behind the root leads from there to the same file. -/
theorem lookup_append_within {root p : Path} (hAbsolute : p.isAbsolute = true)
    (hRoot : ∀ place, tree.follow tree.working root.moves = .ok place →
      tree.entry? place = some .directory)
    (h : tree.lookup p = .ok (.file content)) :
    tree.lookup (root.append (.within root p)) = .ok (.file content) := by
  obtain ⟨place, hMoves, hEntry⟩ := exists_moves_of_file h
  rw [Path.within, if_pos hAbsolute]
  cases hRelative : p.relativeTo? root with
  | none => rwa [Option.getD_none, Path.append, if_pos hAbsolute]
  | some q =>
    have hNonempty : p.segments ≠ [] := by
      intro hNil
      rw [Path.moves_of_isAbsolute hAbsolute, hNil] at hMoves
      rw [follow_cons (directory_of_follow hMoves)] at hMoves
      obtain rfl : [] = place := Except.ok.inj hMoves
      rw [entry?_nil] at hEntry
      cases hEntry
    rw [Option.getD_some]
    obtain hRootMoves | ⟨hSame, hSharp⟩ :=
      Path.moves_append_of_relativeTo? hAbsolute hNonempty hRelative
    · rw [hRootMoves] at hMoves
      rw [hRoot place hMoves] at hEntry
      cases hEntry
    · exact lookup_of_moves hSharp (hSame ▸ hMoves) hEntry

end FileTree

namespace Workspace

/-- Is a path another spelling of a stylesheet's normal path: relative and with this normal form, or
absolute? Either way it leads to the stylesheet. -/
inductive Spells (w : Workspace) (file : Path) (p : Path) : Prop
  | relative (hRelative : p.isAbsolute = false) (hNormal : p.normalize? = some file)
      (hFile : w.tree.isFile (w.root.append p) = true)
  | absolute (hAbsolute : p.isAbsolute = true)
      (hPlace : w.tree.locate p = w.tree.locate (w.root.append file))

variable {w : Workspace} {file p : Path} {css : Text}

theorem lookup_of_read (h : w.read file = .ok css) :
    w.tree.lookup (w.root.append file) = .ok (.file (.text css)) := by
  have hRead := read_eq_ok h
  rw [FileTree.read] at hRead
  split at hRead
  · cases hRead
  · cases hRead
  · cases hRead
  · rename_i hLookup
    rw [hLookup, Except.ok.inj hRead]

theorem read_of_lookup (h : w.tree.lookup (w.root.append file) = .ok (.file (.text css))) :
    w.read file = .ok css := by
  rw [Workspace.read, FileTree.read, h]

theorem exists_file_of_isFile {tree : FileTree} (h : tree.isFile p = true) :
    ∃ content, tree.lookup p = .ok (.file content) := by
  rw [FileTree.isFile] at h
  split at h
  · exact ⟨_, ‹_›⟩
  · cases h

/-- What leads to a file from the root has a directory there to start from. -/
theorem directory_of_root (hNormal : file.IsNormal) (hRead : w.read file = .ok css)
    (place : Location) (h : w.tree.follow w.tree.working w.root.moves = .ok place) :
    w.tree.entry? place = some .directory := by
  obtain ⟨names, hNonempty, hNames, rfl⟩ := hNormal.exists_names
  obtain ⟨hRelative, hMoves, -⟩ := Path.of_ofNames hNonempty hNames
  obtain ⟨sheet, hFollow, -⟩ := FileTree.exists_moves_of_file (lookup_of_read hRead)
  obtain ⟨name, rest, rfl⟩ := List.exists_cons_of_ne_nil hNonempty
  rw [Path.moves_append hRelative, FileTree.follow_append, h, hMoves] at hFollow
  exact FileTree.directory_of_follow hFollow

theorem Spells.read_within (h : w.Spells file p) (hNormal : file.IsNormal)
    (hRead : w.read file = .ok css) : w.read (.within w.root p) = .ok css := by
  have hLookup := lookup_of_read hRead
  refine read_of_lookup ?_
  cases h with
  | relative hRelative hNormalized hFile =>
    obtain ⟨content, hContent⟩ := exists_file_of_isFile hFile
    have hSame := FileTree.lookup_append_of_normalize? hRelative hNormalized hContent
    rw [hLookup] at hSame
    rw [Path.within, if_neg (by simp [hRelative]), hContent]
    exact hSame.symm
  | absolute hAbsolute hPlace =>
    refine FileTree.lookup_append_within hAbsolute (directory_of_root hNormal hRead) ?_
    rw [FileTree.lookup, hPlace]
    exact hLookup

theorem stylesheetParams_of_read (h : w.read (.within w.root p) = .ok css) :
    w.stylesheetParams p = .ok (Stylesheet.scan css (.within w.root p)) := by
  rw [stylesheetParams, h]
  rfl

/-! ## Scans -/

theorem map_names_sort (file : Path) (params : List Parameter) :
    (Parameter.sort params).map Parameter.names =
      (Parameter.sort (params.map (Parameter.inFile file))).map Parameter.names := by
  have hSort : (Parameter.sort params).map (Parameter.inFile file) =
      Parameter.sort (params.map (Parameter.inFile file)) :=
    List.map_mergeSort fun _ _ _ _ => rfl
  rw [← hSort, List.map_map]
  rfl

theorem params_scan_some (h : w.read (.within w.root p) = .ok css) :
    (w.scan (some p)).params = Parameter.sort (Stylesheet.scan css (.within w.root p) ++
      (w.project.themeParams w.settings.themeLimit).1) := by
  have hFile : w.project.isFile (.within w.root p) = true := by
    change w.tree.isFile (w.root.append (.within w.root p)) = true
    rw [FileTree.isFile.eq_def, lookup_of_read h]
  have hText : w.project.read (.within w.root p) = .ok css := by
    rw [project, FileTree.project]
    simp only [read_eq_ok h]
  have hSheet : w.project.stylesheetParams (.within w.root p) =
      (Stylesheet.scan css (.within w.root p), []) := by
    rw [Project.stylesheetParams, hText]
  rw [scan, show w.selected (some p) = some (.within w.root p) from rfl, Project.scanWith,
    Project.scanSelected, if_pos hFile, hSheet]
  rfl

/-- A stylesheet has the same names under its normal path and under another spelling if and only if
what is hashed under the two has the same hashes, and then a scan that selects it gives the same
names as well. An absolute root that is put before the normal path does not change what is
hashed. -/
theorem map_names_stylesheetParams_iff (hNormal : file.IsNormal) (hRead : w.read file = .ok css)
    (hSpells : w.Spells file p) :
    ∃ params params', w.stylesheetParams file = .ok params ∧ w.stylesheetParams p = .ok params' ∧
      (params'.map Parameter.names = params.map Parameter.names ↔
        Stylesheet.HashedAlike css file (.within w.root p)) ∧
      (Stylesheet.HashedAlike css file (.within w.root p) →
        (w.scan (some p)).params.map Parameter.names =
          (w.scan (some file)).params.map Parameter.names) ∧
      (w.root.isAbsolute = true → p = w.root.append file →
        Stylesheet.HashedAlike css file (.within w.root p)) := by
  have hSpelled := hSpells.read_within hNormal hRead
  have hOwn : Path.within w.root file = file := by
    obtain ⟨names, hNonempty, hNames, rfl⟩ := hNormal.exists_names
    obtain ⟨hRelative, -⟩ := Path.of_ofNames hNonempty hNames
    rw [Path.within, if_neg (by simp [hRelative])]
  have hFile : w.read (.within w.root file) = .ok css := by rwa [hOwn]
  have hParams := stylesheetParams_of_read hFile
  have hScan := params_scan_some hFile
  rw [hOwn] at hParams hScan
  refine ⟨_, _, hParams, stylesheetParams_of_read hSpelled,
    Stylesheet.map_names_scan_eq_iff css file _, fun hAlike => ?_, fun hRoot hPath => ?_⟩
  · have hSelf : Stylesheet.HashedAlike css file file := fun d _ => rfl
    rw [hScan, params_scan_some hSpelled, map_names_sort file, map_names_sort file (_ ++ _),
      List.map_append, List.map_append, Stylesheet.map_inFile_scan hAlike,
      Stylesheet.map_inFile_scan hSelf]
  · intro d _
    rw [hPath, hNormal.within_append hRoot]

/-- A leading `.` gives a margin another name. -/
theorem map_names_stylesheetParams_dot :
    let tree := (FileTree.empty ["site".toList]).insert ["site".toList, "a.css".toList]
      (.file (.text "p \x7B margin: 4px \x7D".toList))
    let w : Workspace := ⟨tree, .ofString ".", .default⟩
    w.Spells (.ofString "a.css") (.ofString "./a.css") ∧
      ∃ params params', w.stylesheetParams (.ofString "a.css") = .ok params ∧
        w.stylesheetParams (.ofString "./a.css") = .ok params' ∧
        params'.map Parameter.names ≠ params.map Parameter.names := by
  intro tree w
  have hSpells : w.Spells (.ofString "a.css") (.ofString "./a.css") :=
    .relative (by decide) (by decide) (by decide +kernel)
  have hRead : w.read (.ofString "a.css") = .ok "p \x7B margin: 4px \x7D".toList := by
    decide +kernel
  obtain ⟨params, params', hFile, hSpelled, hNames, -⟩ :=
    map_names_stylesheetParams_iff (by decide) hRead hSpells
  have hHashes : ¬ Stylesheet.HashedAlike "p \x7B margin: 4px \x7D".toList (.ofString "a.css")
      (.within w.root (.ofString "./a.css")) := by
    decide +kernel
  exact ⟨hSpells, params, params', hFile, hSpelled, fun hSame => hHashes (hNames.mp hSame)⟩

end Workspace

end DesignParams
