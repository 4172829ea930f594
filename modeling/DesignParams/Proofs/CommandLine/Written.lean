import DesignParams.CommandLine.Run
import Mathlib.Data.List.Forall2

/-!
# What writing leaves behind

Writing a file makes the directories that lead to it and touches no other file. So a run of writes
that stops at a fault has written the files before the one that could not be written, and those
alone.
-/
set_option autoImplicit false

namespace DesignParams

namespace FileTree

def file? (tree : FileTree) (location : Location) : Option FileContent :=
  match tree.entry? location with
  | some (.file content) => some content
  | _ => none

theorem lookup_filter_ne {location other : Location} (h : other ≠ location)
    (entries : List (Location × FileEntry)) :
    (entries.filter (·.1 ≠ location)).lookup other = entries.lookup other := by
  induction entries with
  | nil => rfl
  | cons e entries ih =>
    rw [List.lookup_cons]
    by_cases hSame : e.1 = location
    · have hOther : (other == e.1) = false := by simpa [hSame] using h
      rw [List.filter_cons_of_neg (by simp [hSame]), ih, hOther]
    · rw [List.filter_cons_of_pos (by simpa using hSame), List.lookup_cons, ih]

theorem entry?_insert (tree : FileTree) {location : Location} (h : location ≠ [])
    (entry : FileEntry) (other : Location) :
    entry? (tree.insert location entry) other =
      if other = location then some entry else tree.entry? other := by
  unfold entry? FileTree.insert
  by_cases hSame : other = location
  · rw [if_pos hSame, hSame, if_neg h, List.lookup_cons_self]
  · have hOther : (other == location) = false := by simpa using hSame
    rw [if_neg hSame, List.lookup_cons, hOther, lookup_filter_ne hSame]

/-! ## Trees after some texts were written -/

theorem map_lookup_cons_or (place : Location) (content : Text) (texts : List (Location × Text))
    (location : Location) (earlier : Option FileContent) :
    ((((place, content) :: texts).lookup location).map .text).or earlier =
      if location = place then some (.text content)
      else ((texts.lookup location).map .text).or earlier := by
  rw [List.lookup_cons]
  by_cases hSame : location = place
  · rw [if_pos hSame, beq_iff_eq.mpr hSame]
    rfl
  · have hOther : (location == place) = false := by simpa using hSame
    rw [if_neg hSame, hOther]

/-- Does a tree hold what an earlier one held, but for texts that were written, the last one first,
and for new directories? -/
structure Written (before : FileTree) (texts : List (Location × Text)) (after : FileTree) :
    Prop where
  working : after.working = before.working
  file? : ∀ location,
    after.file? location = ((texts.lookup location).map .text).or (before.file? location)
  directory : ∀ location,
    before.entry? location = some .directory → after.entry? location = some .directory

section

variable {before middle after : FileTree} {texts more : List (Location × Text)}

theorem Written.refl (tree : FileTree) : Written tree [] tree where
  working := rfl
  file? _ := rfl
  directory _ h := h

theorem Written.trans (h : Written before texts middle) (h' : Written middle more after) :
    Written before (more ++ texts) after where
  working := h'.working.trans h.working
  file? location := by
    rw [h'.file?, h.file?, List.lookup_append, Option.map_or, Option.or_assoc]
  directory location hBefore := h'.directory location (h.directory location hBefore)

theorem Written.file?_of_nil (h : Written before [] after) (location : Location) :
    after.file? location = before.file? location :=
  h.file? location

/-- What could be reached before can still be reached. -/
theorem Written.follow (h : Written before texts after) {start location : Location}
    {steps : List Path.Component} (hFollow : before.follow start steps = .ok location) :
    after.follow start steps = .ok location := by
  induction steps generalizing start with
  | nil => exact hFollow
  | cons c rest ih =>
    rw [FileTree.follow] at hFollow ⊢
    split at hFollow
    · rename_i hDirectory
      rw [h.directory start hDirectory]
      exact ih hFollow
    · cases hFollow
    · cases hFollow

theorem Written.locate (h : Written before texts after) {p : Path} {place : Location}
    (hLocate : before.locate p = .ok place) : after.locate p = .ok place := by
  rw [FileTree.locate, h.working]
  exact h.follow hLocate

end

/-! ## Directories -/

theorem entry?_nil (tree : FileTree) : tree.entry? [] = some .directory :=
  if_pos rfl

theorem written_insert_directory {tree : FileTree} {location : Location}
    (h : tree.entry? location = none) : Written tree [] (tree.insert location .directory) := by
  have hLocation : location ≠ [] := by
    rintro rfl
    rw [entry?_nil] at h
    cases h
  refine ⟨rfl, fun other => ?_, fun other hOther => ?_⟩
  · rw [file?, file?, entry?_insert tree hLocation]
    by_cases hSame : other = location
    · rw [if_pos hSame, hSame, h]
      rfl
    · rw [if_neg hSame]
      rfl
  · rw [entry?_insert tree hLocation]
    split
    · rfl
    · exact hOther

theorem written_makeDirectory {tree after : FileTree} {steps : List Path.Component}
    (h : tree.makeDirectory steps = .ok after) : Written tree [] after := by
  rw [makeDirectory] at h
  split at h
  · cases h
  · split at h
    · cases h
    · rename_i hNone
      obtain rfl := Except.ok.inj h
      exact written_insert_directory hNone

theorem written_ensureDirectory (tree : FileTree) (steps : List Path.Component) :
    Written tree [] (tree.ensureDirectory steps).1 := by
  rw [ensureDirectory]
  split
  · rename_i hMade
    exact written_makeDirectory hMade
  · exact .refl tree

theorem written_ensureDirectories (tree : FileTree) (steps : List Path.Component) :
    Written tree [] (tree.ensureDirectories steps).1 := by
  induction steps generalizing tree with
  | nil => exact .refl tree
  | cons last before ih =>
    have hFirst := written_ensureDirectory tree (last :: before).reverse
    rw [ensureDirectories]
    split
    · rename_i first hMissing
      rw [hMissing] at hFirst
      have hBefore := hFirst.trans (ih first)
      split
      · rename_i second hMade
        rw [hMade] at hBefore
        exact hBefore.trans (written_ensureDirectory second (last :: before).reverse)
      · exact hBefore
    · exact hFirst

/-! ## Where paths lead -/

theorem follow_append (tree : FileTree) (start : Location) (front back : List Path.Component) :
    tree.follow start (front ++ back) = (tree.follow start front).bind (tree.follow · back) := by
  induction front generalizing start with
  | nil => rfl
  | cons c front ih =>
    rw [List.cons_append, follow, follow]
    split
    · exact ih (step start c)
    · rfl
    · rfl

theorem exists_place_of_lookup {tree : FileTree} {p : Path} {entry : FileEntry}
    (h : tree.lookup p = .ok entry) :
    ∃ place, tree.locate p = .ok place ∧ tree.entry? place = some entry := by
  rw [lookup] at h
  split at h
  · cases h
  · rename_i place hLocate
    split at h
    · rename_i found hEntry
      obtain rfl := Except.ok.inj h
      exact ⟨place, hLocate, hEntry⟩
    · cases h

theorem locate_of_file {tree : FileTree} {p : Path} {place : Location} {content : FileContent}
    (h : tree.locate p = .ok place) (hEntry : tree.entry? place = some (.file content)) :
    tree.locate p = tree.follow tree.working p.steps := by
  rw [locate] at h ⊢
  split
  · -- A final slash leads on only from a directory, and there it stays.
    rename_i hSlash
    rw [if_pos hSlash, follow_append] at h
    cases hSteps : tree.follow tree.working p.steps with
    | error e =>
      rw [hSteps] at h
      cases h
    | ok location =>
      rw [hSteps, Except.bind, follow] at h
      split at h
      · rename_i hDirectory
        obtain rfl : location = place := Except.ok.inj h
        rw [hDirectory] at hEntry
        cases hEntry
      · cases h
      · cases h
  · rw [List.append_nil]

/-! ## Files -/

theorem written_writeText {tree after : FileTree} {p : Path} {content : Text}
    (h : tree.writeText p content = (after, none)) :
    ∃ place, Written tree [(place, content)] after ∧ after.locate p = .ok place := by
  rw [writeText] at h
  split at h
  · cases h
  · rename_i place hFollow
    split at h
    · cases h
    · rename_i hFree
      obtain ⟨rfl, -⟩ := Prod.mk.inj h
      rw [Bool.or_eq_true, not_or, decide_eq_true_eq] at hFree
      obtain ⟨hSlash, hDirectory⟩ := hFree
      have hPlace : place ≠ [] := by
        rintro rfl
        exact hDirectory tree.entry?_nil
      have hWritten : Written tree [(place, content)] (tree.insert place (.file (.text content))) := by
        refine ⟨rfl, fun other => ?_, fun other hOther => ?_⟩
        · rw [map_lookup_cons_or, file?, entry?_insert tree hPlace]
          by_cases hSame : other = place
          · rw [if_pos hSame, if_pos hSame]
          · rw [if_neg hSame, if_neg hSame]
            rfl
        · rw [entry?_insert tree hPlace, if_neg]
          · exact hOther
          · rintro rfl
            exact hDirectory hOther
      refine ⟨place, hWritten, hWritten.locate ?_⟩
      rw [locate, if_neg hSlash, List.append_nil, hFollow]

theorem writeText_of_fault {tree after : FileTree} {p : Path} {content : Text} {e : FileFault}
    (h : tree.writeText p content = (after, some e)) : after = tree := by
  rw [writeText] at h
  split at h
  · exact (Prod.mk.inj h).1.symm
  · split at h
    · exact (Prod.mk.inj h).1.symm
    · cases h

/-- A write that succeeds puts its text where the path then leads. -/
theorem written_write {tree after : FileTree} {p : Path} {content : Text}
    (h : tree.write p content = (after, none)) :
    ∃ place, Written tree [(place, content)] after ∧ after.locate p = .ok place := by
  have hMade := tree.written_ensureDirectories p.components.dropLast.reverse
  rw [write] at h
  split at h
  · cases h
  · rename_i middle hMiddle
    rw [hMiddle] at hMade
    obtain ⟨place, hText, hLocate⟩ := written_writeText h
    exact ⟨place, hMade.trans hText, hLocate⟩

theorem written_write_of_fault {tree after : FileTree} {p : Path} {content : Text} {e : FileFault}
    (h : tree.write p content = (after, some e)) : Written tree [] after := by
  have hMade := tree.written_ensureDirectories p.components.dropLast.reverse
  rw [write] at h
  split at h
  · rename_i hMiddle
    rw [hMiddle] at hMade
    obtain ⟨rfl, -⟩ := Prod.mk.inj h
    exact hMade
  · rename_i hMiddle
    rw [hMiddle] at hMade
    rw [writeText_of_fault h]
    exact hMade

theorem exists_place_of_read {tree : FileTree} {p : Path} {content : Text}
    (h : tree.read p = .ok content) : ∃ place, tree.locate p = .ok place := by
  rw [read] at h
  split at h
  · cases h
  · cases h
  · cases h
  · rename_i hLookup
    obtain ⟨place, hLocate, -⟩ := exists_place_of_lookup hLookup
    exact ⟨place, hLocate⟩

end FileTree

/-! ## Runs of writes -/

namespace Workspace

def IsPlaced (tree : FileTree) (root : Path) (file : Path × Text) (text : Location × Text) : Prop :=
  text.2 = file.2 ∧ tree.locate (root.append file.1) = .ok text.1

theorem IsPlaced.of_written {before after : FileTree} {texts : List (Location × Text)} {root : Path}
    (hWritten : FileTree.Written before texts after) {file : Path × Text} {text : Location × Text}
    (h : IsPlaced before root file text) : IsPlaced after root file text :=
  ⟨h.1, hWritten.locate h.2⟩

/-- How far a run of writes comes: all of it, or up to a file that cannot be written. -/
inductive Stops (w : Workspace) : List (Path × Text) → Option CommandFault → Prop
  | done : Stops w [] none
  | fault (p : Path) (content : Text) (rest : List (Path × Text)) (cause : FileFault) :
      Stops w ((p, content) :: rest) (some (.write (w.root.append p) cause))

theorem write_eq (w : Workspace) (p : Path) (content : Text) :
    w.write p content =
      ({ w with tree := (w.tree.write (w.root.append p) content).1 },
        (w.tree.write (w.root.append p) content).2.map (.write (w.root.append p))) := by
  rw [write]
  split
  · rename_i hWrite
    rw [hWrite]
    rfl
  · rename_i hWrite
    rw [hWrite]
    rfl

/-- A run of writes has written the files before the one it stops at, each where its path leads. -/
theorem exists_written_writeAll {w after : Workspace} {files : List (Path × Text)}
    {fault : Option CommandFault} (h : w.writeAll files = (after, fault)) :
    ∃ done rest texts, files = done ++ rest ∧
      List.Forall₂ (IsPlaced after.tree w.root) done texts ∧
      FileTree.Written w.tree texts.reverse after.tree ∧ Stops w rest fault := by
  induction files generalizing w with
  | nil =>
    obtain ⟨rfl, rfl⟩ := Prod.mk.inj h
    exact ⟨[], [], [], rfl, .nil, .refl w.tree, .done⟩
  | cons file files ih =>
    obtain ⟨p, content⟩ := file
    rw [writeAll, write_eq] at h
    cases hWrite : w.tree.write (w.root.append p) content with
    | mk tree written =>
      rw [hWrite] at h
      cases written with
      | some cause =>
        obtain ⟨rfl, rfl⟩ := Prod.mk.inj h
        exact ⟨[], _, [], rfl, .nil, FileTree.written_write_of_fault hWrite,
          .fault p content files cause⟩
      | none =>
        obtain ⟨place, hFirst, hLocate⟩ := FileTree.written_write hWrite
        obtain ⟨done, rest, texts, rfl, hPlaced, hRest, hStops⟩ := ih h
        have hHere : IsPlaced tree w.root (p, content) (place, content) := ⟨rfl, hLocate⟩
        refine ⟨(p, content) :: done, rest, (place, content) :: texts, rfl,
          .cons (hHere.of_written hRest) hPlaced, ?_, ?_⟩
        · rw [List.reverse_cons]
          exact hFirst.trans hRest
        · cases hStops with
          | done => exact .done
          | fault p content rest cause => exact .fault p content rest cause

end Workspace

end DesignParams
