import DesignParams.Proofs.CommandLine.Written

/-!
# What an application of the edit leaves behind

The command `apply` writes the stylesheet and then the configuration. It fails before it has
written anything, or while it writes the configuration; then the stylesheet is already rewritten.
-/
set_option autoImplicit false

namespace DesignParams

namespace Workspace

/-- An edit is made to the stylesheet of the scan, which can be read. -/
theorem of_plan {w : Workspace} {chosen : Option Path} {values : Overrides} {now : Instant}
    {plan : EditPlan} {current : Text} (h : w.plan chosen values now = .ok (plan, current)) :
    (w.scan chosen).stylesheet = some plan.file ∧ w.read plan.file = .ok current := by
  rw [Workspace.plan] at h
  split at h
  · cases h
  · rename_i file hFile
    split at h
    · cases h
    · rename_i text hText
      split at h
      · cases h
      · rename_i edit hEdit
        obtain ⟨rfl, rfl⟩ := Prod.mk.inj (Except.ok.inj h)
        rw [ProjectScan.plan?, hFile, Option.map_some, Option.some.injEq] at hEdit
        rw [← hEdit]
        exact ⟨hFile, hText⟩

theorem read_eq_ok {w : Workspace} {p : Path} {content : Text} (h : w.read p = .ok content) :
    w.tree.read (w.root.append p) = .ok content := by
  rw [Workspace.read] at h
  split at h
  · rename_i hRead
    rw [hRead, Except.ok.inj h]
  · cases h

theorem tree_of_load {tree : FileTree} {root : Path} {w : Workspace} (h : load tree root = .ok w) :
    w.tree = tree := by
  rw [load] at h
  split at h
  · cases hSettings : loadSettings tree root with
    | error e =>
      rw [hSettings] at h
      cases h
    | ok s =>
      rw [hSettings] at h
      rw [← Except.ok.inj h]
  · cases h

/-- Is this the edit that `apply` makes, to the stylesheet at this place? -/
structure Applies (w : Workspace) (chosen overrides : Option Path) (now : Instant)
    (plan : EditPlan) (place : Location) : Prop where
  planned : ∃ values current,
    w.loadOverrides overrides = .ok values ∧ w.plan chosen values now = .ok (plan, current)
  located : w.tree.locate (w.root.append plan.file) = .ok place

/-- How an application of the edit ends, and which texts it has then written, the last one first. -/
inductive Ends (w : Workspace) (chosen overrides : Option Path) (now : Instant) (after : FileTree) :
    List (Location × Text) → Except CommandFault Report → Prop
  | early (fault : CommandFault) : Ends w chosen overrides now after [] (.error fault)
  | late {plan : EditPlan} {place : Location} (edit : Applies w chosen overrides now plan place)
      (cause : FileFault) :
      Ends w chosen overrides now after [(place, plan.content)]
        (.error (.write (w.root.append w.settings.configFile) cause))
  | done {plan : EditPlan} {place configPlace : Location}
      (edit : Applies w chosen overrides now plan place)
      (located : after.locate (w.root.append w.settings.configFile) = .ok configPlace)
      (report : Report) :
      Ends w chosen overrides now after
        [(configPlace, documentText plan.config.toJson), (place, plan.content)] (.ok report)

/-- The run stops in front of the stylesheet, in front of the configuration, or at the end. -/
theorem ends_of_stops {w : Workspace} {chosen overrides : Option Path} {now : Instant}
    {plan : EditPlan} {place : Location} {after : FileTree} {done rest : List (Path × Text)}
    {texts : List (Location × Text)} {fault : Option CommandFault}
    (hEdit : Applies w chosen overrides now plan place)
    (hWritten : FileTree.Written w.tree texts.reverse after)
    (hFiles : [(plan.file, plan.content), (w.settings.configFile, documentText plan.config.toJson)] =
      done ++ rest)
    (hPlaced : List.Forall₂ (IsPlaced after w.root) done texts) (hStops : Stops w rest fault) :
    match fault with
    | some e => Ends w chosen overrides now after texts.reverse (.error e)
    | none => ∀ report, Ends w chosen overrides now after texts.reverse (.ok report) := by
  have hPlace := hWritten.locate hEdit.located
  cases hPlaced with
  | nil =>
    obtain rfl := hFiles
    cases hStops with
    | fault p content rest cause => exact .early _
  | @cons file text done texts hFirst hPlaced =>
    obtain ⟨rfl, hBehind⟩ := List.cons.inj hFiles
    obtain ⟨first, content⟩ := text
    obtain ⟨rfl, hLocate⟩ := hFirst
    obtain rfl : place = first := Except.ok.inj (hPlace.symm.trans hLocate)
    cases hPlaced with
    | nil =>
      obtain rfl := hBehind
      cases hStops with
      | fault p content rest cause => exact .late hEdit cause
    | @cons file text done texts hSecond hPlaced =>
      obtain ⟨rfl, hEnd⟩ := List.cons.inj hBehind
      obtain ⟨configPlace, content⟩ := text
      obtain ⟨rfl, hConfig⟩ := hSecond
      obtain ⟨rfl, rfl⟩ := List.append_eq_nil_iff.mp hEnd.symm
      cases hPlaced
      cases hStops
      exact fun report => .done hEdit hConfig report

theorem exists_written_apply {w : Workspace} {chosen overrides : Option Path} {now : Instant}
    {after : FileTree} {result : Except CommandFault Report}
    (h : w.apply chosen overrides now = (after, result)) :
    ∃ texts, FileTree.Written w.tree texts after ∧
      Ends w chosen overrides now after texts result := by
  rw [apply] at h
  split at h
  · rename_i e _
    obtain ⟨rfl, rfl⟩ := Prod.mk.inj h
    exact ⟨[], .refl w.tree, .early e⟩
  · rename_i values hValues
    split at h
    · rename_i e _
      obtain ⟨rfl, rfl⟩ := Prod.mk.inj h
      exact ⟨[], .refl w.tree, .early e⟩
    · rename_i plan current hPlan
      obtain ⟨place, hLocate⟩ := FileTree.exists_place_of_read (read_eq_ok (of_plan hPlan).2)
      have hEdit : Applies w chosen overrides now plan place :=
        ⟨⟨values, current, hValues, hPlan⟩, hLocate⟩
      rw [writeReported] at h
      generalize hRun : w.writeAll [(plan.file, plan.content),
        (w.settings.configFile, documentText plan.config.toJson)] = run at h
      obtain ⟨written, fault⟩ := run
      obtain ⟨done, rest, texts, hFiles, hPlaced, hWritten, hStops⟩ := exists_written_writeAll hRun
      have hEnds := ends_of_stops hEdit hWritten hFiles hPlaced hStops
      cases fault with
      | none =>
        obtain ⟨rfl, rfl⟩ := Prod.mk.inj h
        exact ⟨texts.reverse, hWritten, hEnds _⟩
      | some e =>
        obtain ⟨rfl, rfl⟩ := Prod.mk.inj h
        exact ⟨texts.reverse, hWritten, hEnds⟩

end Workspace

namespace Arguments

def sheetPlace : Location :=
  ["site".toList, "a.css".toList]

def site : FileTree :=
  (FileTree.empty ["site".toList]).insert sheetPlace (.file (.text "p \x7B margin: 4px \x7D".toList))

def obstructed : FileTree :=
  site.insert ["site".toList, "rig.config.json".toList] .directory

def overlaid : FileTree :=
  site.insert ["site".toList, "rigger.yaml".toList] (.file (.text "config_file: a.css".toList))

def applying : Arguments :=
  ⟨.ofString ".", .json, false, .apply (some (.ofString "a.css")) none⟩

theorem run_obstructed :
    (applying.run obstructed ⟨0, 0⟩).2 =
        .error (.write (.ofString "./rig.config.json") .isADirectory) ∧
      (applying.run obstructed ⟨0, 0⟩).1.file? sheetPlace ≠ obstructed.file? sheetPlace := by
  decide +kernel

theorem run_overlaid :
    (applying.run overlaid ⟨0, 0⟩).2.toOption.isSome = true ∧
      (Workspace.load overlaid applying.root).map (fun w =>
        (w.root.append w.settings.configFile,
          (w.scan (some (.ofString "a.css"))).stylesheet.map w.root.append)) =
        .ok (.ofString "./a.css", some (.ofString "./a.css")) ∧
      overlaid.locate (.ofString "./a.css") = .ok sheetPlace := by
  decide +kernel

end Arguments

end DesignParams
