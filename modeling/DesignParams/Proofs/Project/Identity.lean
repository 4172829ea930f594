import DesignParams.Project.Scan
import DesignParams.Proofs.Stylesheet.Name
import DesignParams.Proofs.Theme.Name

/-!
# Identity across a scan

The parameters of a stylesheet are told apart by a search for a free name, those of a theme by a
count that is not checked against the other slugs. So the identities of a scan are distinct exactly
when the slugs of the theme are separate; the stylesheet never takes part in a clash.
-/
set_option autoImplicit false

namespace DesignParams

namespace Project

open Stylesheet (stem_ne_theme)

theorem nodup_append_map_iff {lead other : Text} {stems names : List Text} (hStems : stems.Nodup)
    (hApart : ∀ s ∈ stems, ∀ name, lead ++ s ≠ other ++ name) :
    (stems.map (lead ++ ·) ++ names.map (other ++ ·)).Nodup ↔ names.Nodup := by
  rw [List.nodup_append']
  constructor
  · rintro ⟨-, hNames, -⟩
    exact List.Nodup.of_map _ hNames
  · intro hNames
    refine ⟨List.Nodup.map (fun _ _ h => List.append_cancel_left h) hStems,
      List.Nodup.map (fun _ _ h => List.append_cancel_left h) hNames, ?_⟩
    intro text hStem hName
    obtain ⟨s, hs, rfl⟩ := List.mem_map.mp hStem
    obtain ⟨name, -, hEq⟩ := List.mem_map.mp hName
    exact hApart s hs name hEq.symm

def themeEntries (project : Project) (limit : Nat) : List Theme.Entry :=
  match themeFile? project with
  | none => []
  | some file =>
    match project.read file with
    | .error _ => []
    | .ok source => Theme.selected source limit

theorem themeParams_eq (project : Project) (limit : Nat) :
    (project.themeParams limit).1 =
      Theme.scan ((project.themeFile?.bind project.content?).getD []) (project.themeFile?.getD ⟨[]⟩)
        limit := by
  rw [themeParams]
  cases project.themeFile? with
  | none => exact (Theme.scan_nil ⟨[]⟩ limit).symm
  | some file =>
    simp only
    rw [Option.bind_some, content?]
    cases project.read file with
    | ok source => rfl
    | error e => exact (Theme.scan_nil file limit).symm

theorem exists_themeParams (project : Project) (limit : Nat) :
    ∃ file, (project.themeParams limit).1 = Theme.named file [] (project.themeEntries limit) := by
  rw [themeParams, themeEntries]
  cases project.themeFile? with
  | none => exact ⟨⟨[]⟩, rfl⟩
  | some file =>
    simp only
    cases project.read file with
    | error e => exact ⟨file, rfl⟩
    | ok source => exact ⟨file, Theme.scan_eq_named source file limit⟩

theorem stylesheetParams_eq (project : Project) (file : Path) :
    (project.stylesheetParams file).1 =
      Stylesheet.scan ((project.content? file).getD []) file := by
  rw [stylesheetParams, content?]
  cases project.read file with
  | ok css => rfl
  | error e => exact (Stylesheet.scan_nil file).symm

theorem exists_stylesheetParams (project : Project) (file : Path) :
    ∃ declarations, (project.stylesheetParams file).1 = Stylesheet.named file [] declarations :=
  ⟨_, project.stylesheetParams_eq file⟩

/-- The parameters of the main stylesheet and of the theme, as they are found. -/
def extracted (project : Project) (selected : Option Path) (options : ScanOptions) :
    List Parameter :=
  ((project.scanWith selected options).stylesheet.map (project.stylesheetParams · |>.1)).getD [] ++
    (project.themeParams options.themeLimit).1

theorem params_scanWith (project : Project) (selected : Option Path) (options : ScanOptions) :
    (project.scanWith selected options).params =
      Parameter.sort (project.extracted selected options) := by
  rw [extracted]
  cases selected with
  | none =>
    have hSheet : (project.scanWith none options).stylesheet =
        (project.candidates project.kind.1 options.samples).head?.map (·.file) := rfl
    have hParams : (project.scanWith none options).params = Parameter.sort
        (((((project.candidates project.kind.1 options.samples).head?.map (·.file)).map
          project.stylesheetParams).getD ([], [])).1 ++
            (project.themeParams options.themeLimit).1) := rfl
    rw [hParams, hSheet]
    cases (project.candidates project.kind.1 options.samples).head? with
    | none => rfl
    | some candidate => rfl
  | some path =>
    rw [scanWith, scanSelected]
    cases project.isFile path with
    | false => rfl
    | true => rfl

theorem exists_extracted (project : Project) (selected : Option Path) (options : ScanOptions) :
    ∃ file declarations themeFile, project.extracted selected options =
      Stylesheet.named file [] declarations ++
        Theme.named themeFile [] (project.themeEntries options.themeLimit) := by
  obtain ⟨themeFile, hTheme⟩ := exists_themeParams project options.themeLimit
  rw [extracted, hTheme]
  cases (project.scanWith selected options).stylesheet with
  | none => exact ⟨⟨[]⟩, [], themeFile, rfl⟩
  | some path =>
    obtain ⟨declarations, hSheet⟩ := exists_stylesheetParams project path
    exact ⟨path, declarations, themeFile, by rw [← hSheet]; rfl⟩

theorem exists_scanWith (project : Project) (selected : Option Path) (options : ScanOptions) :
    ∃ file declarations themeFile, (project.scanWith selected options).params =
      Parameter.sort (Stylesheet.named file [] declarations ++
        Theme.named themeFile [] (project.themeEntries options.themeLimit)) := by
  obtain ⟨file, declarations, themeFile, hExtracted⟩ := exists_extracted project selected options
  exact ⟨file, declarations, themeFile, by rw [params_scanWith, hExtracted]⟩

/-- The ids of a scan are distinct, and so are its custom properties, exactly when no slug of its
theme entries is the numbered name of another one. -/
theorem nodup_params_iff (project : Project) (selected : Option Path) (options : ScanOptions) :
    (((project.scanWith selected options).params.map (·.id)).Nodup ↔
        Theme.Separate (project.themeEntries options.themeLimit)) ∧
      (((project.scanWith selected options).params.map (·.customProperty)).Nodup ↔
        Theme.Separate (project.themeEntries options.themeLimit)) := by
  obtain ⟨file, declarations, themeFile, hParams⟩ := exists_scanWith project selected options
  obtain ⟨hStems, -⟩ := Stylesheet.nodup_stems file [] declarations
  obtain ⟨hSheetId, hSheetName⟩ := Stylesheet.map_named file [] declarations
  obtain ⟨hThemeId, hThemeName⟩ :=
    Theme.map_named themeFile [] (project.themeEntries options.themeLimit)
  have hPerm : (project.scanWith selected options).params.Perm
      (Stylesheet.named file [] declarations ++
        Theme.named themeFile [] (project.themeEntries options.themeLimit)) := by
    rw [hParams]
    exact List.mergeSort_perm _ _
  constructor
  · rw [(hPerm.map _).nodup_iff, List.map_append, hSheetId, hThemeId,
      nodup_append_map_iff hStems, Theme.nodup_names_iff, Theme.Separate]
    intro s hs name hEq
    exact stem_ne_theme (Stylesheet.isStem_of_mem hs) '.' name (List.append_cancel_left hEq)
  · rw [(hPerm.map _).nodup_iff, List.map_append, hSheetName, hThemeName,
      nodup_append_map_iff hStems, Theme.nodup_names_iff, Theme.Separate]
    intro s hs name hEq
    exact stem_ne_theme (Stylesheet.isStem_of_mem hs) '-' name (List.append_cancel_left hEq)

end Project

end DesignParams
