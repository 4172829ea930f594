import DesignParams.Project.Kind
import DesignParams.Theme.Scan

/-!
# The theme configuration of a project

The first theme file that a project has gives parameters. A project that has none but depends on a
theme is reported, and so is a file that cannot be read.
-/
set_option autoImplicit false

namespace DesignParams

namespace Project

/-- Where the theme configuration may stand; the first of these files counts. -/
def themeFiles : List Path :=
  [.ofString "tailwind.config.js", .ofString "tailwind.config.cjs",
    .ofString "tailwind.config.mjs", .ofString "tailwind.config.ts"]

def themeFile? (project : Project) : Option Path :=
  themeFiles.find? project.isFile

def missingTheme (project : Project) : List Text :=
  match dependencies? project with
  | some (.ok names) =>
    if names.contains "tailwindcss".toList then
      ["Tailwind dependency found, but no tailwind.config file detected.".toList]
    else []
  | some (.error e) => ["Failed to parse package.json for Tailwind: ".toList ++ e]
  | none => []

def themeParams (project : Project) (limit : Nat) : List Parameter × List Text :=
  match themeFile? project with
  | none => ([], missingTheme project)
  | some file =>
    match project.read file with
    | .error e => ([], ["Tailwind parse failed: ".toList ++ e])
    | .ok source =>
      let params := Theme.scan source file limit
      (params, ["Tailwind tokens: ".toList ++ Text.ofNat params.length ++ " from ".toList ++
        file.fileName?.getD []])

end Project

end DesignParams
