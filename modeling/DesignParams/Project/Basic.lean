import DesignParams.Path

/-!
# Projects

A project is seen through five questions: where its root is, whether a path is one of its files,
what a file holds, and which stylesheets and scripts it lists. Paths are relative to the root.
-/
set_option autoImplicit false

namespace DesignParams

structure Project where
  root : Path
  isFile : Path → Bool
  /-- The text of a file, or why it cannot be read. -/
  read : Path → Except Text Text
  /-- The stylesheets, in path order. -/
  stylesheets : List Path
  /-- The scripts, in path order. -/
  scripts : List Path

namespace Project

def stylesheetExtensions : List Text :=
  ["css".toList]

def scriptExtensions : List Text :=
  ["ts".toList, "tsx".toList, "js".toList, "jsx".toList]

abbrev Files := List (Path × Text)

namespace Files

/-- Enters a file in its place; an equal path keeps its spelling and takes the new text. -/
def insert (path : Path) (content : Text) : Files → Files
  | [] => [(path, content)]
  | (p, t) :: files =>
    match Path.order path p with
    | .lt => (path, content) :: (p, t) :: files
    | .eq => (p, content) :: files
    | .gt => (p, t) :: insert path content files

def erase (path : Path) (files : Files) : Files :=
  files.filter fun file => !Path.same file.1 path

def find? (path : Path) (files : Files) : Option Text :=
  (List.find? (fun file => Path.same file.1 path) files).map (·.2)

def ofList (entries : List (Path × Text)) : Files :=
  entries.foldl (fun files file => insert file.1 file.2 files) []

end Files

def ofFiles (root : Path) (files : Files) : Project where
  root
  isFile path := (Files.find? path files).isSome
  read path :=
    match Files.find? path files with
    | some content => .ok content
    | none => .error (path.text ++ " not in project".toList)
  stylesheets := (files.map (·.1)).filter (·.hasExtension stylesheetExtensions)
  scripts := (files.map (·.1)).filter (·.hasExtension scriptExtensions)

def content? (project : Project) (path : Path) : Option Text :=
  (project.read path).toOption

end Project

end DesignParams
