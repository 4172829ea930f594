import DesignParams.Project.Basic

/-!
# File trees

A file tree holds files and directories by location, which is the list of names that leads to them
from the root. Relative paths start from the working directory. A path is followed name by name,
so every name but the last has to be that of a directory, and `..` leads out of the directory it
stands in.
-/
set_option autoImplicit false

namespace DesignParams

/-- The names that lead from the root of a file tree to a place in it. -/
abbrev Location := List Text

inductive FileContent where
  | text (content : Text)
  /-- Bytes that are no text. -/
  | binary
deriving DecidableEq, Repr

def FileContent.ofBytes (bytes : ByteArray) : FileContent :=
  match String.fromUTF8? bytes with
  | some s => .text s.toList
  | none => .binary

inductive FileEntry where
  | file (content : FileContent)
  | directory
deriving DecidableEq, Repr

inductive FileFault where
  | notFound
  | alreadyExists
  | notADirectory
  | isADirectory
  | notText
deriving DecidableEq, Repr

namespace FileFault

def message : FileFault → Text
  | .notFound => "No such file or directory (os error 2)".toList
  | .alreadyExists => "File exists (os error 17)".toList
  | .notADirectory => "Not a directory (os error 20)".toList
  | .isADirectory => "Is a directory (os error 21)".toList
  | .notText => "stream did not contain valid UTF-8".toList

end FileFault

namespace Path

def hasFinalSlash (p : Path) : Bool :=
  p.text.getLast? = some '/'

/-- The steps that lead along a path. Every `.` counts, for it stands in a directory. -/
def steps (p : Path) : List Component :=
  (if p.isAbsolute then [.root] else []) ++
    ((Text.splitOn '/' p.text).filter (· ≠ [])).map fun segment =>
      if segment = ['.'] then .current else .ofSegment segment

end Path

structure FileTree where
  entries : List (Location × FileEntry)
  /-- Where relative paths start. -/
  working : Location
deriving DecidableEq, Repr

namespace FileTree

/-- What stands at a location. The root is a directory. -/
def entry? (tree : FileTree) (location : Location) : Option FileEntry :=
  if location = [] then some .directory else tree.entries.lookup location

def insert (tree : FileTree) (location : Location) (entry : FileEntry) : FileTree :=
  { tree with
    entries := (location, entry) :: tree.entries.filter (·.1 ≠ location) }

/-- Puts an entry at a location below another one and makes directories of the names between. -/
def place (tree : FileTree) (entry : FileEntry) (above : Location) : Location → FileTree
  | [] => tree
  | [name] => tree.insert (above ++ [name]) entry
  | name :: names => (tree.insert (above ++ [name]) .directory).place entry (above ++ [name]) names

def empty (working : Location) : FileTree :=
  (FileTree.mk [] working).place .directory [] working

def step (directory : Location) : Path.Component → Location
  | .root => []
  | .current => directory
  | .parent => directory.dropLast
  | .name s => directory ++ [s]

/-- Follows steps from a location. Nothing has to stand where the last one leads. -/
def follow (tree : FileTree) : Location → List Path.Component → Except FileFault Location
  | location, [] => .ok location
  | location, c :: rest =>
    match tree.entry? location with
    | some .directory => tree.follow (step location c) rest
    | some (.file _) => .error .notADirectory
    | none => .error .notFound

def locate (tree : FileTree) (p : Path) : Except FileFault Location :=
  tree.follow tree.working (p.steps ++ if p.hasFinalSlash then [.current] else [])

def lookup (tree : FileTree) (p : Path) : Except FileFault FileEntry :=
  match tree.locate p with
  | .error e => .error e
  | .ok location =>
    match tree.entry? location with
    | some entry => .ok entry
    | none => .error .notFound

def isFile (tree : FileTree) (p : Path) : Bool :=
  match tree.lookup p with
  | .ok (.file _) => true
  | _ => false

def isDirectory (tree : FileTree) (p : Path) : Bool :=
  match tree.lookup p with
  | .ok .directory => true
  | _ => false

def read (tree : FileTree) (p : Path) : Except FileFault Text :=
  match tree.lookup p with
  | .error e => .error e
  | .ok .directory => .error .isADirectory
  | .ok (.file .binary) => .error .notText
  | .ok (.file (.text content)) => .ok content

def makeDirectory (tree : FileTree) (steps : List Path.Component) : Except FileFault FileTree :=
  match tree.follow tree.working steps with
  | .error e => .error e
  | .ok location =>
    match tree.entry? location with
    | some _ => .error .alreadyExists
    | none => .ok (tree.insert location .directory)

def leadsToDirectory (tree : FileTree) (steps : List Path.Component) : Bool :=
  match tree.follow tree.working steps with
  | .error _ => false
  | .ok location => tree.entry? location = some .directory

def ensureDirectory (tree : FileTree) (steps : List Path.Component) : FileTree × Option FileFault :=
  match tree.makeDirectory steps with
  | .ok tree => (tree, none)
  | .error e => (tree, if tree.leadsToDirectory steps then none else some e)

/-- Makes a directory, and those that lead to it as far as they are missing. The steps are given
from the last to the first. -/
def ensureDirectories (tree : FileTree) : List Path.Component → FileTree × Option FileFault
  | [] => (tree, none)
  | last :: before =>
    match tree.ensureDirectory (last :: before).reverse with
    | (tree, some .notFound) =>
      match tree.ensureDirectories before with
      | (tree, none) => tree.ensureDirectory (last :: before).reverse
      | faulty => faulty
    | result => result

def writeText (tree : FileTree) (p : Path) (content : Text) : FileTree × Option FileFault :=
  match tree.follow tree.working p.steps with
  | .error e => (tree, some e)
  | .ok location =>
    if p.hasFinalSlash || tree.entry? location = some .directory then (tree, some .isADirectory)
    else (tree.insert location (.file (.text content)), none)

/-- Writes the text of a file and makes the directories that lead to it. What was made before a
fault remains. -/
def write (tree : FileTree) (p : Path) (content : Text) : FileTree × Option FileFault :=
  match tree.ensureDirectories (p.components.dropLast.reverse) with
  | (tree, some e) => (tree, some e)
  | (tree, none) => tree.writeText p content

/-- The files below a directory, without those in directories of the excluded names below it, as
paths relative to it and in path order. -/
def filesBelow (tree : FileTree) (directory : Location) (exclude : List Text) : List Path :=
  (tree.entries.filterMap below?).mergeSort fun p q => Path.order p q ≠ .gt
where
  below? : Location × FileEntry → Option Path
    | (_, .directory) => none
    | (location, .file _) =>
      if directory.isPrefixOf location then
        let names := location.drop directory.length
        if names.dropLast.any exclude.contains then none else some (.ofNames names)
      else none

/-- The project at a directory. Its lists leave the excluded directories out; any file can be
asked for. -/
def project (tree : FileTree) (root : Path) (exclude : List Text) : Project :=
  let files :=
    match tree.locate root with
    | .ok location => tree.filesBelow location exclude
    | .error _ => []
  { root
    isFile p := tree.isFile (root.append p)
    read p :=
      match tree.read (root.append p) with
      | .ok content => .ok content
      | .error e => .error e.message
    stylesheets := files.filter (·.hasExtension Project.stylesheetExtensions)
    scripts := files.filter (·.hasExtension Project.scriptExtensions) }

/-- The texts of the files that stand in a tree but not with the same text in an earlier one. -/
def changes (before after : FileTree) : List (Location × Text) :=
  after.entries.filterMap fun
    | (location, .file (.text content)) =>
      if before.entry? location = some (.file (.text content)) then none
      else some (location, content)
    | _ => none

end FileTree

end DesignParams
