import DesignParams.CommandLine.Run
import DesignParams.CommandLine.Usage
import Std.Time.DateTime.Timestamp

/-!
# The program

What a command can look at is read into a file tree before it runs, and what it has changed in the
tree is written to the files afterwards.
-/
set_option autoImplicit false

namespace DesignParams.Program

def pathText (location : Location) : String :=
  String.ofList ('/' :: Text.join ['/'] location)

def onDisk (location : Location) :=
  (· / pathText location) <$> IO.currentDir

def loadPath (tree : FileTree) (p : Path) : IO FileTree := do
  let mut tree := tree
  let mut location := tree.working
  for step in p.steps do
    location := FileTree.step location step
    if (tree.entry? location).isNone then
      let place ← onDisk location
      if ← place.isDir then
        tree := tree.place .directory [] location
      else if ← place.pathExists then
        tree := tree.place (.file (.ofBytes (← IO.FS.readBinFile place))) [] location
  return tree

/-- Reads an entry of a directory, and all that is below it. Of directories with an excluded name
only the stylesheets are read, for nothing else in them can be referred to. Links are not
followed. -/
partial def loadEntry (exclude : List Text) (onlyStylesheets : Bool) (directory : Location)
    (tree : FileTree) (entry : IO.FS.DirEntry) : IO FileTree := do
  let name := entry.fileName.toList
  let location := directory ++ [name]
  match (← entry.path.symlinkMetadata).type with
  | .dir =>
    let entries ← entry.path.readDir
    entries.foldlM (loadEntry exclude (onlyStylesheets || exclude.contains name) location)
      { tree with entries := (location, .directory) :: tree.entries }
  | .file =>
    if onlyStylesheets && !Path.hasExtension ⟨name⟩ Project.stylesheetExtensions then
      return tree
    else
      let content := FileContent.ofBytes (← IO.FS.readBinFile entry.path)
      return { tree with entries := (location, .file content) :: tree.entries }
  | _ => return tree

def loadWorkspace (tree : FileTree) (root : Path) : IO FileTree := do
  let mut tree ← loadPath tree root
  for file in Settings.files do
    tree ← loadPath tree (root.append file)
  match Workspace.load tree root, tree.locate root with
  | .ok w, .ok location =>
    let entries ← (← onDisk location).readDir
    tree ← entries.foldlM (loadEntry w.settings.exclude false location) tree
    for file in Project.manifestFile :: w.settings.stylesheet.toList ++ Project.entryFiles do
      tree ← loadPath tree (root.append file)
    return tree
  | _, _ => return tree

def namedFiles (args : Arguments) : List Path :=
  match args.command with
  | .scan chosen => chosen.toList.map args.root.append
  | .candidates => []
  | .css file | .tokens file _ => [args.root.append file]
  | .plan chosen overrides | .apply chosen overrides | .snapshot chosen overrides =>
    chosen.toList.map args.root.append ++ overrides.toList

def store (args : Arguments) (changes : List (Location × Text)) : IO Unit := do
  for (location, content) in changes do
    IO.FS.createDirAll (pathText location.dropLast)
    IO.FS.writeFile (pathText location) (String.ofList content)
    if args.verbose then
      IO.eprintln s!"wrote {pathText location}"

def run (args : Arguments) : IO UInt32 := do
  let working := Path.segments ⟨(← IO.currentDir).toString.toList⟩
  let mut tree ← loadWorkspace (.empty working) args.root
  for file in namedFiles args do
    tree ← loadPath tree file
  let now := (← Std.Time.Timestamp.now).toNanosecondsSinceUnixEpoch.val
  let (after, result) :=
    args.run tree ⟨Int.fdiv now 1000000000, (Int.fmod now 1000000000).toNat⟩
  store args (tree.changes after)
  match result with
  | .ok output =>
    IO.println (String.ofList output)
    return 0
  | .error e =>
    IO.eprintln (String.ofList e.report)
    return 1

end DesignParams.Program

open DesignParams in
def main (args : List String) : IO UInt32 := do
  match Arguments.parse (args.map String.toList) with
  | .ok args => Program.run args
  | .error e =>
    if e.isQuestion then
      IO.println (String.ofList e.message)
      return 0
    else
      IO.eprintln (String.ofList e.message)
      return 2
