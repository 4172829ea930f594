import DesignParams.Json.Reader
import DesignParams.Project.Basic

/-!
# The kind of a project

A project is a React one if its manifest depends on `react`, a vanilla one if it has a page of its
own, and else of unknown kind. A manifest that cannot be read is reported and says nothing.
-/
set_option autoImplicit false

namespace DesignParams

inductive ProjectKind where
  | react
  | vanilla
  | unknown
deriving DecidableEq, Repr

namespace ProjectKind

def all : List ProjectKind :=
  [.react, .vanilla, .unknown]

def name : ProjectKind → Text
  | .react => "react".toList
  | .vanilla => "vanilla".toList
  | .unknown => "unknown".toList

def ofName? (s : Text) : Option ProjectKind :=
  all.find? (·.name == s)

end ProjectKind

def Json.keys : Json → List Text
  | .object members => members.map (·.1)
  | _ => []

namespace Project

def manifestFile : Path :=
  .ofString "package.json"

def pageFile : Path :=
  .ofString "index.html"

def dependenciesOf (manifest : Json) : List Text :=
  ["dependencies", "devDependencies"].flatMap fun key =>
    ((manifest.field? key.toList).map Json.keys).getD []

/-- The dependencies of a project that has a manifest, or why it cannot be read. -/
def dependencies? (project : Project) : Option (Except Text (List Text)) :=
  if project.isFile manifestFile then
    some <|
      match project.read manifestFile with
      | .error e => .error e
      | .ok source =>
        match Json.parse source with
        | .error e => .error e.message
        | .ok manifest => .ok (dependenciesOf manifest)
  else none

def kindByPage (project : Project) : ProjectKind × Text :=
  if project.isFile pageFile then (.vanilla, "Detected index.html".toList)
  else (.unknown, "Unknown project type".toList)

def kind (project : Project) : ProjectKind × List Text :=
  let (byPage, reason) := kindByPage project
  match dependencies? project with
  | some (.ok names) =>
    if names.contains "react".toList then
      (.react, ["Detected react dependency in package.json".toList])
    else (byPage, [reason])
  | some (.error e) => (byPage, ["Failed to parse package.json: ".toList ++ e, reason])
  | none => (byPage, [reason])

end Project

end DesignParams
