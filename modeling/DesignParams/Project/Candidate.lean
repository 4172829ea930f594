import DesignParams.Project.Kind
import DesignParams.Project.Reference

/-!
# Candidates for the main stylesheet

Everything that points at a stylesheet is a piece of evidence with a weight. The score of a
candidate is the sum of the weights of its evidence; the highest score comes first, and equal
scores stand in the order of their first evidence.
-/
set_option autoImplicit false

namespace DesignParams

inductive Signal where
  | entryImport
  | htmlLink
  | preferred
  | moduleImport
  | moduleFile
  | cssImport
  | discovered
  /-- A customary place in projects of one kind. -/
  | projectDefault
deriving DecidableEq, Repr

namespace Signal

def weight : Signal → Nat
  | .entryImport => 10
  | .htmlLink => 8
  | .preferred => 6
  | .moduleImport => 6
  | .cssImport => 5
  | .projectDefault => 4
  | .moduleFile => 3
  | .discovered => 1

end Signal

structure Evidence where
  file : Path
  signal : Signal
  reason : Text
deriving DecidableEq, Repr

structure Candidate where
  file : Path
  score : Nat
  /-- The reasons of all evidence, in order. -/
  reason : Text
deriving DecidableEq, Repr

structure Samples where
  scripts : Nat
  stylesheets : Nat
deriving DecidableEq, Repr

def Samples.default : Samples :=
  ⟨200, 120⟩

def Path.isModule (p : Path) : Bool :=
  Text.endsWith p.text ".module.css".toList

def Path.isCandidate (p : Path) : Bool :=
  Text.endsWith p.text ".css".toList && !Text.endsWith p.text ".min.css".toList

namespace Evidence

/-- Stylesheet modules count half, rounded up. -/
def weight (e : Evidence) : Nat :=
  if e.file.isModule then (e.signal.weight + 1) / 2 else e.signal.weight

def note (e : Evidence) : Text :=
  if e.file.isModule && !Text.contains e.reason "module".toList then e.reason ++ " (module)".toList
  else e.reason

end Evidence

namespace Candidate

def ofEvidence (e : Evidence) : Candidate :=
  ⟨e.file, e.weight, e.note⟩

/-- Adds evidence to the candidate of its file, or appends a new candidate. -/
def enter (e : Evidence) : List Candidate → List Candidate
  | [] => [ofEvidence e]
  | c :: rest =>
    if Path.same c.file e.file then
      { c with score := c.score + e.weight, reason := c.reason ++ "; ".toList ++ e.note } :: rest
    else c :: enter e rest

/-- Takes evidence up if it points at a file that can be the main stylesheet. -/
def add (project : Project) (candidates : List Candidate) (e : Evidence) : List Candidate :=
  if e.file.isCandidate && project.isFile e.file then enter e candidates else candidates

/-- Sorts by score, the highest first; equal scores keep their order. -/
def ranked (candidates : List Candidate) : List Candidate :=
  candidates.mergeSort fun a b => b.score ≤ a.score

end Candidate

namespace Project

def entryFiles : List Path :=
  ["index.html", "src/main.tsx", "src/main.jsx", "src/main.ts", "src/main.js", "src/index.tsx",
    "src/index.jsx", "src/index.ts", "src/index.js", "src/App.tsx", "src/App.jsx",
    "app/layout.tsx", "app/page.tsx", "pages/_app.tsx", "pages/index.tsx"].map .ofString

def preferredFiles : List Path :=
  ["src/index.css", "src/styles.css", "src/App.css", "src/global.css", "styles/globals.css",
    "styles.css", "style.css"].map .ofString

def defaultFiles : ProjectKind → List Path
  | .react => ["src/index.css", "src/App.css"].map .ofString
  | .vanilla => ["styles.css", "style.css"].map .ofString
  | .unknown => []

def referenceEvidence (file : Path) (signal : Signal) (lead : String) (targets : List Text) :
    List Evidence :=
  (targets.filterMap (Reference.resolve? file.directory)).map fun target =>
    ⟨target, signal, lead.toList ++ file.text⟩

def entryEvidence (project : Project) (file : Path) : List Evidence :=
  if project.isFile file then
    match project.content? file with
    | none => []
    | some source =>
      referenceEvidence file .entryImport "import in " (Reference.ofScript source) ++
        if Text.endsWith file.text ".html".toList then
          referenceEvidence file .htmlLink "link in " (Reference.ofPage source)
        else []
  else []

def sourceEvidence (project : Project) (signal : Signal) (lead : String)
    (targets : Text → List Text) (file : Path) : List Evidence :=
  match project.content? file with
  | none => []
  | some source => referenceEvidence file signal lead (targets source)

def evidence (project : Project) (kind : ProjectKind) (samples : Samples) : List Evidence :=
  preferredFiles.map (⟨·, .preferred, "preferred".toList⟩) ++
  entryFiles.flatMap (entryEvidence project) ++
  (project.scripts.take samples.scripts).flatMap
    (sourceEvidence project .moduleImport "module import in " Reference.modulesOfScript) ++
  (project.stylesheets.filter Path.isModule).map (⟨·, .moduleFile, "module css".toList⟩) ++
  (project.stylesheets.take samples.stylesheets).flatMap
    (sourceEvidence project .cssImport "@import in " Reference.ofStylesheet) ++
  project.stylesheets.map (⟨·, .discovered, "discovered".toList⟩) ++
  (defaultFiles kind).map (⟨·, .projectDefault, kind.name ++ " default".toList⟩)

def candidates (project : Project) (kind : ProjectKind) (samples : Samples) : List Candidate :=
  Candidate.ranked ((project.evidence kind samples).foldl (Candidate.add project) [])

end Project

end DesignParams
