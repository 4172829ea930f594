import DesignParams.Document.Decode
import DesignParams.Plan

/-!
# Sessions

A stylesheet, or a whole project, that is scanned and rewired over and over. A session keeps the
text as it stands, the parameters of the last scan and the overrides; rewiring goes by that scan,
whether or not the text has changed since.
-/
set_option autoImplicit false

namespace DesignParams

structure Session where
  content : Text
  file : Path
  /-- A theme configuration whose parameters are scanned as well. -/
  theme : Option Text
  /-- The parameters of the last scan. -/
  params : List Parameter
  overrides : Overrides
deriving DecidableEq, Repr

/-- The parameter of an override: by its place in the last scan, or by its id. -/
inductive Session.Target where
  | place (n : Nat)
  | id (text : Text)
deriving DecidableEq, Repr

namespace Session

def themeFile : Path :=
  .ofString "tailwind.config.js"

def ofStylesheet (content : Text) (file : Path) (theme : Option Text) : Session :=
  ⟨content, file, theme, [], []⟩

def scan (s : Session) : Session :=
  let theme := (s.theme.map (Theme.scan · themeFile Theme.defaultLimit)).getD []
  { s with params := Parameter.sort (Stylesheet.scan s.content s.file ++ theme) }

def targetId? (s : Session) : Target → Option Text
  | .place n => s.params[n]?.map (·.id)
  | .id text => some text

def set? (s : Session) (target : Target) (value : Value) : Option Session :=
  (s.targetId? target).map fun id => { s with overrides := Entries.insert id value s.overrides }

def unset (s : Session) (target : Target) : Session :=
  match s.targetId? target with
  | some id => { s with overrides := Entries.erase id s.overrides }
  | none => s

/-- Takes overrides from a document in the place of the present ones. -/
def load (s : Session) (document : Text) : Except OverridesError Session :=
  (Overrides.parse document).map fun overrides => { s with overrides }

def rewire (s : Session) : Session :=
  { s with content := DesignParams.rewire s.content s.params s.overrides }

def rootBlock (s : Session) : Text :=
  RootBlock.build s.params [] s.overrides

def inject (s : Session) (block : Text) : Session :=
  { s with content := RootBlock.inject s.content block }

def replaceFirst (s : Session) (old new : Text) : Session :=
  { s with content := Text.replaceFirst s.content old new }

def carried (s : Session) : List RootBlock.Item :=
  RootBlock.carried s.content s.params

end Session

structure ProjectSession where
  root : Path
  options : ScanOptions
  files : Project.Files
deriving DecidableEq, Repr

namespace ProjectSession

def project (s : ProjectSession) : Project :=
  .ofFiles s.root s.files

def put (s : ProjectSession) (file : Path) (content : Text) : ProjectSession :=
  { s with files := s.files.insert file content }

def remove (s : ProjectSession) (file : Path) : ProjectSession :=
  { s with files := s.files.erase file }

def scan (s : ProjectSession) (selected : Option Path) : ProjectScan :=
  s.project.scanWith selected s.options

def plan? (s : ProjectSession) (selected : Option Path) (overrides : Overrides)
    (generatedAt : Instant) : Option EditPlan :=
  let scan := s.scan selected
  scan.plan? ((scan.stylesheet.bind s.project.content?).getD []) overrides generatedAt

def apply (s : ProjectSession) (plan : EditPlan) : ProjectSession :=
  s.put plan.file plan.content

end ProjectSession

end DesignParams
