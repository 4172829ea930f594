import DesignParams.Proofs.Project.Identity
import DesignParams.Proofs.Rewire.Run
import DesignParams.Session

/-!
# Sessions as runs

A round of a session is a scan, a choice of overrides and a rewiring. It makes one step of a run,
and what a session leaves round after round is the run of its steps. The edit of a project is a step
as well, with the theme that the project has.
-/
set_option autoImplicit false

namespace DesignParams

namespace Session

/-- Sessions that choosing overrides leads to. -/
inductive Chooses : Session → Session → Prop
  | done (s : Session) : Chooses s s
  | set {s t u : Session} {target : Target} {value : Value} (first : s.set? target value = some t)
      (rest : Chooses t u) : Chooses s u
  | unset {s u : Session} {target : Target} (rest : Chooses (s.unset target) u) : Chooses s u
  | load {s t u : Session} {document : Text} (first : s.load document = .ok t)
      (rest : Chooses t u) : Chooses s u

/-- Only the overrides change. -/
theorem Chooses.eq {s t : Session} (h : Chooses s t) : t = { s with overrides := t.overrides } := by
  induction h with
  | done s => rfl
  | set first _ ih =>
    obtain ⟨id, -, rfl⟩ := Option.map_eq_some_iff.mp first
    exact ih
  | @unset s u target _ ih =>
    rw [Session.unset] at ih
    split at ih <;> exact ih
  | @load s t u document first _ ih =>
    rw [Session.load] at first
    cases hParse : Overrides.parse document with
    | error e =>
      rw [hParse] at first
      cases first
    | ok overrides =>
      rw [hParse] at first
      obtain rfl := Except.ok.inj first
      exact ih

def round (s : Session) (overrides : Overrides) : Session :=
  { s.scan with overrides }.rewire

theorem Chooses.rewire_eq_round {s t : Session} (h : Chooses s.scan t) :
    t.rewire = s.round t.overrides :=
  congrArg Session.rewire h.eq

def rounds : Session → List Overrides → List Session
  | _, [] => []
  | s, overrides :: choices => s.round overrides :: (s.round overrides).rounds choices

def step (s : Session) (overrides : Overrides) : Rewire.Step :=
  ⟨s.theme.getD [], themeFile, Theme.defaultLimit, overrides⟩

theorem params_scan (s : Session) (overrides : Overrides) :
    s.scan.params = (s.step overrides).params s.file s.content := by
  rw [scan, Rewire.Step.params, step]
  cases s.theme with
  | none =>
    simp only
    rw [Option.getD_none, Theme.scan_nil]
    rfl
  | some theme => rfl

theorem content_round (s : Session) (overrides : Overrides) :
    (s.round overrides).content = (s.step overrides).apply s.file s.content := by
  rw [Rewire.Step.apply, ← params_scan]
  rfl

/-- The texts that a session leaves are those of the run of its steps. -/
theorem content_rounds (s : Session) (choices : List Overrides) :
    (s.rounds choices).map (·.content) = Rewire.run s.file s.content (choices.map s.step) := by
  induction choices generalizing s with
  | nil => rfl
  | cons overrides choices ih =>
    rw [rounds, List.map_cons, List.map_cons, Rewire.run, ih, content_round]
    rfl

end Session

namespace ProjectSession

def step (s : ProjectSession) (overrides : Overrides) : Rewire.Step :=
  ⟨(s.project.themeFile?.bind s.project.content?).getD [], s.project.themeFile?.getD ⟨[]⟩,
    s.options.themeLimit, overrides⟩

theorem params_scan (s : ProjectSession) (selected : Option Path) (overrides : Overrides)
    {file : Path} (hSheet : (s.scan selected).stylesheet = some file) :
    (s.scan selected).params =
      (s.step overrides).params file ((s.project.content? file).getD []) := by
  have hExtracted : s.project.extracted selected s.options =
      Stylesheet.scan ((s.project.content? file).getD []) file ++
        Theme.scan (s.step overrides).theme (s.step overrides).themeFile s.options.themeLimit := by
    rw [scan] at hSheet
    rw [Project.extracted, hSheet, Option.map_some, Option.getD_some,
      s.project.stylesheetParams_eq, s.project.themeParams_eq]
    rfl
  rw [scan, Project.params_scanWith, hExtracted]
  rfl

/-- The new text of an edit is what the step makes of the stylesheet. -/
theorem content_plan? {s : ProjectSession} {selected : Option Path} {overrides : Overrides}
    {generatedAt : Instant} {plan : EditPlan}
    (h : s.plan? selected overrides generatedAt = some plan) :
    plan.content =
      (s.step overrides).apply plan.file ((s.project.content? plan.file).getD []) := by
  rw [plan?, ProjectScan.plan?] at h
  obtain ⟨file, hSheet, rfl⟩ := Option.map_eq_some_iff.mp h
  simp only
  rw [hSheet, Option.bind_some, s.params_scan selected overrides hSheet]
  rfl

end ProjectSession

end DesignParams
