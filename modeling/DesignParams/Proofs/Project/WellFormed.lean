import DesignParams.Proofs.Project.Identity
import DesignParams.Proofs.Rewire.Again

/-!
# Well-formed parameters

Stylesheets and themes set the fields of a parameter apart from each other, and later steps rely on
how the fields fit: a span is spliced, a number is rendered with its unit, and the id of a variable
that is left in a block is found from its name. Every parameter of every scan is fit for that.
-/
set_option autoImplicit false

namespace DesignParams

namespace Property

/-- Does the text begin like a colour, with three to eight hexadecimal digits behind a number sign
or with the name of a colour function? -/
def IsColorLiteral (value : Text) : Prop :=
  (∃ digits : Text, 3 ≤ digits.length ∧ digits.length ≤ 8 ∧ digits.all isHexDigit = true ∧
      '#' :: digits <+: value) ∨
    ∃ name ∈ ["rgb(".toList, "rgba(".toList, "hsl(".toList, "hsla(".toList], name <+: value

theorem exists_hexDigits {s : Text} (h : 3 ≤ (s.takeWhile isHexDigit).length) :
    ∃ digits : Text, 3 ≤ digits.length ∧ digits.length ≤ 8 ∧ digits.all isHexDigit = true ∧
      digits <+: s := by
  refine ⟨(s.takeWhile isHexDigit).take 8, ?_, ?_, ?_, ?_⟩
  · rw [List.length_take]
    omega
  · exact List.length_take_le 8 _
  · refine List.all_eq_true.mpr fun c hc => ?_
    exact List.all_eq_true.mp List.all_takeWhile c (List.mem_of_mem_take hc)
  · exact (List.take_prefix 8 _).trans (List.takeWhile_prefix _)

theorem isColorLiteral_of_isColor {value : Text} (h : isColor value = true) :
    IsColorLiteral value := by
  rw [isColor.eq_def] at h
  split at h
  · rename_i s
    obtain ⟨digits, hLow, hHigh, hAll, hPrefix⟩ := exists_hexDigits (by simpa using h)
    exact .inl ⟨digits, hLow, hHigh, hAll, List.cons_prefix_cons.mpr ⟨rfl, hPrefix⟩⟩
  · obtain ⟨name, hMem, hName⟩ := List.any_eq_true.mp h
    obtain ⟨rest, hRest⟩ := Option.isSome_iff_exists.mp hName
    exact .inr ⟨name, hMem, rest, (Text.append_of_after? hRest).symm⟩

end Property

namespace Parameter

/-- How a value can be recognised, with its default, its unit and its bounds. -/
inductive Recognises (value : Text) : Kind × Value × Option Text × Option Bounds → Prop
  | number (n : Binary64) (unit : Option Text) (bounds : Bounds)
    (hUnit : ∀ u ∈ unit, u ≠ [] ∧ u.all Quantity.isUnitChar = true) :
    Recognises value (.number, .number n, unit, some bounds)
  | color (hColor : Property.isColor value = true) :
    Recognises value (.color, .text value, none, none)
  | string : Recognises value (.string, .text value, none, none)

theorem recognises_quantity {value : Text} {q : Quantity} (h : Quantity.parse? value = some q)
    (bounds : Bounds) :
    Recognises value
      (.number, .number q.number, if q.unit.isEmpty then none else some q.unit, some bounds) := by
  refine .number q.number _ bounds fun u hu => ?_
  split at hu
  · cases hu
  · rename_i hNonempty
    cases hu
    exact ⟨by simpa using hNonempty, Quantity.all_unit h⟩

theorem recognises_stylesheet (property value : Text) :
    Recognises value (Stylesheet.recognise property value) := by
  rw [Stylesheet.recognise]
  cases hParse : Quantity.parse? value with
  | some q => exact recognises_quantity hParse _
  | none =>
    cases hColor : Property.isColor value with
    | true => exact .color hColor
    | false => exact .string

theorem recognises_theme (e : Theme.Entry) : Recognises e.value (Theme.recognise e) := by
  rw [Theme.recognise]
  by_cases hColor : e.inSection = .colors ∧ Property.isColor e.value
  · rw [if_pos hColor]
    exact .color hColor.2
  · rw [if_neg hColor]
    cases hParse : Quantity.parse? e.value with
    | some q => exact recognises_quantity hParse _
    | none => exact .string

/-- Do the fields that come from recognising a value fit it? -/
structure IsRecognised (p : Parameter) : Prop where
  number_iff_default : p.kind = .number ↔ ∃ n, p.default = .number n
  number_iff_bounds : p.kind = .number ↔ p.min.isSome ∧ p.max.isSome ∧ p.step.isSome
  unit : ∀ u ∈ p.unit, p.kind = .number ∧ u ≠ [] ∧ u.all Quantity.isUnitChar = true
  literal : p.kind ≠ .number → p.default = .text p.source.value
  color : p.kind = .color → Property.IsColorLiteral p.source.value

/-- Do the fields of the parameter fit each other, its name and the place it was found in? -/
structure IsWellFormed (p : Parameter) : Prop extends p.IsRecognised where
  name : IsGenerated p.customProperty
  id : RootBlock.parameterId? p.customProperty = some p.id
  stylesheet : p.origin = .stylesheet →
    0 ≤ p.source.start ∧ p.source.start < p.source.stop ∧
      p.source.line.isSome ∧ p.source.column.isSome
  theme : p.origin = .theme →
    p.source.start = -1 ∧ p.source.stop = -1 ∧ p.source.line = none ∧ p.source.column = none

theorem isRecognised_of_recognises {p : Parameter}
    {recognised : Kind × Value × Option Text × Option Bounds}
    (h : Recognises p.source.value recognised) (hKind : p.kind = recognised.1)
    (hDefault : p.default = recognised.2.1) (hUnit : p.unit = recognised.2.2.1)
    (hMin : p.min = recognised.2.2.2.map (·.min)) (hMax : p.max = recognised.2.2.2.map (·.max))
    (hStep : p.step = recognised.2.2.2.map (·.step)) : p.IsRecognised := by
  cases h with
  | number n unit bounds hChars =>
    constructor
    case number_iff_default => simp [hKind, hDefault]
    case number_iff_bounds => simp [hKind, hMin, hMax, hStep]
    case unit =>
      intro u hu
      rw [hUnit] at hu
      exact ⟨hKind, hChars u hu⟩
    case literal => exact fun hOther => absurd hKind hOther
    case color => simp [hKind]
  | color hColor =>
    constructor
    case number_iff_default => simp [hKind, hDefault]
    case number_iff_bounds => simp [hKind, hMin]
    case unit => simp [hUnit]
    case literal => exact fun _ => hDefault
    case color => exact fun _ => Property.isColorLiteral_of_isColor hColor
  | string =>
    constructor
    case number_iff_default => simp [hKind, hDefault]
    case number_iff_bounds => simp [hKind, hMin]
    case unit => simp [hUnit]
    case literal => exact fun _ => hDefault
    case color => simp [hKind]

end Parameter

namespace Stylesheet

theorem exists_of_mem_named {file : Path} {used : List Text} {declarations : List Declaration}
    {p : Parameter} (h : p ∈ named file used declarations) :
    ∃ d ∈ declarations, ∃ s, p = parameter file d s := by
  induction declarations generalizing used with
  | nil => cases h
  | cons d rest ih =>
    rcases List.mem_cons.mp h with rfl | h
    · exact ⟨d, List.mem_cons_self, _, rfl⟩
    · obtain ⟨e, he, s, rfl⟩ := ih h
      exact ⟨e, List.mem_cons_of_mem _ he, s, rfl⟩

theorem isWellFormed_of_mem_scan {css : Text} {file : Path} {p : Parameter}
    (h : p ∈ scan css file) : p.IsWellFormed := by
  have hName := isGenerated_of_mem_scan h
  have hId := Rewire.parameterId?_of_mem_scan h
  obtain ⟨d, hd, s, rfl⟩ := exists_of_mem_named h
  have hSpan : d.start < d.stop := by
    obtain ⟨front, rest, -, -, hStop, hNonempty⟩ :=
      (Declaration.laid_ofStylesheet css).exists_span ((Rewire.sublist_selected css file).subset hd)
    have hPositive := Text.byteLength_pos hNonempty
    omega
  constructor
  case toIsRecognised =>
    have hRecognised := Parameter.recognises_stylesheet d.property d.value
    exact Parameter.isRecognised_of_recognises hRecognised rfl rfl rfl rfl rfl rfl
  case name => exact hName
  case id => exact hId
  case stylesheet =>
    intro _
    exact ⟨Int.natCast_nonneg _, Int.ofNat_lt.mpr hSpan, rfl, rfl⟩
  case theme =>
    intro hOrigin
    cases hOrigin

end Stylesheet

namespace Theme

theorem parameterId?_parameter (file : Path) (e : Entry) (name : Text) :
    RootBlock.parameterId? (parameter file e name).customProperty =
      some (parameter file e name).id := by
  have hBehind : Text.after? RootBlock.lead ("--rig-tw-".toList ++ name) =
      some ("tw-".toList ++ name) :=
    Text.after?_append RootBlock.lead ("tw-".toList ++ name)
  have hTheme : Text.after? "tw-".toList ("tw-".toList ++ name) = some name :=
    Text.after?_append "tw-".toList name
  have hName : (parameter file e name).customProperty = "--rig-tw-".toList ++ name := rfl
  rw [RootBlock.parameterId?, hName, hBehind]
  simp only
  rw [hTheme]
  rfl

theorem isWellFormed_of_mem_named {file : Path} {earlier : List Text} {entries : List Entry}
    {p : Parameter} (h : p ∈ named file earlier entries) : p.IsWellFormed := by
  have hName := isGenerated_of_mem_named h
  obtain ⟨e, -, count, rfl⟩ := exists_of_mem_named h
  constructor
  case toIsRecognised =>
    have hRecognised := Parameter.recognises_theme e
    exact Parameter.isRecognised_of_recognises hRecognised rfl rfl rfl rfl rfl rfl
  case name => exact hName
  case id => exact parameterId?_parameter file e _
  case stylesheet =>
    intro hOrigin
    cases hOrigin
  case theme => exact fun _ => ⟨rfl, rfl, rfl, rfl⟩

end Theme

namespace Project

theorem isWellFormed_of_mem_stylesheetParams {project : Project} {file : Path} {p : Parameter}
    (h : p ∈ (project.stylesheetParams file).1) : p.IsWellFormed := by
  rw [stylesheetParams_eq] at h
  exact Stylesheet.isWellFormed_of_mem_scan h

theorem mem_scanWith {project : Project} {selected : Option Path} {options : ScanOptions}
    {p : Parameter} (h : p ∈ (project.scanWith selected options).params) :
    (∃ file, p ∈ (project.stylesheetParams file).1) ∨
      p ∈ (project.themeParams options.themeLimit).1 := by
  cases selected with
  | none =>
    rcases List.mem_append.mp (List.mem_mergeSort.mp h) with h | h
    · change p ∈ ((((project.candidates project.kind.1 options.samples).head?.map (·.file)).map
        project.stylesheetParams).getD ([], [])).1 at h
      cases hHead : (project.candidates project.kind.1 options.samples).head? with
      | none =>
        rw [hHead] at h
        cases h
      | some candidate =>
        rw [hHead] at h
        exact .inl ⟨candidate.file, h⟩
    · exact .inr h
  | some file =>
    rw [scanWith, scanSelected] at h
    rcases List.mem_append.mp (List.mem_mergeSort.mp h) with h | h
    · cases hFile : project.isFile file with
      | false =>
        rw [hFile] at h
        cases h
      | true =>
        rw [hFile] at h
        exact .inl ⟨file, h⟩
    · exact .inr h

theorem isWellFormed_of_mem_scanWith {project : Project} {selected : Option Path}
    {options : ScanOptions} {p : Parameter} (hp : p ∈ (project.scanWith selected options).params) :
    p.IsWellFormed := by
  rcases mem_scanWith hp with ⟨file, h⟩ | h
  · exact isWellFormed_of_mem_stylesheetParams h
  · obtain ⟨file, hTheme⟩ := exists_themeParams project options.themeLimit
    rw [hTheme] at h
    exact Theme.isWellFormed_of_mem_named h

/-- Every parameter of every scan is well formed, and the override of its id reaches its variable
also where only a declaration of the variable is left. -/
theorem isWellFormed_scanWith (project : Project) (selected : Option Path) (options : ScanOptions) :
    ∀ p ∈ (project.scanWith selected options).params, p.IsWellFormed ∧
      ∀ (overrides : Overrides) (value : Value), Entries.find? p.id overrides = some value →
        ∀ old, (RootBlock.Item.mk p.customProperty old).effectiveValue overrides =
          value.render ((Quantity.parse? old).map (·.unit)) := by
  intro p hp
  have hWellFormed := isWellFormed_of_mem_scanWith hp
  refine ⟨hWellFormed, fun overrides value hFind old => ?_⟩
  rw [RootBlock.Item.effectiveValue, hWellFormed.id, Option.bind_some, hFind]

/-- A margin in pixels, set to eight where only its variable is left. -/
theorem isWellFormed_scanWith_margin :
    let file := Path.ofString "a.css"
    let project := ofFiles (.ofString "/site") [(file, "p \x7B margin: 4px \x7D".toList)]
    let overrides : Overrides := [("rig.spacing-margin-wxfo3d".toList, .number (Binary64.ofNat 8))]
    ∃ p ∈ (project.scanWith (some file) .default).params,
      p.customProperty = "--rig-spacing-margin-wxfo3d".toList ∧ p.kind = .number ∧
        p.IsWellFormed ∧
        (RootBlock.Item.mk p.customProperty "4px".toList).effectiveValue overrides = "8px".toList := by
  intro file project overrides
  obtain ⟨p, hp, hName, hKind, hFind⟩ : ∃ p ∈ Stylesheet.scan "p \x7B margin: 4px \x7D".toList file,
      p.customProperty = "--rig-spacing-margin-wxfo3d".toList ∧ p.kind = .number ∧
        Entries.find? p.id overrides = some (.number (Binary64.ofNat 8)) := by
    decide +kernel
  have hScan : p ∈ (project.scanWith (some file) .default).params :=
    List.mem_mergeSort.mpr (List.mem_append_left _ hp)
  obtain ⟨hWellFormed, hReaches⟩ := isWellFormed_scanWith project (some file) .default p hScan
  refine ⟨p, hScan, hName, hKind, hWellFormed, ?_⟩
  rw [hReaches overrides _ hFind "4px".toList]
  decide +kernel

end Project

end DesignParams
