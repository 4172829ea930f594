import DesignParams.Proofs.Document.Value

/-!
# Documents come back

A parameter, a configuration or a snapshot is read back from its text field by field. What comes
back has the same text.
-/
set_option autoImplicit false

namespace DesignParams

open JsonReader

theorem join_map_some {α : Type} (a? : Option α) : (a?.map some).join = a? := by
  cases a? <;> rfl

theorem Path.reads (p : Path) : Reads Path.reader p.toJson p :=
  (reads_text "path string".toList p.text).map Path.mk

theorem reads_textReader (s : Text) : Reads textReader (.string s) s :=
  reads_text _ s

theorem reads_textReader? (s : Text) : Reads (optional textReader) (.string s) (some s) :=
  (reads_textReader s).optional (head?_prettyAt_string s)

theorem Group.reads (group : Group) : Reads Group.reader (.string group.name) group :=
  reads_choice (by cases group <;> rfl)

theorem Kind.reads (kind : Kind) : Reads Kind.reader (.string kind.name) kind :=
  reads_choice (by cases kind <;> rfl)

theorem Origin.reads (origin : Origin) : Reads Origin.reader (.string origin.name) origin :=
  reads_choice (by cases origin <;> rfl)

theorem ProjectKind.reads (kind : ProjectKind) : Reads ProjectKind.reader (.string kind.name) kind :=
  reads_choice (by cases kind <;> rfl)

theorem Binary64.Survives.reads {x : Binary64} (h : x.Survives) : Reads decimal (.ofDecimal x) x :=
  reads_numeric (JsonNumber.numeral_survives h) rfl

theorem Binary64.Survives.reads? {x : Binary64} (h : x.Survives) :
    Reads (optional decimal) (.ofDecimal x) (some x) :=
  h.reads.optional (JsonNumber.numeral_survives h).head?_prettyAt

theorem reads_natural? {n : Nat} (h : n < Nat.pow 2 64) :
    Reads (optional natural) (Json.ofNat n) (some n) :=
  (reads_natural h).optional (numeral_natural h).head?_prettyAt

/-! ## Sources -/

structure Source.InRange (s : Source) : Prop where
  line : ∀ n ∈ s.line, n < Nat.pow 2 64
  column : ∀ n ∈ s.column, n < Nat.pow 2 64
  start : -(Nat.pow 2 63 : Int) ≤ s.start ∧ s.start < (Nat.pow 2 63 : Int)
  stop : -(Nat.pow 2 63 : Int) ≤ s.stop ∧ s.stop < (Nat.pow 2 63 : Int)

def SourceFields.ofSource (s : Source) : SourceFields where
  file := some s.file
  property := some s.property
  selector := s.selector.map some
  line := s.line.map some
  column := s.column.map some
  value := some s.value
  start := some s.start
  stop := some s.stop

theorem SourceFields.finish_ofSource (s : Source) : finish (ofSource s) = .ok s := by
  change Except.ok { s with
    selector := (s.selector.map some).join
    line := (s.line.map some).join
    column := (s.column.map some).join } = Except.ok s
  rw [join_map_some, join_map_some, join_map_some]

theorem Source.reads {s : Source} (h : s.InRange) : Reads Source.reader s.toJson s := by
  rw [Source.toJson]
  simp only [List.append_assoc, List.cons_append, List.nil_append]
  refine reads_record ?_ (SourceFields.finish_ofSource s)
  exact .slot rfl (Path.reads s.file) <|
    .slot rfl (reads_textReader s.property) <|
    .optionalSlot (fun f selector => { f with selector }) rfl rfl (fun t _ => reads_textReader? t) <|
    .optionalSlot (fun f line => { f with line }) rfl rfl (fun n hn => reads_natural? (h.line n hn)) <|
    .optionalSlot (fun f column => { f with column }) rfl rfl
      (fun n hn => reads_natural? (h.column n hn)) <|
    .slot rfl (reads_textReader s.value) <|
    .slot rfl (reads_integer h.start.1 h.start.2) <|
    .slot rfl (reads_integer h.stop.1 h.stop.2) .nil

/-! ## Parameters -/

namespace Parameter

structure Survives (p : Parameter) : Prop where
  min : ∀ x ∈ p.min, x.Survives
  max : ∀ x ∈ p.max, x.Survives
  step : ∀ x ∈ p.step, x.Survives
  default : p.default.Survives
  confidence : p.confidence.Survives
  source : p.source.InRange

def unsignZero (p : Parameter) : Parameter :=
  { p with default := p.default.unsignZero }

theorem toJson_unsignZero (p : Parameter) : p.unsignZero.toJson = p.toJson := by
  rw [toJson, toJson, unsignZero, Value.toJson_unsignZero]

end Parameter

def ParameterFields.ofParameter (p : Parameter) : ParameterFields where
  id := some p.id
  label := some p.label
  group := some p.group
  kind := some p.kind
  min := p.min.map some
  max := p.max.map some
  step := p.step.map some
  default := some p.default
  unit := p.unit.map some
  customProperty := some p.customProperty
  confidence := some p.confidence
  origin := some p.origin
  source := some p.source

theorem ParameterFields.finish_ofParameter (p : Parameter) : finish (ofParameter p) = .ok p := by
  change Except.ok { p with
    min := (p.min.map some).join
    max := (p.max.map some).join
    step := (p.step.map some).join
    unit := (p.unit.map some).join } = Except.ok p
  rw [join_map_some, join_map_some, join_map_some, join_map_some]

theorem Parameter.reads {p : Parameter} (h : p.Survives) (depth : Nat) :
    Reads (Parameter.reader (depth + 1)) p.toJson p.unsignZero := by
  rw [Parameter.toJson]
  simp only [List.append_assoc, List.cons_append, List.nil_append]
  refine reads_record ?_ (ParameterFields.finish_ofParameter p.unsignZero)
  exact .slot rfl (reads_textReader p.id) <|
    .slot rfl (reads_textReader p.label) <|
    .slot rfl (Group.reads p.group) <|
    .slot rfl (Kind.reads p.kind) <|
    .optionalSlot (fun f min => { f with min }) rfl rfl (fun x hx => (h.min x hx).reads?) <|
    .optionalSlot (fun f max => { f with max }) rfl rfl (fun x hx => (h.max x hx).reads?) <|
    .optionalSlot (fun f step => { f with step }) rfl rfl (fun x hx => (h.step x hx).reads?) <|
    .slot rfl (Value.reads h.default depth) <|
    .optionalSlot (fun f unit => { f with unit }) rfl rfl (fun t _ => reads_textReader? t) <|
    .slot rfl (reads_textReader p.customProperty) <|
    .slot rfl h.confidence.reads <|
    .slot rfl (Origin.reads p.origin) <|
    .slot rfl (Source.reads h.source) .nil

/-! ## Configurations -/

theorem StylesheetEntry.reads (e : StylesheetEntry) : Reads StylesheetEntry.reader e.toJson e := by
  have hTakes : Takes (slotFor StylesheetEntryFields.slots) {}
      [("file".toList, e.file.toJson), ("injected".toList, .bool e.injected)] ⟨e.file, e.injected⟩ :=
    .slot rfl (Path.reads e.file) <| .slot rfl (reads_boolean e.injected) .nil
  exact reads_record hTakes rfl

theorem StylesheetEntry.reads_all (entries : List StylesheetEntry) :
    Reads (sequence StylesheetEntry.reader) (.array (entries.map StylesheetEntry.toJson)) entries := by
  have hReads := reads_sequence id fun e (_ : e ∈ entries) => StylesheetEntry.reads e
  rwa [List.map_id] at hReads

namespace Config

def Survives (c : Config) : Prop :=
  ∀ p ∈ c.params, p.Survives

def unsignZero (c : Config) : Config :=
  { c with params := c.params.map Parameter.unsignZero }

theorem toJson_unsignZero (c : Config) : c.unsignZero.toJson = c.toJson := by
  rw [toJson, toJson, unsignZero, List.map_map]
  simp only [Function.comp_def, Parameter.toJson_unsignZero]

theorem reads {c : Config} (h : c.Survives) : Reads reader c.toJson c.unsignZero := by
  have hTakes : Takes (slotFor ConfigFields.slots) {}
      [("version".toList, .string c.version),
        ("projectType".toList, .string c.kind.name),
        ("generatedAt".toList, .string c.generatedAt),
        ("params".toList, .array (c.params.map Parameter.toJson)),
        ("files".toList, .array (c.files.map StylesheetEntry.toJson))]
      ⟨c.version, c.kind, c.generatedAt, c.params.map Parameter.unsignZero, c.files⟩ :=
    .slot rfl (reads_textReader c.version) <|
      .slot rfl (ProjectKind.reads c.kind) <|
      .slot rfl (reads_textReader c.generatedAt) <|
      .slot rfl (reads_sequence Parameter.unsignZero fun p hp => Parameter.reads (h p hp) _) <|
      .slot rfl (StylesheetEntry.reads_all c.files) .nil
  exact reads_record hTakes rfl

end Config

/-! ## Snapshots -/

namespace SnapshotEntry

def unsignZero (e : SnapshotEntry) : SnapshotEntry :=
  { e with value := e.value.unsignZero }

theorem toJson_unsignZero (e : SnapshotEntry) : e.unsignZero.toJson = e.toJson := by
  rw [toJson, toJson, unsignZero, Value.toJson_unsignZero]

theorem reads {e : SnapshotEntry} (h : e.value.Survives) : Reads reader e.toJson e.unsignZero := by
  rw [toJson]
  simp only [List.cons_append, List.nil_append]
  have hFinish : SnapshotEntryFields.finish
      ⟨e.id, e.label, e.group, e.customProperty, e.unit.map some, e.value.unsignZero⟩ =
        .ok e.unsignZero := by
    change Except.ok { e with unit := (e.unit.map some).join, value := e.value.unsignZero } = _
    rw [join_map_some]
    rfl
  refine reads_record ?_ hFinish
  exact .slot rfl (reads_textReader e.id) <|
    .slot rfl (reads_textReader e.label) <|
    .slot rfl (Group.reads e.group) <|
    .slot rfl (reads_textReader e.customProperty) <|
    .optionalSlot (fun f unit => { f with unit }) rfl rfl (fun t _ => reads_textReader? t) <|
    .slot rfl (Value.reads h _) .nil

end SnapshotEntry

namespace Overrides

def unsignZero (overrides : Overrides) : Overrides :=
  overrides.map fun entry => (entry.1, entry.2.unsignZero)

theorem toJson_unsignZero (overrides : Overrides) : toJson (unsignZero overrides) = toJson overrides := by
  rw [toJson, toJson, unsignZero, List.map_map]
  simp only [Function.comp_def, Value.toJson_unsignZero]

theorem reads {overrides : Overrides} (hSorted : overrides.IsSorted)
    (h : ∀ entry ∈ overrides, entry.2.Survives) (depth : Nat) :
    Reads (dictionary (Value.reader (depth + 1))) (toJson overrides) (unsignZero overrides) :=
  reads_dictionary hSorted fun entry hEntry => Value.reads (h entry hEntry) depth

end Overrides

namespace Snapshot

structure Survives (s : Snapshot) : Prop where
  params : ∀ e ∈ s.params, e.value.Survives
  sorted : s.overrides.IsSorted
  overrides : ∀ entry ∈ s.overrides, entry.2.Survives

def unsignZero (s : Snapshot) : Snapshot :=
  { s with
    params := s.params.map SnapshotEntry.unsignZero
    overrides := Overrides.unsignZero s.overrides }

theorem toJson_unsignZero (s : Snapshot) : s.unsignZero.toJson = s.toJson := by
  rw [toJson, toJson, unsignZero, List.map_map, Overrides.toJson_unsignZero]
  simp only [Function.comp_def, SnapshotEntry.toJson_unsignZero]

theorem reads {s : Snapshot} (h : s.Survives) : Reads reader s.toJson s.unsignZero := by
  have hTakes : Takes (slotFor SnapshotFields.slots) {}
      [("version".toList, .string s.version),
        ("projectType".toList, .string s.kind.name),
        ("generatedAt".toList, .string s.generatedAt),
        ("params".toList, .array (s.params.map SnapshotEntry.toJson)),
        ("files".toList, .array (s.files.map StylesheetEntry.toJson)),
        ("overrides".toList, s.overrides.toJson)]
      ⟨s.version, s.kind, s.generatedAt, s.params.map SnapshotEntry.unsignZero, s.files,
        Overrides.unsignZero s.overrides⟩ :=
    .slot rfl (reads_textReader s.version) <|
      .slot rfl (ProjectKind.reads s.kind) <|
      .slot rfl (reads_textReader s.generatedAt) <|
      .slot rfl (reads_sequence SnapshotEntry.unsignZero fun e he => SnapshotEntry.reads (h.params e he)) <|
      .slot rfl (StylesheetEntry.reads_all s.files) <|
      .slot rfl (Overrides.reads h.sorted h.overrides _) .nil
  exact reads_record hTakes rfl

end Snapshot

/-! ## Whole documents -/

theorem map_eq_self {α : Type} {f : α → α} {as : List α} (h : ∀ a ∈ as, f a = a) : as.map f = as :=
  (List.map_congr_left h).trans (List.map_id as)

theorem Parameter.unsignZero_eq_self {p : Parameter} (h : p.default ≠ .negativeZero) :
    p.unsignZero = p := by
  rw [unsignZero, Value.unsignZero_eq_self h]

theorem Config.unsignZero_eq_self {c : Config} (h : ∀ p ∈ c.params, p.default ≠ .negativeZero) :
    c.unsignZero = c := by
  rw [unsignZero, map_eq_self fun p hp => Parameter.unsignZero_eq_self (h p hp)]

theorem Snapshot.unsignZero_eq_self {s : Snapshot} (hParams : ∀ e ∈ s.params, e.value ≠ .negativeZero)
    (hOverrides : ∀ entry ∈ s.overrides, entry.2 ≠ .negativeZero) : s.unsignZero = s := by
  have hEntries : s.params.map SnapshotEntry.unsignZero = s.params := by
    refine map_eq_self fun e he => ?_
    rw [SnapshotEntry.unsignZero, Value.unsignZero_eq_self (hParams e he)]
  have hValues : Overrides.unsignZero s.overrides = s.overrides := by
    refine map_eq_self fun entry hEntry => ?_
    rw [Value.unsignZero_eq_self (hOverrides entry hEntry)]
  rw [unsignZero, hEntries, hValues]

/-- Documents whose numbers come back one by one come back whole, but for the sign of a value that
is zero, and what comes back has the same text. -/
theorem Document.parse_pretty (p : Parameter) (c : Config) (s : Snapshot) (hp : p.Survives)
    (hc : c.Survives) (hs : s.Survives) :
    (Parameter.parse p.toJson.pretty = .ok p.unsignZero ∧
      p.unsignZero.toJson.pretty = p.toJson.pretty ∧
      (p.default ≠ .negativeZero → p.unsignZero = p)) ∧
    (Config.parse c.toJson.pretty = .ok c.unsignZero ∧
      c.unsignZero.toJson.pretty = c.toJson.pretty ∧
      ((∀ p ∈ c.params, p.default ≠ .negativeZero) → c.unsignZero = c)) ∧
    (Snapshot.parse s.toJson.pretty = .ok s.unsignZero ∧
      s.unsignZero.toJson.pretty = s.toJson.pretty ∧
      ((∀ e ∈ s.params, e.value ≠ .negativeZero) →
        (∀ entry ∈ s.overrides, entry.2 ≠ .negativeZero) → s.unsignZero = s)) := by
  refine ⟨⟨?_, ?_, ?_⟩, ⟨?_, ?_, ?_⟩, ⟨?_, ?_, ?_⟩⟩
  · exact (Parameter.reads hp _).run
  · rw [Parameter.toJson_unsignZero]
  · exact Parameter.unsignZero_eq_self
  · exact (Config.reads hc).run
  · rw [Config.toJson_unsignZero]
  · exact Config.unsignZero_eq_self
  · exact (Snapshot.reads hs).run
  · rw [Snapshot.toJson_unsignZero]
  · exact Snapshot.unsignZero_eq_self

theorem Document.parse_pretty_gap :
    let source : Source :=
      ⟨.ofString "main.css", "gap".toList, some ".row > \"a\"".toList, some 3, none, "1.5em".toList,
        40, 45⟩
    let p : Parameter :=
      { id := "rig.gap".toList, label := "Größe\n\\".toList, group := .spacing, kind := .number
        min := some (.ofNat 0), max := some (.ofNat 4), step := some (.ofRatio false 1 20)
        default := .number (.ofRatio false 3 2), unit := some "em".toList
        customProperty := "--rig-gap".toList, confidence := .ofRatio false 85 100
        origin := .stylesheet, source }
    let c : Config := ⟨documentVersion, .vanilla, [], [p], [⟨source.file, true⟩]⟩
    let s : Snapshot :=
      { version := documentVersion, kind := .vanilla, generatedAt := [], files := c.files
        params := [⟨p.id, p.label, p.group, p.customProperty, some [], .text "12".toList⟩]
        overrides := [("overrides".toList, .number (.ofNat 12)), (p.id, .text "12".toList)] }
    p.Survives ∧ c.Survives ∧ s.Survives ∧ Parameter.parse p.toJson.pretty = .ok p ∧
      Config.parse c.toJson.pretty = .ok c ∧ Snapshot.parse s.toJson.pretty = .ok s := by
  intro source p c s
  have hDefault : p.default.Survives := fun _ => by decide +kernel
  have hp : p.Survives := by
    constructor
    case default => exact hDefault
    case source => constructor <;> decide
    all_goals decide +kernel
  have hc : c.Survives := by
    rintro _ (_ | ⟨_, ⟨⟩⟩)
    exact hp
  have hs : s.Survives := by
    constructor
    · rintro _ (_ | ⟨_, ⟨⟩⟩)
      exact trivial
    · decide
    · rintro _ (_ | ⟨_, _ | ⟨_, ⟨⟩⟩⟩)
      · intro _
        decide +kernel
      · exact trivial
  obtain ⟨⟨hParameter, -, hp'⟩, ⟨hConfig, -, hc'⟩, ⟨hSnapshot, -, hs'⟩⟩ :=
    Document.parse_pretty p c s hp hc hs
  refine ⟨hp, hc, hs, ?_, ?_, ?_⟩
  · rw [hParameter, hp' (by decide +kernel)]
  · rw [hConfig, hc' (by decide +kernel)]
  · rw [hSnapshot, hs' (by decide +kernel) (by decide +kernel)]

end DesignParams
