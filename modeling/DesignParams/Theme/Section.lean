import DesignParams.Parameter
import DesignParams.Stylesheet.Property
import DesignParams.Text.WordChar
import DesignParams.Theme.Entry

/-!
# Sections of a theme

A theme configuration keeps its values in sections: object literals under one of seven keys. A
section is found by its key as a whole word, wherever it stands, and its body is the block behind
the colon.
-/
set_option autoImplicit false

namespace DesignParams

inductive Section where
  | colors
  | spacing
  | fontSize
  | lineHeight
  | letterSpacing
  | borderRadius
  | boxShadow
deriving DecidableEq, Repr

namespace Section

def all : List Section :=
  [.colors, .spacing, .fontSize, .lineHeight, .letterSpacing, .borderRadius, .boxShadow]

def key : Section → Text
  | .colors => "colors".toList
  | .spacing => "spacing".toList
  | .fontSize => "fontSize".toList
  | .lineHeight => "lineHeight".toList
  | .letterSpacing => "letterSpacing".toList
  | .borderRadius => "borderRadius".toList
  | .boxShadow => "boxShadow".toList

def group : Section → Group
  | .colors => .colour
  | .spacing => .spacing
  | .fontSize | .lineHeight | .letterSpacing => .typography
  | .borderRadius => .radius
  | .boxShadow => .shadow

def bounds : Section → Bounds
  | .fontSize => Property.boundsOf 800 9600 100
  | .lineHeight => Property.boundsOf 80 300 5
  | .letterSpacing => Property.boundsOf (-200) 1000 10
  | .borderRadius => Property.boundsOf 0 6400 100
  | .spacing => Property.boundsOf 0 25600 100
  | .colors | .boxShadow => Property.boundsOf 0 20000 100

def dropQuote : Text → Text
  | [] => []
  | c :: s => if c = '\'' ∨ c = '"' then s else c :: s

def objectBody? (s : Text) : Option Text :=
  match Text.trimStart s with
  | ':' :: tail =>
    match Text.trimStart tail with
    | '\x7B' :: body => some body
    | _ => none
  | _ => none

/-- What follows a section key that begins here, its colon and its opening brace; `before` is the
character in front. -/
def opening? (key : Text) (before : Option Char) (s : Text) : Option Text :=
  if before.any isWordChar then none
  else
    match Text.after? key s with
    | none => none
    | some rest => if rest.head?.any isWordChar then none else objectBody? (dropQuote rest)

theorem length_dropQuote_le (s : Text) : (dropQuote s).length ≤ s.length := by
  cases s with
  | nil => simp [dropQuote]
  | cons c s => simp only [dropQuote]; split <;> simp

theorem length_objectBody? {s body : Text} (h : objectBody? s = some body) :
    body.length < s.length := by
  have hTrim (t : Text) : (Text.trimStart t).length ≤ t.length :=
    (List.dropWhile_sublist isBlank (l := t)).length_le
  simp only [objectBody?] at h
  split at h
  · rename_i tail hTail
    split at h
    · rename_i found hFound
      simp only [Option.some.injEq] at h
      subst h
      have h1 := hTrim s
      have h2 := hTrim tail
      simp only [hTail, hFound, List.length_cons] at h1 h2
      omega
    · simp at h
  · simp at h

theorem length_opening? {key s body : Text} {before : Option Char}
    (h : opening? key before s = some body) : body.length < s.length := by
  simp only [opening?] at h
  split at h
  · simp at h
  · split at h
    · simp at h
    · rename_i rest hRest
      have hLength := congrArg List.length (Text.append_of_after? hRest)
      split at h
      · simp at h
      · have h1 := length_objectBody? h
        have h2 := length_dropQuote_le rest
        simp only [List.length_append] at hLength
        omega

theorem length_bracedBlock? {s body rest : Text}
    (h : Theme.bracedBlock? s = some (body, rest)) : rest.length < s.length := by
  simp only [Theme.bracedBlock?] at h
  split at h
  · obtain ⟨n, _, hn⟩ := Option.map_eq_some_iff.1 h
    simp only [Prod.mk.injEq] at hn
    obtain ⟨-, rfl⟩ := hn
    simp only [List.length_drop, List.length_cons]
    omega
  · simp at h

/-- The bodies of the blocks under a key that are not blank. The search goes on behind each one,
so a block inside another is not found again. -/
def blocksFrom (key : Text) (before : Option Char) : Text → List Text
  | [] => []
  | c :: s =>
    match _hOpen : opening? key before (c :: s) with
    | none => blocksFrom key (some c) s
    | some body =>
      match _hBlock : Theme.bracedBlock? ('\x7B' :: body) with
      | none => blocksFrom key (some '\x7B') body
      | some (inner, rest) =>
        if Text.isAllBlank inner then blocksFrom key (some '\x7B') body
        else inner :: blocksFrom key (some '\x7D') rest
termination_by s => s.length
decreasing_by
  · simp
  · exact length_opening? _hOpen
  · exact length_opening? _hOpen
  · have h1 := length_opening? _hOpen
    have h2 := length_bracedBlock? _hBlock
    simp only [List.length_cons] at h1 h2 ⊢
    omega

def blocks (source : Text) (s : Section) : List Text :=
  blocksFrom s.key none source

end Section

end DesignParams
