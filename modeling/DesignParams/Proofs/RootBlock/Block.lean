import DesignParams.RootBlock
import DesignParams.Proofs.Text.Occurrence
import DesignParams.Proofs.Text.Slug

/-!
# The text of a block

A block is its opening sentinel, one line for each declaration within the rule of the root, and its
closing sentinel. A sentinel can occur between the two only within a value.
-/
set_option autoImplicit false

namespace DesignParams

namespace RootBlock

/-- Can the name be read as that of a declaration, or of a reference? -/
def IsVariable (name : Text) : Prop :=
  ∃ tail : Text, tail ≠ [] ∧ tail.all isNameChar = true ∧ name = lead ++ tail

theorem IsVariable.not_mem {name : Text} (h : IsVariable name) {c : Char}
    (hc : isNameChar c = false) : c ∉ name := by
  obtain ⟨tail, -, hTail, rfl⟩ := h
  have hAll : (lead ++ tail).all isNameChar = true := by
    rw [List.all_append, hTail]
    decide
  intro hMem
  rw [List.all_eq_true.mp hAll c hMem] at hc
  cases hc

theorem isNameChar_of_isStemChar {c : Char} (h : isStemChar c = true) : isNameChar c = true := by
  simp only [isStemChar, isSlugChar, Bool.or_eq_true, Bool.and_eq_true, decide_eq_true_eq] at h
  rcases h with (h | h) | h
  · simp [isNameChar, isAsciiLetter, h]
  · simp [isNameChar, h]
  · simp [isNameChar, h]

theorem isBlank_of_isNameChar {c : Char} (h : isNameChar c = true) : isBlank c = false := by
  rw [← Bool.not_eq_true]
  intro hBlank
  simp only [isNameChar, isAsciiLetter, isAsciiDigit, Bool.or_eq_true, Bool.and_eq_true,
    decide_eq_true_eq] at h
  simp only [isBlank, Bool.or_eq_true, Bool.and_eq_true, decide_eq_true_eq] at hBlank
  rcases h with (((⟨hLow, hHigh⟩ | ⟨hLow, hHigh⟩) | ⟨hLow, hHigh⟩) | rfl) | rfl
  · have h1 : 97 ≤ c.toNat := hLow
    have h2 : c.toNat ≤ 122 := hHigh
    omega
  · have h1 : 65 ≤ c.toNat := hLow
    have h2 : c.toNat ≤ 90 := hHigh
    omega
  · have h1 : 48 ≤ c.toNat := hLow
    have h2 : c.toNat ≤ 57 := hHigh
    omega
  · revert hBlank
    decide
  · revert hBlank
    decide

theorem isVariable_of_isGenerated {name : Text} (h : IsGenerated name) : IsVariable name := by
  obtain ⟨stem, hNonempty, hStem, rfl⟩ := h
  refine ⟨stem, hNonempty, List.all_eq_true.mpr fun c hc => ?_, rfl⟩
  exact isNameChar_of_isStemChar (List.all_eq_true.mp hStem c hc)

def Item.row (item : Item) : Text :=
  [' ', ' '] ++ (item.customProperty ++ ([':', ' '] ++ (item.value ++ [';', '\n'])))

def head : Text :=
  ['\n', ':', 'r', 'o', 'o', 't', ' ', '\x7B', '\n']

def body (items : List Item) : Text :=
  head ++ (items.flatMap Item.row ++ ['\x7D', '\n'])

theorem join_newline (parts : List Text) (last : Text) :
    Text.join ['\n'] (parts ++ [last]) = parts.flatMap (· ++ ['\n']) ++ last := by
  rw [Text.join]
  induction parts with
  | nil => rw [List.nil_append, List.intercalate_singleton, List.flatMap_nil, List.nil_append]
  | cons part parts ih =>
    have hNonempty : parts ++ [last] ≠ [] := by simp
    rw [List.cons_append, List.intercalate_cons_of_ne_nil hNonempty, ih, List.flatMap_cons,
      List.append_assoc]
    simp only [List.append_assoc]

theorem line_append_newline (item : Item) : item.line ++ ['\n'] = item.row := by
  have hIndent : "  ".toList = [' ', ' '] := by decide
  have hColon : ": ".toList = [':', ' '] := by decide
  have hEnd : ";".toList = [';'] := by decide
  have hLine : item.line =
      "  ".toList ++ item.customProperty ++ ": ".toList ++ item.value ++ ";".toList := (rfl)
  rw [hLine, Item.row, hIndent, hColon, hEnd]
  simp only [List.append_assoc, List.cons_append, List.nil_append]

theorem write_eq (items : List Item) : write items = opening ++ (body items ++ closing) := by
  have hRoot : ":root \x7B".toList = [':', 'r', 'o', 'o', 't', ' ', '\x7B'] := by decide
  have hBrace : "\x7D".toList = ['\x7D'] := by decide
  have hWrite : write items = Text.join ['\n']
      (([opening, [':', 'r', 'o', 'o', 't', ' ', '\x7B']] ++ items.map Item.line ++ [['\x7D']]) ++
        [closing]) := by
    rw [write, hRoot, hBrace]
    simp only [List.append_assoc, List.cons_append, List.nil_append]
  have hLines : (items.map Item.line).flatMap (· ++ ['\n']) = items.flatMap Item.row := by
    rw [List.flatMap_map]
    exact List.flatMap_congr fun item _ => line_append_newline item
  rw [hWrite, join_newline]
  simp only [List.flatMap_append, hLines, body, head, List.flatMap_cons, List.flatMap_nil,
    List.append_assoc, List.cons_append, List.nil_append, List.append_nil]

/-! ## Occurrences between the sentinels -/

def IsSentinel (w : Text) : Prop :=
  w = opening ∨ w = closing

def Unmarked (s : Text) : Prop :=
  ∀ w, IsSentinel w → ¬ w <:+: s

theorem unmarked_iff {s : Text} : Unmarked s ↔ ¬ opening <:+: s ∧ ¬ closing <:+: s := by
  constructor
  · exact fun h => ⟨h opening (.inl rfl), h closing (.inr rfl)⟩
  · rintro ⟨hOpening, hClosing⟩ w (rfl | rfl)
    · exact hOpening
    · exact hClosing

theorem IsSentinel.exists_cons {w : Text} (h : IsSentinel w) :
    ∃ u, w = '/' :: u ∧ '/' ∈ w ∧ 'v' ∉ w ∧ ')' ∉ w ∧ ';' ∉ w ∧ '\n' ∉ w := by
  rcases h with rfl | rfl
  · exact ⟨_, rfl, by decide⟩
  · exact ⟨_, rfl, by decide⟩

theorem Unmarked.of_part {s t : Text} (h : Unmarked t) (hInfix : s <:+: t) : Unmarked s :=
  fun w hw hMem => h w hw (hMem.trans hInfix)

theorem IsSentinel.infix_append_mark {w s t : Text} (hw : IsSentinel w)
    (h : w <:+: s ++ ':' :: ' ' :: t) : w <:+: s ∨ w <:+: t := by
  obtain ⟨u, rfl, -⟩ := hw.exists_cons
  have hMark : ¬ [':', ' '] <:+: '/' :: u ∧ [':'] ≠ '/' :: u ∧ ('/' :: u).getLast? = some '/' := by
    rcases hw with hw | hw <;> rw [hw] <;> decide
  rcases Text.infix_append_cases h with h | h | ⟨front, back, -, hBack, hSplit, -, hPrefix⟩
  · exact .inl h
  · exact .inr (Text.infix_of_infix_cons (Text.infix_of_infix_cons h (by decide)) (by decide))
  · -- What is cut off would be the colon, with which no sentinel ends, or go on with the blank.
    obtain ⟨rest, hRest⟩ := hPrefix
    match back with
    | [] => exact absurd rfl hBack
    | [c] =>
      obtain ⟨rfl, -⟩ := List.cons.inj hRest
      have hLast := hMark.2.2
      rw [hSplit, List.getLast?_concat] at hLast
      cases hLast
    | c :: d :: back =>
      obtain ⟨rfl, hBehind⟩ := List.cons.inj hRest
      obtain ⟨rfl, -⟩ := List.cons.inj hBehind
      exact absurd ⟨front, back, by rw [hSplit, List.append_assoc]; rfl⟩ hMark.1

/-- A sentinel occurs between the sentinels of a block only within a name or a value. -/
theorem exists_infix_of_infix_body {w : Text} {items : List Item} (hw : IsSentinel w)
    (h : w <:+: body items) :
    ∃ item ∈ items, w <:+: item.customProperty ∨ w <:+: item.value := by
  obtain ⟨u, rfl, -, -, -, hSemicolon, -⟩ := hw.exists_cons
  rw [body] at h
  replace h := Text.infix_of_infix_append_of_head h (by decide)
  induction items with
  | nil => exact absurd (h.subset List.mem_cons_self) (by decide)
  | cons item items ih =>
    rw [List.flatMap_cons, Item.row] at h
    simp only [List.append_assoc] at h
    replace h := Text.infix_of_infix_append_of_head h (by decide)
    rcases hw.infix_append_mark h with h | h
    · exact ⟨item, List.mem_cons_self, .inl h⟩
    · rcases (Text.infix_append_cons_iff hSemicolon).mp h with h | h
      · exact ⟨item, List.mem_cons_self, .inr h⟩
      · obtain ⟨i, hi, h⟩ := ih (Text.infix_of_infix_cons h (by decide))
        exact ⟨i, List.mem_cons_of_mem item hi, h⟩

theorem exists_infix_value {w : Text} {items : List Item} (hw : IsSentinel w)
    (hNames : ∀ item ∈ items, IsVariable item.customProperty) (h : w <:+: body items) :
    ∃ item ∈ items, w <:+: item.value := by
  obtain ⟨item, hItem, hName | hValue⟩ := exists_infix_of_infix_body hw h
  · obtain ⟨u, rfl, -⟩ := hw.exists_cons
    exact absurd (hName.subset List.mem_cons_self) ((hNames item hItem).not_mem rfl)
  · exact ⟨item, hItem, hValue⟩

theorem unmarked_body {items : List Item} (hNames : ∀ item ∈ items, IsVariable item.customProperty)
    (hValues : ∀ item ∈ items, Unmarked item.value) : Unmarked (body items) := by
  intro w hw hInfix
  obtain ⟨item, hItem, hValue⟩ := exists_infix_value hw hNames hInfix
  exact hValues item hItem w hw hValue

theorem body_eq_append (items : List Item) :
    ∃ s, body items = s ++ ['\n'] :=
  ⟨head ++ (items.flatMap Item.row ++ ['\x7D']), by simp [body]⟩

theorem body_eq_cons (items : List Item) : ∃ s, body items = '\n' :: s :=
  ⟨_, rfl⟩

theorem row_infix_body {item : Item} {items : List Item} (h : item ∈ items) :
    '\n' :: item.row <:+: body items := by
  obtain ⟨front, back, rfl⟩ := List.append_of_mem h
  have hLineEnd : ∃ s, head ++ front.flatMap Item.row = s ++ ['\n'] := by
    rcases List.eq_nil_or_concat front with rfl | ⟨first, last, rfl⟩
    · exact ⟨head.dropLast, rfl⟩
    · refine ⟨head ++ (first.flatMap Item.row ++ ([' ', ' '] ++ (last.customProperty ++ ([':', ' '] ++
        (last.value ++ [';']))))), ?_⟩
      simp [Item.row]
  obtain ⟨s, hs⟩ := hLineEnd
  refine ⟨s, back.flatMap Item.row ++ ['\x7D', '\n'], ?_⟩
  rw [body, List.flatMap_append, List.flatMap_cons, List.append_assoc, List.append_assoc,
    ← List.append_assoc head, hs, List.append_assoc, List.append_assoc]
  rfl

theorem line_infix_write {item : Item} {items : List Item} (h : item ∈ items) :
    '\n' :: item.line ++ ['\n'] <:+: write items := by
  rw [write_eq, List.cons_append, line_append_newline]
  exact (row_infix_body h).trans (List.infix_append' _ _ _)

theorem not_infix_body_append {items : List Item} (h : ¬ closing <:+: body items) :
    ¬ closing <:+: body items ++ closing.dropLast := by
  obtain ⟨s, hs⟩ := body_eq_append items
  rw [hs, List.append_assoc, List.singleton_append, Text.infix_append_cons_iff (by decide)]
  rintro (hInfix | hInfix)
  · exact h (hs ▸ Text.infix_append_left hInfix _)
  · have hLength := hInfix.length_le
    rw [List.length_dropLast] at hLength
    exact absurd hLength (by decide)

theorem not_infix_body {items : List Item} (hNames : ∀ item ∈ items, IsVariable item.customProperty)
    (hValues : ∀ item ∈ items, ¬ closing <:+: item.value) : ¬ closing <:+: body items := by
  intro hBody
  obtain ⟨item, hItem, hValue⟩ := exists_infix_value (.inr rfl) hNames hBody
  exact hValues item hItem hValue

/-- The closing sentinel of a block is the first one of its text. -/
theorem not_infix_opening_body {items : List Item} (h : ¬ closing <:+: body items) :
    ¬ closing <:+: (opening ++ body items) ++ closing.dropLast := by
  obtain ⟨u, hu⟩ := body_eq_cons items
  rw [List.append_assoc, hu, List.cons_append, Text.infix_append_cons_iff (by decide)]
  rintro (hInfix | hInfix)
  · exact absurd hInfix (by decide)
  · refine not_infix_body_append h ?_
    rw [hu]
    exact hInfix.trans (List.suffix_cons _ _).isInfix

/-- A text is split around its first opening sentinel and the first closing one behind it. -/
theorem split?_eq_some_iff {s : Text} {parts : Split} :
    split? s = some parts ↔
      s = parts.before ++ (opening ++ (parts.inner ++ (closing ++ parts.after))) ∧
        ¬ opening <:+: parts.before ++ opening.dropLast ∧
        ¬ closing <:+: parts.inner ++ closing.dropLast := by
  constructor
  · intro h
    rw [split?] at h
    split at h
    · cases h
    · rename_i before rest hOpening
      obtain ⟨⟨inner, after⟩, hClosing, rfl⟩ := Option.map_eq_some_iff.mp h
      refine ⟨?_, Text.not_infix_of_splitOnce? (by decide) hOpening,
        Text.not_infix_of_splitOnce? (by decide) hClosing⟩
      rw [Text.append_of_splitOnce? hOpening, Text.append_of_splitOnce? hClosing]
      simp only [List.append_assoc]
  · rintro ⟨rfl, hBefore, hInner⟩
    have hOpening := Text.splitOnce?_append (t := parts.inner ++ (closing ++ parts.after))
      (by decide) hBefore
    have hClosing := Text.splitOnce?_append (t := parts.after) (by decide) hInner
    rw [List.append_assoc] at hOpening hClosing
    rw [split?, hOpening]
    simp only
    rw [hClosing]
    rfl

def HoldsBlock (s : Text) : Prop :=
  ∃ before inner after, s = before ++ (opening ++ (inner ++ (closing ++ after)))

/-- Is the text cut around its first opening sentinel and the first closing one behind it? -/
structure Split.IsFirst (s : Text) (parts : Split) : Prop where
  text : s = parts.before ++ (opening ++ (parts.inner ++ (closing ++ parts.after)))
  opens : ¬ opening <:+: parts.before ++ opening.dropLast
  closes : ¬ closing <:+: parts.inner ++ closing.dropLast

theorem split?_eq_none_iff {s : Text} : split? s = none ↔ ¬ HoldsBlock s := by
  constructor
  · rintro hNone ⟨before, inner, after, hText⟩
    rw [split?] at hNone
    split at hNone
    · rename_i hOpening
      exact Text.splitOnce?_eq_none_iff.mp hOpening ⟨before, inner ++ (closing ++ after), by
        rw [hText, List.append_assoc]⟩
    · rename_i first rest hOpening
      rw [Option.map_eq_none_iff, Text.splitOnce?_eq_none_iff] at hNone
      have hSplit := Text.append_of_splitOnce? hOpening
      have hFirst := Text.not_infix_of_splitOnce? (by decide) hOpening
      rw [hText, List.append_assoc] at hSplit
      have hSuffix := Text.suffix_of_first hFirst hSplit.symm
      exact hNone (List.IsInfix.trans ⟨inner, after, List.append_assoc _ _ _⟩ hSuffix.isInfix)
  · intro hNone
    cases hSplit : split? s with
    | none => rfl
    | some parts => exact absurd ⟨_, _, _, (split?_eq_some_iff.mp hSplit).1⟩ hNone

theorem split?_eq_none {s : Text} (h : Unmarked s) : split? s = none := by
  rw [split?, Text.splitOnce?_eq_none_iff.mpr (h opening (.inl rfl))]

/-- Putting a block in replaces the region of the first block, or it leaves the text whole. -/
theorem inject_cases (content : Text) :
    (∃ parts : Split, parts.IsFirst content ∧
      ∀ block, inject content block = parts.before ++ (block ++ parts.after)) ∨
    (¬ HoldsBlock content ∧ ∀ block, inject content block = block ++ ("\n\n".toList ++ content)) := by
  cases hSplit : split? content with
  | none =>
    refine .inr ⟨split?_eq_none_iff.mp hSplit, fun block => ?_⟩
    rw [inject, hSplit, ← List.append_assoc]
  | some parts =>
    obtain ⟨hText, hOpens, hCloses⟩ := split?_eq_some_iff.mp hSplit
    refine .inl ⟨parts, ⟨hText, hOpens, hCloses⟩, fun block => ?_⟩
    rw [inject, hSplit, ← List.append_assoc]

theorem not_infix_dropLast_opening : ¬ opening <:+: [] ++ opening.dropLast := by
  intro hInfix
  have hLength := hInfix.length_le
  rw [List.nil_append, List.length_dropLast] at hLength
  exact absurd hLength (by decide)

theorem splitOnce?_write {items : List Item}
    (hNames : ∀ item ∈ items, IsGenerated item.customProperty)
    (hValues : ∀ item ∈ items, Unmarked item.value) (rest : Text) :
    Text.splitOnce? closing (write items ++ rest) = some (opening ++ body items, rest) := by
  have hBody : ¬ closing <:+: body items :=
    not_infix_body (fun item hItem => isVariable_of_isGenerated (hNames item hItem))
      fun item hItem => hValues item hItem closing (.inr rfl)
  have hFirst := Text.splitOnce?_append (t := rest) (by decide) (not_infix_opening_body hBody)
  rw [write_eq, ← List.append_assoc opening]
  exact hFirst

/-- A block is the root block of a text if no opening sentinel begins in front of it. -/
theorem split?_write_of_not_infix {items : List Item} {before : Text}
    (hBody : ¬ closing <:+: body items)
    (hBefore : ¬ opening <:+: before ++ opening.dropLast) (rest : Text) :
    split? (before ++ (write items ++ rest)) = some ⟨before, body items, rest⟩ := by
  rw [split?_eq_some_iff, write_eq]
  refine ⟨?_, hBefore, not_infix_body_append hBody⟩
  simp only [List.append_assoc]

theorem split?_write_append {items : List Item} {before : Text}
    (hNames : ∀ item ∈ items, IsVariable item.customProperty)
    (hValues : ∀ item ∈ items, ¬ closing <:+: item.value)
    (hBefore : ¬ opening <:+: before ++ opening.dropLast) (rest : Text) :
    split? (before ++ (write items ++ rest)) = some ⟨before, body items, rest⟩ :=
  split?_write_of_not_infix (not_infix_body hNames hValues) hBefore rest

theorem split?_write {items : List Item} (hNames : ∀ item ∈ items, IsVariable item.customProperty)
    (hValues : ∀ item ∈ items, ¬ closing <:+: item.value) (rest : Text) :
    split? (write items ++ rest) = some ⟨[], body items, rest⟩ :=
  split?_write_append hNames hValues not_infix_dropLast_opening rest

/-- Where a block is put in does not depend on the block, and no opening sentinel begins before. -/
theorem exists_inject_eq (content : Text) :
    ∃ before after, (∀ block, inject content block = before ++ (block ++ after)) ∧
      ¬ opening <:+: before ++ opening.dropLast := by
  rcases inject_cases content with ⟨parts, hParts, hInject⟩ | ⟨-, hInject⟩
  · exact ⟨parts.before, parts.after, hInject, hParts.opens⟩
  · exact ⟨[], "\n\n".toList ++ content, hInject, not_infix_dropLast_opening⟩

theorem exists_inject (content block : Text) :
    ∃ before after, inject content block = before ++ (block ++ after) ∧
      ¬ opening <:+: before ++ opening.dropLast := by
  obtain ⟨before, after, hInject, hBefore⟩ := exists_inject_eq content
  exact ⟨before, after, hInject block, hBefore⟩

end RootBlock

end DesignParams
