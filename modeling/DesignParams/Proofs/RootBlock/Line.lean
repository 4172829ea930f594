import DesignParams.Proofs.RootBlock.Block
import DesignParams.Proofs.Text.Blank

/-!
# Lines of a block

A block is read line by line. The line that was written for a declaration is read back with its
name, and with a value of one line, or it is passed over; what is read behind it is the next line,
unless a further line of the value begins like a declaration.
-/
set_option autoImplicit false

namespace DesignParams

namespace RootBlock

/-- Does no line of the text but the first begin like a generated name, white space apart? -/
def Unled (s : Text) : Prop :=
  ∀ front rest, s = front ++ '\n' :: rest → ¬ lead <+: Text.trimStart rest

theorem Unled.of_part {s t : Text} (h : Unled t) (hInfix : s <:+: t) : Unled s := by
  obtain ⟨before, after, rfl⟩ := hInfix
  rintro front rest rfl hLead
  refine h (before ++ front) (rest ++ after) (by simp) ?_
  have hNonempty : Text.trimStart rest ≠ [] := by
    rintro hNil
    rw [hNil] at hLead
    exact absurd hLead.length_le (by decide)
  have hTrim : Text.trimStart (rest ++ after) = Text.trimStart rest ++ after := by
    rw [Text.trimStart, Text.trimStart, List.dropWhile_append, if_neg]
    rwa [List.isEmpty_iff]
  rw [hTrim]
  exact hLead.trans (List.prefix_append _ after)

theorem unled_of_not_mem {s : Text} (h : '\n' ∉ s) : Unled s := by
  rintro front rest rfl
  exact absurd (List.mem_append_right front List.mem_cons_self) h

/-- Does the value of a declaration end where its line of the block does? -/
structure Enclosed (s : Text) : Prop where
  unmarked : Unmarked s
  unled : Unled s

/-- The declaration that is read from the line of an item. -/
def Item.reread? (item : Item) : Option Item :=
  (item? item.row).map (·.1)

def Item.IsLegible (item : Item) : Prop :=
  item.reread?.isSome = true

instance (item : Item) : Decidable item.IsLegible :=
  inferInstanceAs (Decidable (_ = true))

/-! ## The end of a line -/

theorem endsLine_append_semicolon (s rest : Text) :
    endsLine (s ++ ';' :: rest) = (Text.leadingBlank s).any (· = '\n') := by
  have hMark : isBlank ';' = false := by decide
  rw [endsLine, Text.trimStart_append_mark hMark, Text.leadingBlank_append_mark hMark]
  simp

theorem lineEnd?_feed (more : Text) : lineEnd? (';' :: '\n' :: more) = some ('\n' :: more) := by
  have hMark : isBlank ';' = false := by decide
  have hBlank : isBlank '\n' = true := by decide
  have hEnds : endsLine ('\n' :: more) = true := by
    rw [endsLine, Text.leadingBlank, List.takeWhile_cons_of_pos hBlank]
    simp
  rw [lineEnd?, Text.trimStart, List.dropWhile_cons_of_neg (by simp [hMark])]
  simp only
  rw [if_pos hEnds]

/-- Where the semicolon that ends a line is looked for does not depend on the lines behind. -/
theorem lineEnd?_cases (s : Text) :
    (∀ more, lineEnd? (s ++ ';' :: '\n' :: more) = none) ∨
      ∃ rest, rest <:+ s ++ [';'] ∧
        ∀ more, lineEnd? (s ++ ';' :: '\n' :: more) = some (rest ++ '\n' :: more) := by
  have hMark : isBlank ';' = false := by decide
  cases hTrim : Text.trimStart s with
  | nil =>
    right
    refine ⟨[], List.nil_suffix, fun more => ?_⟩
    have hFeed := lineEnd?_feed more
    rw [lineEnd?, Text.trimStart, List.dropWhile_cons_of_neg (by simp [hMark])] at hFeed
    rw [lineEnd?, Text.trimStart_append_mark hMark, hTrim, List.nil_append]
    exact hFeed
  | cons c behind =>
    have hSuffix : c :: behind <:+ s := hTrim ▸ List.dropWhile_suffix isBlank
    by_cases hc : c = ';'
    · subst hc
      by_cases hEnds : (Text.leadingBlank behind).any (· = '\n') = true
      · right
        refine ⟨behind ++ [';'], ?_, fun more => ?_⟩
        · obtain ⟨front, rfl⟩ := (List.suffix_cons ';' behind).trans hSuffix
          exact ⟨front, by simp⟩
        · rw [lineEnd?, Text.trimStart_append_mark hMark, hTrim, List.cons_append]
          simp only
          rw [endsLine_append_semicolon, if_pos hEnds]
          simp
      · left
        intro more
        rw [lineEnd?, Text.trimStart_append_mark hMark, hTrim, List.cons_append]
        simp only
        rw [endsLine_append_semicolon, if_neg hEnds]
    · left
      intro more
      rw [lineEnd?, Text.trimStart_append_mark hMark, hTrim, List.cons_append]
      split
      · rename_i hHead
        exact absurd (List.cons.inj hHead).1 hc
      · rfl

/-- What is read as a value stands on one line, and does not depend on the lines behind. -/
theorem valueFrom?_cases (s : Text) :
    (∀ more, valueFrom? (s ++ ';' :: '\n' :: more) = none) ∨
      ∃ value rest, '\n' ∉ value ∧ value <+: s ∧ rest <:+ s ++ [';'] ∧
        ∀ more, valueFrom? (s ++ ';' :: '\n' :: more) = some (value, rest ++ '\n' :: more) := by
  induction s with
  | nil =>
    right
    refine ⟨[], [], List.not_mem_nil, List.nil_prefix, List.nil_suffix, fun more => ?_⟩
    exact valueFrom?_eq_some (lineEnd?_feed more)
  | cons c s ih =>
    rcases lineEnd?_cases (c :: s) with hNone | ⟨rest, hRest, hSome⟩
    · have hGoesOn (more : Text) : lineEnd? (c :: (s ++ ';' :: '\n' :: more)) = none := hNone more
      by_cases hFeed : c = '\n'
      · left
        intro more
        rw [List.cons_append, valueFrom?_cons (hGoesOn more), if_pos hFeed]
      · rcases ih with hRead | ⟨value, rest, hValue, hLead, hRest, hRead⟩
        · left
          intro more
          rw [List.cons_append, valueFrom?_cons (hGoesOn more), if_neg hFeed, hRead]
          rfl
        · right
          refine ⟨c :: value, rest, ?_, List.cons_prefix_cons.mpr ⟨rfl, hLead⟩, ?_, fun more => ?_⟩
          · rw [List.mem_cons, not_or]
            exact ⟨Ne.symm hFeed, hValue⟩
          · exact hRest.trans (List.suffix_cons c _)
          · rw [List.cons_append, valueFrom?_cons (hGoesOn more), if_neg hFeed, hRead]
            rfl
    · right
      refine ⟨[], rest, List.not_mem_nil, List.nil_prefix, hRest, fun more => ?_⟩
      exact valueFrom?_eq_some (hSome more)

theorem lineEnd?_of_not_mem {s : Text} (hText : Text.trimStart s ≠ []) (hLine : '\n' ∉ s)
    (more : Text) : lineEnd? (s ++ ';' :: '\n' :: more) = none := by
  have hMark : isBlank ';' = false := by decide
  have hSuffix : Text.trimStart s <:+ s := List.dropWhile_suffix isBlank
  rw [lineEnd?, Text.trimStart_append_mark hMark]
  obtain ⟨d, rest, hFirst⟩ := List.exists_cons_of_ne_nil hText
  rw [hFirst] at hSuffix ⊢
  rw [List.cons_append]
  by_cases hd : d = ';'
  · subst hd
    simp only
    rw [endsLine_append_semicolon, if_neg]
    intro hFeed
    obtain ⟨e, he, hEq⟩ := List.any_eq_true.mp hFeed
    rw [of_decide_eq_true hEq] at he
    have hMem := (List.takeWhile_prefix isBlank).subset he
    exact hLine (hSuffix.subset (List.mem_cons_of_mem ';' hMem))
  · split
    · rename_i hHead
      exact absurd (List.cons.inj hHead).1 hd
    · rfl

/-- A value of one line is read up to the white space at its end. -/
theorem valueFrom?_of_not_mem {s : Text} (hLine : '\n' ∉ s) (more : Text) :
    valueFrom? (s ++ ';' :: '\n' :: more) = some (Text.trimEnd s, '\n' :: more) := by
  induction s with
  | nil => exact valueFrom?_eq_some (lineEnd?_feed more)
  | cons c s ih =>
    by_cases hText : Text.trimStart (c :: s) = []
    · have hMark : isBlank ';' = false := by decide
      have hFeed := lineEnd?_feed more
      have hEnd : Text.trimEnd (c :: s) = [] := by
        rw [Text.trimEnd, List.reverse_eq_nil_iff, List.dropWhile_eq_nil_iff]
        intro d hd
        exact List.dropWhile_eq_nil_iff.mp hText d (List.mem_reverse.mp hd)
      rw [lineEnd?, Text.trimStart, List.dropWhile_cons_of_neg (by simp [hMark])] at hFeed
      have hRead : lineEnd? (c :: s ++ ';' :: '\n' :: more) = some ('\n' :: more) := by
        rw [lineEnd?, Text.trimStart_append_mark hMark, hText, List.nil_append]
        exact hFeed
      rw [hEnd]
      exact valueFrom?_eq_some hRead
    · have hNone := lineEnd?_of_not_mem hText hLine more
      rw [List.mem_cons, not_or] at hLine
      rw [List.cons_append] at hNone ⊢
      rw [valueFrom?_cons hNone, if_neg (Ne.symm hLine.1), ih hLine.2, Text.trimEnd_cons hText]
      rfl

theorem lineEnd?_of_valueFrom? {s rest : Text} (h : valueFrom? s = some ([], rest)) :
    lineEnd? s = some rest := by
  cases s with
  | nil => cases h
  | cons c s =>
    cases hEnd : lineEnd? (c :: s) with
    | some found =>
      rw [valueFrom?_eq_some hEnd] at h
      rw [(Prod.mk.inj (Option.some.inj h)).2]
    | none =>
      rw [valueFrom?_cons hEnd] at h
      split at h
      · cases h
      · obtain ⟨⟨value, behind⟩, -, hRead⟩ := Option.map_eq_some_iff.mp h
        cases (Prod.mk.inj hRead).1

theorem getLast?_of_valueFrom? {s value rest : Text} (h : valueFrom? s = some (value, rest)) :
    value.getLast?.any isBlank = false := by
  induction s generalizing value with
  | nil => cases h
  | cons c s ih =>
    cases hEnd : lineEnd? (c :: s) with
    | some found =>
      rw [valueFrom?_eq_some hEnd] at h
      obtain ⟨rfl, -⟩ := Prod.mk.inj (Option.some.inj h)
      rfl
    | none =>
      rw [valueFrom?_cons hEnd] at h
      split at h
      · cases h
      · obtain ⟨⟨short, behind⟩, hShort, hRead⟩ := Option.map_eq_some_iff.mp h
        obtain ⟨rfl, rfl⟩ := Prod.mk.inj hRead
        cases short with
        | cons d short =>
          have hLast := ih hShort
          exact hLast
        | nil =>
          -- White space would belong to the end of the line.
          have hBehind := lineEnd?_of_valueFrom? hShort
          cases hBlank : isBlank c with
          | false => simpa using hBlank
          | true =>
            rw [lineEnd?, Text.trimStart, List.dropWhile_cons_of_pos hBlank] at hEnd
            rw [lineEnd?, Text.trimStart, hEnd] at hBehind
            cases hBehind

/-! ## Names -/

theorem takeWhile_isNameChar {s : Text} (h : ∀ c ∈ s.head?, isNameChar c = false) :
    s.takeWhile isNameChar = [] := by
  cases s with
  | nil => rfl
  | cons c s => rw [List.takeWhile_cons_of_neg (by simp [h c rfl])]

theorem dropWhile_isNameChar {s : Text} (h : ∀ c ∈ s.head?, isNameChar c = false) :
    s.dropWhile isNameChar = s := by
  cases s with
  | nil => rfl
  | cons c s => rw [List.dropWhile_cons_of_neg (by simp [h c rfl])]

/-- The name at the start of a text is the longest one that stands there. -/
theorem name?_eq_some_iff {s name rest : Text} :
    name? s = some (name, rest) ↔
      s = name ++ rest ∧ IsVariable name ∧ ∀ c ∈ rest.head?, isNameChar c = false := by
  constructor
  · intro h
    rw [name?] at h
    split at h
    · cases h
    · rename_i found hAfter
      simp only at h
      split at h
      · cases h
      · rename_i hNonempty
        obtain ⟨rfl, rfl⟩ := Prod.mk.inj (Option.some.inj h)
        refine ⟨?_, ⟨_, by simpa using hNonempty, List.all_takeWhile, rfl⟩, ?_⟩
        · rw [List.append_assoc, List.takeWhile_append_dropWhile]
          exact Text.append_of_after? hAfter
        · intro c hc
          have hStop := List.head?_dropWhile_not isNameChar found
          rw [hc] at hStop
          simpa using hStop
  · rintro ⟨rfl, ⟨tail, hNonempty, hTail, rfl⟩, hLongest⟩
    have hAll : ∀ d ∈ tail, isNameChar d = true := fun d hd => List.all_eq_true.mp hTail d hd
    have hTake : (tail ++ rest).takeWhile isNameChar = tail := by
      rw [List.takeWhile_append_of_pos hAll, takeWhile_isNameChar hLongest, List.append_nil]
    have hDrop : (tail ++ rest).dropWhile isNameChar = rest := by
      rw [List.dropWhile_append_of_pos hAll, dropWhile_isNameChar hLongest]
    rw [name?, List.append_assoc, Text.after?_append]
    simp only
    rw [hTake, hDrop, if_neg (by simpa using hNonempty)]

theorem isVariable_iff {name : Text} : IsVariable name ↔ name? name = some (name, []) := by
  rw [name?_eq_some_iff, List.append_nil]
  constructor
  · exact fun h => ⟨rfl, h, fun _ hc => by cases hc⟩
  · exact fun h => h.2.1

instance (name : Text) : Decidable (IsVariable name) :=
  decidable_of_iff _ isVariable_iff.symm

theorem name?_append {name rest : Text} {c : Char} (hName : IsVariable name)
    (hc : isNameChar c = false) : name? (name ++ c :: rest) = some (name, c :: rest) := by
  refine name?_eq_some_iff.mpr ⟨rfl, hName, ?_⟩
  rintro d ⟨⟩
  exact hc

theorem name?_eq_none {s : Text} (h : ¬ lead <+: s) : name? s = none := by
  rw [name?]
  split
  · rfl
  · rename_i hAfter
    exact absurd ⟨_, (Text.append_of_after? hAfter).symm⟩ h

/-! ## The line of a declaration -/

theorem item?_eq_none {s : Text} (h : ¬ lead <+: Text.trimStart s) : item? s = none := by
  rw [item?, name?_eq_none h]

theorem trimStart_variable {name : Text} (h : IsVariable name) (rest : Text) :
    Text.trimStart (name ++ rest) = name ++ rest := by
  obtain ⟨tail, -, -, rfl⟩ := h
  have hLead : lead = ['-', '-', 'r', 'i', 'g', '-'] := by decide
  have hDash : isBlank '-' = false := by decide
  rw [hLead, Text.trimStart, List.append_assoc, List.cons_append,
    List.dropWhile_cons_of_neg (by simp [hDash])]

theorem item?_row {item : Item} (hName : IsVariable item.customProperty) (more : Text) :
    item? (item.row ++ more) =
      (valueFrom? (Text.trimStart item.value ++ ';' :: '\n' :: more)).map
        fun (value, rest) => (⟨item.customProperty, value⟩, rest) := by
  have hRow : item.row ++ more =
      [' ', ' '] ++ (item.customProperty ++ ':' :: ([' '] ++ (item.value ++ ';' :: '\n' :: more))) := by
    simp [Item.row]
  have hColon : isBlank ':' = false := by decide
  have hSemicolon : isBlank ';' = false := by decide
  rw [item?, hRow, Text.trimStart_append_of_blank (by decide), trimStart_variable hName,
    name?_append hName (by decide)]
  simp only
  rw [Text.trimStart, List.dropWhile_cons_of_neg (by simp [hColon])]
  simp only
  rw [Text.trimStart_append_of_blank (by decide), Text.trimStart_append_mark hSemicolon]

/-- The line of an item is passed over, or it is read up to the last line feed at most. -/
theorem Item.reread?_cases {item : Item} (hName : IsVariable item.customProperty) :
    (item.reread? = none ∧ ∀ more, item? (item.row ++ more) = none) ∨
      ∃ value rest, item.reread? = some ⟨item.customProperty, value⟩ ∧ '\n' ∉ value ∧
        value <:+: item.value ∧ rest <:+ item.value ++ [';'] ∧
        ∀ more, item? (item.row ++ more) =
          some (⟨item.customProperty, value⟩, rest ++ '\n' :: more) := by
  have hTrim : Text.trimStart item.value <:+ item.value := List.dropWhile_suffix isBlank
  have hAlone := item?_row hName []
  rw [List.append_nil] at hAlone
  rcases valueFrom?_cases (Text.trimStart item.value) with
    hNone | ⟨value, rest, hValue, hLead, hRest, hSome⟩
  · left
    refine ⟨?_, fun more => ?_⟩
    · rw [Item.reread?, hAlone, hNone]
      rfl
    · rw [item?_row hName, hNone]
      rfl
  · right
    refine ⟨value, rest, ?_, hValue, hLead.isInfix.trans hTrim.isInfix, ?_, fun more => ?_⟩
    · rw [Item.reread?, hAlone, hSome]
      rfl
    · exact hRest.trans ((List.suffix_append_inj_of_length_eq rfl).mpr ⟨hTrim, rfl⟩)
    · rw [item?_row hName, hSome]
      rfl

/-- A declaration with a value of one line is read back, without the white space around the value. -/
theorem Item.reread?_of_not_mem {item : Item} (hName : IsVariable item.customProperty)
    (hLine : '\n' ∉ item.value) :
    item.reread? = some ⟨item.customProperty, Text.trim item.value⟩ := by
  have hTrim : '\n' ∉ Text.trimStart item.value := fun hMem =>
    hLine ((List.dropWhile_suffix isBlank).subset hMem)
  have hRow := item?_row hName []
  rw [List.append_nil, valueFrom?_of_not_mem hTrim, Option.map_some] at hRow
  rw [Item.reread?, hRow]
  rfl

theorem Item.isLegible_of_not_mem {item : Item} (hName : IsVariable item.customProperty)
    (h : '\n' ∉ item.value) : item.IsLegible := by
  rw [Item.IsLegible, reread?_of_not_mem hName h]
  rfl

theorem Item.reread?_eq_self {item : Item} (hName : IsVariable item.customProperty)
    (hLine : '\n' ∉ item.value) (hTrim : Text.trim item.value = item.value) :
    item.reread? = some item := by
  rw [reread?_of_not_mem hName hLine, hTrim]

theorem Item.of_reread? {item read : Item} (hName : IsVariable item.customProperty)
    (h : item.reread? = some read) :
    read.customProperty = item.customProperty ∧ '\n' ∉ read.value ∧
      Text.trim read.value = read.value := by
  rcases reread?_cases hName with ⟨hNone, -⟩ | ⟨value, rest, hSome, hLine, -, -, hRow⟩
  · rw [hNone] at h
    cases h
  · rw [hSome] at h
    obtain rfl := Option.some.inj h
    have hRead := hRow []
    rw [item?_row hName] at hRead
    obtain ⟨⟨short, behind⟩, hShort, hEq⟩ := Option.map_eq_some_iff.mp hRead
    obtain ⟨hItem, rfl⟩ := Prod.mk.inj hEq
    obtain rfl : short = value := congrArg Item.value hItem
    have hHead : short.head?.any isBlank = false := by
      rcases valueFrom?_cases (Text.trimStart item.value) with hNone | ⟨v, r, -, hLead, -, hAll⟩
      · rw [hNone []] at hShort
        cases hShort
      · rw [hAll []] at hShort
        obtain ⟨rfl, -⟩ := Prod.mk.inj (Option.some.inj hShort)
        exact Text.head?_of_prefix hLead (Text.head?_trimStart item.value)
    exact ⟨rfl, hLine, Text.trim_eq_self_iff.mpr ⟨hHead, getLast?_of_valueFrom? hShort⟩⟩

theorem Item.reread?_of_reread? {item read : Item} (hName : IsVariable item.customProperty)
    (h : item.reread? = some read) : read.reread? = some read := by
  obtain ⟨hSame, hLine, hTrim⟩ := of_reread? hName h
  exact reread?_eq_self (hSame ▸ hName) hLine hTrim

/-! ## The lines of a block -/

theorem itemsFrom_false (c : Char) (s : Text) :
    itemsFrom false (c :: s) = itemsFrom (c = '\n') s := by
  rw [itemsFrom]
  simp only [Bool.false_eq_true, ↓reduceIte]

theorem itemsFrom_none {c : Char} {s : Text} (h : item? (c :: s) = none) (atLineStart : Bool) :
    itemsFrom atLineStart (c :: s) = itemsFrom (c = '\n') s := by
  cases atLineStart with
  | false => exact itemsFrom_false c s
  | true =>
    rw [itemsFrom, if_pos rfl]
    split
    · rename_i hItem
      rw [h] at hItem
      cases hItem
    · rfl

theorem itemsFrom_some {s rest : Text} {item : Item} (h : item? s = some (item, rest)) :
    itemsFrom true s = item :: itemsFrom false rest := by
  cases s with
  | nil => cases h
  | cons c s =>
    rw [itemsFrom, if_pos rfl]
    split
    · rename_i hItem
      rw [h] at hItem
      cases hItem
      rfl
    · rename_i hItem
      rw [h] at hItem
      cases hItem

/-- A text whose lines do not begin like a declaration is passed over. -/
theorem itemsFrom_append {c : Char} (hMark : c ∉ lead) (hBlank : isBlank c = false) (rest : Text) :
    ∀ (s : Text) (atLineStart : Bool), Unled s →
      (atLineStart = true → ¬ lead <+: Text.trimStart s) →
      itemsFrom atLineStart (s ++ c :: rest) = itemsFrom false rest := by
  have hFeed : c ≠ '\n' := by
    rintro rfl
    exact absurd hBlank (by decide)
  have hNone (s : Text) (h : ¬ lead <+: Text.trimStart s) : item? (s ++ c :: rest) = none := by
    refine item?_eq_none ?_
    rw [Text.trimStart_append_mark hBlank, Text.prefix_append_iff]
    · exact h
    · intro d hd
      obtain rfl := Option.some.inj hd
      exact hMark
  intro s
  induction s with
  | nil =>
    intro atLineStart _ hFirst
    have hHere : item? (c :: rest) = none := hNone [] (by decide)
    rw [List.nil_append, itemsFrom_none hHere]
    simp [hFeed]
  | cons d s ih =>
    intro atLineStart hUnled hFirst
    have hStep : itemsFrom atLineStart (d :: s ++ c :: rest) =
        itemsFrom (d = '\n') (s ++ c :: rest) := by
      cases atLineStart with
      | false => exact itemsFrom_false d _
      | true => exact itemsFrom_none (hNone (d :: s) (hFirst rfl)) true
    rw [hStep]
    refine ih _ (hUnled.of_part (List.suffix_cons d s).isInfix) fun hd => ?_
    exact hUnled [] s (by rw [of_decide_eq_true hd, List.nil_append])

theorem Unled.append_left {front s : Text} (hFront : '\n' ∉ front) (h : Unled s) :
    Unled (front ++ s) := by
  intro before rest hSplit
  rcases List.append_eq_append_iff.mp hSplit with ⟨back, rfl, hs⟩ | ⟨back, rfl, hs⟩
  · exact h back rest hs
  · cases back with
    | nil => exact h [] rest hs.symm
    | cons d back =>
      rw [← (List.cons.inj hs).1] at hFront
      exact absurd (List.mem_append_right before List.mem_cons_self) hFront

/-- Reading goes from the line of a declaration to the next one. -/
theorem itemsFrom_row {item : Item} (hName : IsVariable item.customProperty)
    (hValue : Unled item.value) (more : Text) :
    itemsFrom true (item.row ++ more) = item.reread?.toList ++ itemsFrom true more := by
  have hSemicolon : ';' ∉ lead ∧ isBlank ';' = false := by decide
  have hFeed : itemsFrom false ('\n' :: more) = itemsFrom true more := by
    rw [itemsFrom_false]
    rfl
  rcases Item.reread?_cases hName with ⟨hReread, hNone⟩ | ⟨value, rest, hReread, -, -, hRest, hSome⟩
  · have hRow : item.row ++ more =
        ' ' :: (([' '] ++ (item.customProperty ++ [':', ' ']) ++ item.value) ++ ';' :: '\n' :: more) := by
      simp [Item.row]
    have hFront : '\n' ∉ [' '] ++ (item.customProperty ++ [':', ' ']) := by
      simp [hName.not_mem (c := '\n') rfl]
    have hPass := hNone more
    rw [hRow] at hPass
    rw [hRow, itemsFrom_none hPass, hReread, itemsFrom_append hSemicolon.1 hSemicolon.2 _ _ _
      (hValue.append_left hFront) (by simp), hFeed]
    rfl
  · rw [itemsFrom_some (hSome more), hReread, Option.toList_some, List.singleton_append]
    congr 1
    rcases List.suffix_concat_iff.mp hRest with rfl | ⟨back, rfl, hBack⟩
    · exact hFeed
    · rw [List.append_assoc, List.singleton_append, itemsFrom_append hSemicolon.1 hSemicolon.2 _ _ _
        (hValue.of_part hBack.isInfix) (by simp), hFeed]

theorem items_body {items : List Item} (hNames : ∀ item ∈ items, IsVariable item.customProperty)
    (hValues : ∀ item ∈ items, Unled item.value) :
    RootBlock.items (body items) = items.filterMap Item.reread? := by
  have hRows (tail : Text) : itemsFrom true (items.flatMap Item.row ++ tail) =
      items.filterMap Item.reread? ++ itemsFrom true tail := by
    induction items with
    | nil => rfl
    | cons item items ih =>
      have hBehind := ih (fun i hi => hNames i (List.mem_cons_of_mem item hi))
        (fun i hi => hValues i (List.mem_cons_of_mem item hi))
      rw [List.flatMap_cons, List.append_assoc, itemsFrom_row (hNames item List.mem_cons_self)
        (hValues item List.mem_cons_self), hBehind, List.filterMap_cons]
      cases item.reread? <;> rfl
  have hHead : opening ++ body items ++ closing =
      (opening ++ ['\n', ':', 'r', 'o', 'o', 't', ' ']) ++
        '\x7B' :: '\n' :: (items.flatMap Item.row ++ (['\x7D', '\n'] ++ closing)) := by
    simp [body, head]
  have hOpening : Unled (opening ++ ['\n', ':', 'r', 'o', 'o', 't', ' ']) := by
    intro front rest hSplit hLead
    have hDash : '-' ∈ Text.trimStart rest := hLead.subset (by decide)
    have hBehind := (List.dropWhile_suffix isBlank).subset hDash
    have hMem := List.mem_append_right front (List.mem_cons_of_mem '\n' hBehind)
    rw [← hSplit] at hMem
    exact absurd hMem (by decide)
  have hTail : itemsFrom true (['\x7D', '\n'] ++ closing) = [] := by
    decide +kernel
  rw [RootBlock.items, hHead, itemsFrom_append (by decide) (by decide) _ _ _ hOpening (by decide),
    itemsFrom_false]
  have hFeed : decide ('\n' = '\n') = true := rfl
  rw [hFeed, hRows, hTail, List.append_nil]

/-- Declarations with values of one line are all read, without the white space around the values. -/
theorem items_body_of_lines {items : List Item}
    (hNames : ∀ item ∈ items, IsVariable item.customProperty)
    (hLines : ∀ item ∈ items, '\n' ∉ item.value) :
    RootBlock.items (body items) =
      items.map fun item => ⟨item.customProperty, Text.trim item.value⟩ := by
  rw [items_body hNames fun item hItem => unled_of_not_mem (hLines item hItem),
    ← List.filterMap_eq_map]
  exact List.filterMap_congr fun item hItem =>
    Item.reread?_of_not_mem (hNames item hItem) (hLines item hItem)

theorem Item.isLegible_iff {item : Item} (hName : IsVariable item.customProperty) :
    item.IsLegible ↔ ∃ value, item.reread? = some ⟨item.customProperty, value⟩ := by
  rw [IsLegible, Option.isSome_iff_exists]
  constructor
  · rintro ⟨read, hRead⟩
    rcases reread?_cases hName with ⟨hNone, -⟩ | ⟨value, rest, hSome, -⟩
    · rw [hNone] at hRead
      cases hRead
    · exact ⟨value, hSome⟩
  · rintro ⟨value, hRead⟩
    exact ⟨_, hRead⟩

theorem sublist_distinct (seen : List Text) (items : List Item) :
    (distinct seen items).Sublist items := by
  induction items generalizing seen with
  | nil => exact .slnil
  | cons item items ih =>
    rw [distinct]
    split
    · exact (ih seen).cons item
    · exact (ih _).cons_cons item

theorem mem_map_distinct_iff {name : Text} {seen : List Text} {items : List Item} :
    name ∈ (distinct seen items).map (·.customProperty) ↔
      name ∉ seen ∧ name ∈ items.map (·.customProperty) := by
  induction items generalizing seen with
  | nil => simp [distinct]
  | cons item items ih =>
    rw [distinct, List.map_cons, List.mem_cons]
    split
    · rename_i hSeen
      rw [ih]
      have hMem : item.customProperty ∈ seen := by simpa using hSeen
      constructor
      · rintro ⟨hNew, hName⟩
        exact ⟨hNew, .inr hName⟩
      · rintro ⟨hNew, rfl | hName⟩
        · exact absurd hMem hNew
        · exact ⟨hNew, hName⟩
    · rename_i hSeen
      have hNew : item.customProperty ∉ seen := by simpa using hSeen
      rw [List.map_cons, List.mem_cons, ih, List.mem_cons, not_or]
      constructor
      · rintro (rfl | ⟨⟨-, hOld⟩, hName⟩)
        · exact ⟨hNew, .inl rfl⟩
        · exact ⟨hOld, .inr hName⟩
      · rintro ⟨hOld, rfl | hName⟩
        · exact .inl rfl
        · by_cases hSame : name = item.customProperty
          · exact .inl hSame
          · exact .inr ⟨⟨hSame, hOld⟩, hName⟩

theorem distinct_eq_self {seen : List Text} {items : List Item}
    (hNames : (items.map (·.customProperty)).Nodup)
    (hSeen : ∀ item ∈ items, item.customProperty ∉ seen) : distinct seen items = items := by
  induction items generalizing seen with
  | nil => rfl
  | cons item items ih =>
    rw [List.map_cons, List.nodup_cons] at hNames
    rw [List.forall_mem_cons] at hSeen
    rw [distinct, if_neg (by simpa using hSeen.1)]
    congr 1
    refine ih hNames.2 fun i hi hMem => ?_
    rcases List.mem_cons.mp hMem with hSame | hMem
    · exact hNames.1 (hSame ▸ List.mem_map_of_mem hi)
    · exact hSeen.2 i hi hMem

/-! ## The names that a block declares -/

def Declares (inner name : Text) : Prop :=
  '\n' :: ([' ', ' '] ++ (name ++ [':', ' '])) <:+: inner

instance (inner name : Text) : Decidable (Declares inner name) :=
  inferInstanceAs (Decidable (_ <:+: _))

theorem Unled.not_line {s name : Text} (h : Unled s) (hName : IsVariable name) (rest : Text) :
    ¬ '\n' :: ([' ', ' '] ++ (name ++ rest)) <:+: s := by
  rintro ⟨before, after, rfl⟩
  refine h before ([' ', ' '] ++ (name ++ (rest ++ after))) (by simp) ?_
  rw [Text.trimStart_append_of_blank (by decide), trimStart_variable hName]
  obtain ⟨stem, -, -, rfl⟩ := hName
  rw [List.append_assoc]
  exact List.prefix_append lead _

/-- Only the value of a row could hold another line, and none of its lines begins so. -/
theorem not_line_of_row {item : Item} {name : Text} (hName : IsVariable name)
    (hItem : IsVariable item.customProperty) (hValue : Unled item.value) :
    ¬ '\n' :: ([' ', ' '] ++ (name ++ [':', ' '])) <:+:
      [' ', ' '] ++ (item.customProperty ++ ([':', ' '] ++ (item.value ++ [';']))) := by
  intro h
  replace h := Text.infix_of_infix_append_of_head h (by decide)
  replace h := Text.infix_of_infix_append_of_head h (hItem.not_mem rfl)
  replace h := Text.infix_of_infix_append_of_head h (by decide)
  have hLast : '\n' :: ([' ', ' '] ++ (name ++ [':', ' '])) =
      ('\n' :: ([' ', ' '] ++ (name ++ [':']))) ++ [' '] := by simp
  rw [hLast] at h
  have hInValue := Text.infix_of_infix_append_of_last h (by decide)
  rw [← hLast] at hInValue
  exact hValue.not_line hName _ hInValue

theorem declares_rows_iff {items : List Item} {name : Text} (hName : IsVariable name)
    (hNames : ∀ item ∈ items, IsVariable item.customProperty)
    (hValues : ∀ item ∈ items, Unled item.value) :
    Declares ('\n' :: (items.flatMap Item.row ++ ['\x7D', '\n'])) name ↔
      name ∈ items.map (·.customProperty) := by
  have hMark : '\n' ∉ [' ', ' '] ++ (name ++ [':', ' ']) := by
    simp [hName.not_mem (c := '\n') rfl]
  induction items with
  | nil =>
    constructor
    · intro h
      have hBlank : ' ' ∈ ['\n', '\x7D', '\n'] := h.subset (by simp)
      exact absurd hBlank (by decide)
    · intro h
      cases h
  | cons item items ih =>
    have hItem := hNames item List.mem_cons_self
    have hBehind := ih (fun i hi => hNames i (List.mem_cons_of_mem item hi))
      (fun i hi => hValues i (List.mem_cons_of_mem item hi))
    have hRow : (item :: items).flatMap Item.row ++ ['\x7D', '\n'] =
        ([' ', ' '] ++ (item.customProperty ++ ([':', ' '] ++ (item.value ++ [';'])))) ++
          '\n' :: (items.flatMap Item.row ++ ['\x7D', '\n']) := by
      simp [Item.row]
    rw [List.map_cons, List.mem_cons, Declares, hRow]
    constructor
    · intro h
      rcases Text.infix_append_mark (s := []) hMark h with hNil | hLead | hInfix
      · cases List.infix_nil.mp hNil
      · left
        obtain ⟨behind, hSplit⟩ := hLead
        simp only [List.append_assoc, List.cons_append, List.nil_append, List.cons.injEq,
          true_and] at hSplit
        exact (Text.append_cons_inj_left (hName.not_mem rfl)
          (hItem.not_mem rfl) hSplit).1
      · right
        refine hBehind.mp ?_
        rcases Text.infix_append_mark hMark hInfix with hLine | hNext | hNext
        · exact (not_line_of_row hName hItem (hValues item List.mem_cons_self) hLine).elim
        · exact (List.cons_prefix_cons.mpr ⟨rfl, hNext⟩).isInfix
        · exact hNext.trans (List.suffix_cons _ _).isInfix
    · rintro (rfl | h)
      · refine List.IsPrefix.isInfix ⟨item.value ++ (';' :: '\n' :: (items.flatMap Item.row ++
          ['\x7D', '\n'])), ?_⟩
        simp
      · exact Text.infix_append_right ('\n' :: _) (hBehind.mpr h)

theorem declares_body_iff {items : List Item} {name : Text} (hName : IsVariable name)
    (hNames : ∀ item ∈ items, IsVariable item.customProperty)
    (hValues : ∀ item ∈ items, Unled item.value) :
    Declares (body items) name ↔ name ∈ items.map (·.customProperty) := by
  rw [← declares_rows_iff hName hNames hValues]
  have hHead : body items = ['\n', ':', 'r', 'o', 'o', 't', ' ', '\x7B'] ++
      '\n' :: (items.flatMap Item.row ++ ['\x7D', '\n']) := by
    simp [body, head]
  rw [hHead]
  constructor
  · intro h
    have hMark : '\n' ∉ [' ', ' '] ++ (name ++ [':', ' ']) := by
      simp [hName.not_mem (c := '\n') rfl]
    have hDash : '-' ∈ name := by
      obtain ⟨stem, -, -, rfl⟩ := hName
      exact List.mem_append_left stem (by decide)
    rcases Text.infix_append_mark hMark h with hInHead | hNext | hNext
    · have hMem : '-' ∈ ['\n', ':', 'r', 'o', 'o', 't', ' ', '\x7B'] :=
        hInHead.subset (by simp [hDash])
      exact absurd hMem (by decide)
    · exact (List.cons_prefix_cons.mpr ⟨rfl, hNext⟩).isInfix
    · exact hNext.trans (List.suffix_cons _ _).isInfix
  · exact fun h => Text.infix_append_right _ h

end RootBlock

end DesignParams
