import DesignParams.Proofs.Stylesheet.ReadBack
import DesignParams.Proofs.Stylesheet.RuleSheet

/-!
# Two readings of one sheet

The search for pairs knows nothing of rules and brackets, and still it finds the declarations of a
sheet of style rules where the reader of rules finds them: a colon in a selector or in a prelude
begins no pair, since a bracket follows it before any semicolon.
-/
set_option autoImplicit false

namespace DesignParams

namespace Declaration

def unselected (d : Declaration) : Declaration :=
  { d with selector := [] }

theorem located_map_unselected (css : Text) (declarations : List Declaration) :
    located css (declarations.map unselected) = (located css declarations).map unselected := by
  simp only [located, List.map_map]
  rfl

/-! ## Steps of the search -/

theorem isPairName_eq_false_of_isBlank {c : Char} (h : isBlank c = true) :
    isPairName c = false := by
  cases hName : isPairName c with
  | false => rfl
  | true =>
    rw [isPairName, Bool.or_eq_true, decide_eq_true_eq] at hName
    rcases hName with hLetter | rfl
    · rw [Sheet.not_isBlank_of_isAsciiLetter hLetter] at h
      cases h
    · cases h

theorem pairValue?_colon {gap raw : Text} (hGap : gap.all isBlank = true)
    (hRaw : raw.all isPairValue = true) (hValue : Text.trim raw ≠ []) (rest : Text) :
    pairValue? (gap ++ ':' :: (raw ++ ';' :: rest)) =
      some (gap ++ ':' :: Text.leadingBlank raw, Text.trim raw, rest) := by
  have hGapAll := List.all_eq_true.mp hGap
  have hRawAll := List.all_eq_true.mp hRaw
  have hColon : ¬ isBlank ':' = true := by decide
  have hSemicolon : ¬ isPairValue ';' = true := by decide
  simp only [pairValue?, List.takeWhile_append_of_pos hGapAll, List.dropWhile_append_of_pos hGapAll,
    List.takeWhile_cons_of_neg hColon, List.dropWhile_cons_of_neg hColon,
    List.takeWhile_append_of_pos hRawAll, List.dropWhile_append_of_pos hRawAll,
    List.takeWhile_cons_of_neg hSemicolon, List.dropWhile_cons_of_neg hSemicolon, List.append_nil]
  rw [if_neg (by simpa using hValue)]

theorem pairsFrom_name {name tail : Text} (hName : name.all isPairName = true)
    (hNonempty : name ≠ []) (hTail : tail.head?.any isPairName = false) (offset : Nat) :
    pairsFrom offset (name ++ tail) =
      match pairValue? tail with
      | some (before, value, rest) =>
        let start := offset + Text.byteLength name + Text.byteLength before
        { property := Text.asciiLowered name, value, start, stop := start + Text.byteLength value,
          selector := [], position := ⟨0, 0⟩ } ::
          pairsFrom (offset + Text.byteLength name +
            (Text.byteLength tail - Text.byteLength rest)) rest
      | none => pairsFrom (offset + Text.byteLength name) tail := by
  obtain ⟨c, n, rfl⟩ := List.exists_cons_of_ne_nil hNonempty
  rw [List.all_cons, Bool.and_eq_true] at hName
  have hAll := List.all_eq_true.mp hName.2
  obtain ⟨hTake, hDrop⟩ : (n ++ tail).takeWhile isPairName = n ∧
      (n ++ tail).dropWhile isPairName = tail := by
    rw [List.takeWhile_append_of_pos hAll, List.dropWhile_append_of_pos hAll]
    cases tail with
    | nil => exact ⟨List.append_nil n, rfl⟩
    | cons d tail =>
      have hd : ¬ isPairName d = true := by simpa using hTail
      rw [List.takeWhile_cons_of_neg hd, List.dropWhile_cons_of_neg hd]
      exact ⟨List.append_nil n, rfl⟩
  rw [List.cons_append, pairsFrom, if_pos hName.1]
  simp only [hTake]
  split
  · rename_i hFound
    rw [hDrop] at hFound ⊢
    rw [hFound]
  · rename_i hNone
    rw [hDrop] at hNone ⊢
    rw [hNone]

section Bracket

variable {b : Char} (hb : b = '\x7B' ∨ b = '\x7D')

include hb

theorem pairValue?_bracket {s : Text} (hs : s.all isPairValue = true) (rest : Text) :
    pairValue? (s ++ b :: rest) = none := by
  have hBlank : isBlank b = false := by rcases hb with rfl | rfl <;> decide
  have hBehind := Text.trimStart_append_mark hBlank s rest
  rw [Text.trimStart, Text.trimStart] at hBehind
  simp only [pairValue?, hBehind]
  cases hTail : s.dropWhile isBlank with
  | nil => rcases hb with rfl | rfl <;> rfl
  | cons c u =>
    rw [List.cons_append]
    split
    · rename_i tail hColon
      have hu : ∀ d ∈ u, isPairValue d = true := by
        intro d hd
        have hMem : d ∈ s.dropWhile isBlank := hTail ▸ List.mem_cons_of_mem c hd
        exact List.all_eq_true.mp hs d ((List.dropWhile_sublist _).subset hMem)
      obtain rfl := (List.cons.inj hColon).2
      rw [List.dropWhile_append_of_pos hu]
      rcases hb with rfl | rfl <;> rfl
    · rfl

/-- Nothing up to a bracket is a pair unless a semicolon precedes it. -/
theorem pairsFrom_bracket {s : Text} (hs : s.all isPairValue = true) (offset : Nat) (rest : Text) :
    pairsFrom offset (s ++ b :: rest) = pairsFrom (offset + Text.byteLength (s ++ [b])) rest := by
  have hOther : isPairName b = false := by rcases hb with rfl | rfl <;> decide
  -- The search goes on behind a whole name, so the induction is on the length.
  induction s using (measure List.length).wf.induction generalizing offset with
  | h s ih =>
    cases s with
    | nil => simp [pairsFrom, hOther]
    | cons c s =>
      rw [List.all_cons, Bool.and_eq_true] at hs
      by_cases hc : isPairName c = true
      · have hJoined : c :: s = (c :: s.takeWhile isPairName) ++ s.dropWhile isPairName := by
          rw [List.cons_append, List.takeWhile_append_dropWhile]
        have hName : (c :: s.takeWhile isPairName).all isPairName = true := by
          rw [List.all_cons, hc, List.all_takeWhile]
          rfl
        have hPassed : (s.dropWhile isPairName).all isPairValue = true :=
          List.all_eq_true.mpr fun d hd =>
            List.all_eq_true.mp hs.2 d ((List.dropWhile_sublist _).subset hd)
        have hHead : (s.dropWhile isPairName ++ b :: rest).head?.any isPairName = false := by
          have hFirst := List.head?_dropWhile_not isPairName s
          cases hDropped : s.dropWhile isPairName with
          | nil => simpa using hOther
          | cons d u => simpa [hDropped] using hFirst
        have hShorter : (s.dropWhile isPairName).length < (c :: s).length :=
          Nat.lt_succ_of_le (List.dropWhile_sublist _).length_le
        rw [hJoined, List.append_assoc, pairsFrom_name hName (List.cons_ne_nil c _) hHead,
          pairValue?_bracket hb hPassed]
        simp only
        rw [ih _ hShorter hPassed, List.append_assoc, Text.byteLength_append _ (_ ++ [b]),
          Nat.add_assoc]
      · rw [List.cons_append, pairsFrom, if_neg hc, ih s (Nat.lt_succ_self _) hs.2,
          List.cons_append, Text.byteLength_cons, Nat.add_assoc]

end Bracket

theorem pairsFrom_blank {s : Text} (hs : s.all isBlank = true) (offset : Nat) (rest : Text) :
    pairsFrom offset (s ++ rest) = pairsFrom (offset + Text.byteLength s) rest := by
  induction s generalizing offset with
  | nil => rfl
  | cons c s ih =>
    rw [List.all_cons, Bool.and_eq_true] at hs
    rw [List.cons_append, pairsFrom, isPairName_eq_false_of_isBlank hs.1, if_neg Bool.false_ne_true,
      ih hs.2, Text.byteLength_cons, Nat.add_assoc]

end Declaration

namespace RuleSheet

open Declaration (pairsFrom pairsFrom_blank pairsFrom_bracket pairsFrom_name pairValue?_colon
  isPairName isPairValue unselected)
open Sheet (Blank Trivia IsBalanced IsBody IsRead IsWall declared oneSpaced)

/-! ## Pairs of a sheet -/

/-- The pairs of a text in front of any rest are these declarations, and then those of the rest. -/
def Paired (s : Text) (declarations : Nat → List Declaration) : Prop :=
  ∀ offset rest, pairsFrom offset (s ++ rest) =
    declarations offset ++ pairsFrom (offset + Text.byteLength s) rest

theorem paired_nil : Paired [] fun _ => [] :=
  fun _ _ => rfl

theorem Paired.append {s t : Text} {declarations declarations' : Nat → List Declaration}
    (h : Paired s declarations) (h' : Paired t declarations') :
    Paired (s ++ t) fun offset =>
      declarations offset ++ declarations' (offset + Text.byteLength s) := by
  intro offset rest
  rw [List.append_assoc, h, h', List.append_assoc, Text.byteLength_append, Nat.add_assoc]

theorem all_isPairValue {allowed : Char → Bool} {s : Text} (h : IsBalanced allowed s)
    (hAllowed : [';', '\x7B', '\x7D'].any allowed = false) : s.all isPairValue = true := by
  refine List.all_eq_true.mpr fun c hc => ?_
  rcases h.of_mem hc with hMem | rfl | rfl
  · simp only [isPairValue, Bool.and_eq_true, decide_eq_true_eq]
    refine ⟨⟨?_, ?_⟩, ?_⟩ <;> rintro rfl <;> simp [hMem] at hAllowed
  · decide
  · decide

theorem all_isPairValue_blank (b : Blank) : b.text.all isPairValue = true :=
  all_isPairValue (.plain b.all) (by decide)

theorem paired_row (selector : Text) (r : Row) :
    Paired r.print fun offset =>
      [(declared selector r.property (offset + Text.byteLength r.front) r.value).unselected] := by
  intro offset rest
  let raw := r.start.text ++ (r.value.text ++ r.stop.text)
  have hRaw : raw.all isPairValue = true := by
    rw [List.all_append, List.all_append, all_isPairValue_blank, all_isPairValue_blank,
      all_isPairValue r.value.balanced (by decide)]
    rfl
  have hTrim : Text.trim raw = r.value.text :=
    Text.trim_append r.start.all_isBlank r.stop.all_isBlank r.value.trimmed
  have hLead : Text.leadingBlank raw = r.start.text :=
    Text.leadingBlank_append r.start.all_isBlank (r.value.head_isBlank _)
  have hPair := pairValue?_colon r.gap.all_isBlank hRaw (hTrim ▸ r.value.ne_nil) rest
  rw [hTrim, hLead] at hPair
  have hHead : (r.gap.text ++ ':' :: (raw ++ ';' :: rest)).head?.any isPairName = false := by
    refine (Option.any_eq_false _ _).mpr fun c hc => ?_
    rcases r.gap.head_cases hc with hSpace | rfl
    · exact Declaration.isPairName_eq_false_of_isBlank (isBlank_of_isSpace hSpace)
    · decide
  have hText : r.print ++ rest = r.lead.text ++ (r.property.text ++
      (r.gap.text ++ ':' :: (raw ++ ';' :: rest))) := by
    simp [Row.print, Row.front, raw]
  have hStart : offset + Text.byteLength r.lead.text + Text.byteLength r.property.text +
      Text.byteLength (r.gap.text ++ ':' :: r.start.text) = offset + Text.byteLength r.front := by
    simp only [Row.front, Text.byteLength_append]
    omega
  have hStop : offset + Text.byteLength r.lead.text + Text.byteLength r.property.text +
      (Text.byteLength (r.gap.text ++ ':' :: (raw ++ ';' :: rest)) - Text.byteLength rest) =
        offset + Text.byteLength r.print := by
    simp only [Row.print, Row.front, raw, Text.byteLength_append, Text.byteLength_cons,
      Text.byteLength_nil]
    omega
  rw [hText, pairsFrom_blank r.lead.all_isBlank,
    pairsFrom_name r.lacksDigits r.property.ne_nil hHead, hPair]
  simp only
  rw [hStart, hStop]
  rfl

theorem paired_rows (selector : Text) (rows : List Row) :
    Paired (printRows rows) fun offset =>
      (rowsDeclarations selector offset rows).map unselected := by
  induction rows with
  | nil => exact paired_nil
  | cons r rows ih => exact (paired_row selector r).append ih

theorem Paired.block {front s : Text} {declarations : Nat → List Declaration}
    (h : Paired s declarations) (hFront : front.all isPairValue = true) (tail : Blank) :
    Paired (front ++ '\x7B' :: (s ++ tail.text ++ ['\x7D']))
      fun offset => declarations (offset + Text.byteLength (front ++ ['\x7B'])) := by
  intro offset rest
  have hText : front ++ '\x7B' :: (s ++ tail.text ++ ['\x7D']) ++ rest =
      front ++ '\x7B' :: (s ++ (tail.text ++ '\x7D' :: rest)) := by
    simp
  have hLength : Text.byteLength (front ++ '\x7B' :: (s ++ tail.text ++ ['\x7D'])) =
      Text.byteLength (front ++ ['\x7B']) + Text.byteLength s +
        Text.byteLength (tail.text ++ ['\x7D']) := by
    simp only [Text.byteLength_append, Text.byteLength_cons, Text.byteLength_nil]
    omega
  rw [hText, pairsFrom_bracket (.inl rfl) hFront, h,
    pairsFrom_bracket (.inr rfl) (all_isPairValue_blank tail), hLength]
  simp only [Nat.add_assoc]

mutual

theorem paired_rule (headers : List Text) (rule : Rule) :
    Paired (printRule rule) fun offset =>
      (ruleDeclarations headers offset rule).map unselected := by
  cases rule with
  | style lead selector rows tail =>
    have hFront : (lead.text ++ selector.text).all isPairValue = true := by
      rw [List.all_append, all_isPairValue_blank, all_isPairValue (.plain selector.all) (by decide)]
      rfl
    have hRows := (paired_rows (Sheet.selectorIn headers selector.text) rows).block hFront tail
    simp only [List.append_assoc] at hRows
    simp only [printRule, ruleDeclarations, List.append_assoc]
    exact hRows
  | group lead name prelude rules tail =>
    have hFront : (lead.text ++ header name prelude).all isPairValue = true := by
      rw [List.all_append, header, List.all_cons, List.all_append, all_isPairValue_blank,
        all_isPairValue (.plain name.all) (by decide), all_isPairValue prelude.balanced (by decide)]
      rfl
    have hRules := (paired_rules (headers ++ [entry name prelude]) rules).block hFront tail
    simp only [List.append_assoc] at hRules
    simp only [printRule, ruleDeclarations, List.append_assoc]
    exact hRules

theorem paired_rules (headers : List Text) (rules : List Rule) :
    Paired (printRules rules) fun offset =>
      (rulesDeclarations headers offset rules).map unselected := by
  cases rules with
  | nil => exact paired_nil
  | cons rule rules =>
    simp only [printRules, rulesDeclarations, List.map_append]
    exact (paired_rule headers rule).append (paired_rules headers rules)

end

/-! ## Rules of a sheet -/

theorem isBody_row (r : Row) (rest : Text) :
    IsBody r.print (fun selector offset =>
      [declared selector r.property (offset + Text.byteLength r.front) r.value]) rest := by
  have h := Sheet.isBody_declared ⟨r.lead, []⟩ r.property r.gap r.start r.value r.stop rest
  simpa [Trivia.print, Sheet.printComments, Row.print, Row.front] using h

theorem isBody_rows (rows : List Row) (rest : Text) :
    IsBody (printRows rows) (fun selector offset => rowsDeclarations selector offset rows)
      rest := by
  induction rows with
  | nil => exact Sheet.isBody_nil rest
  | cons r rows ih => exact (isBody_row r _).append ih

theorem Prelude.endsName (prelude : Prelude) : Token.EndsName prelude.text := by
  intro c hc
  have hApart := (Option.any_eq_false _ _).mp prelude.apart c hc
  have hSlash : '\\' ∉ prelude.text :=
    prelude.balanced.not_mem (by decide) (by decide) (by decide)
  refine ⟨by simpa using hApart, ?_⟩
  rintro rfl
  exact hSlash (List.mem_of_mem_head? hc)

theorem contextEntry_prelude (name : GroupName) (prelude : Prelude) :
    Declaration.contextEntry name.text prelude.text = oneSpaced (entry name prelude) := by
  have hSlash : '/' ∉ prelude.text := prelude.balanced.not_mem (by decide) (by decide) (by decide)
  refine Sheet.contextEntry_of_words name.toAtName hSlash ?_
  rw [entry, ← List.cons_append, Text.words_append (List.cons_ne_nil _ _) name.not_blank rfl]
  have hSpace : ¬ (!isBlank ' ') = true := by decide
  rw [Text.words, Text.runs, if_neg hSpace, Text.words]

theorem print_trivia (b : Blank) : Trivia.print ⟨b, []⟩ = b.text :=
  List.append_nil _

mutual

theorem isRead_rule (rule : Rule) (rest : Text) :
    IsRead (printRule rule) (fun headers offset => ruleDeclarations headers offset rule) rest := by
  cases rule with
  | style lead selector rows tail =>
    obtain ⟨body, hBody, hRows⟩ := (isBody_rows rows _).exists_parsed ⟨tail, []⟩
    have hStyle := Sheet.isRead_style ⟨lead, []⟩ selector hBody hRows
    simp only [print_trivia] at hStyle
    simp only [printRule, ruleDeclarations]
    exact hStyle
  | group lead name prelude rules tail =>
    have hRules := (isRead_rules rules (Trivia.print ⟨tail, []⟩ ++ '\x7D' :: rest)).tail _ rfl
    have hWall : IsWall '\x7B' := .inr (.inr (.inr rfl))
    have hEnters := Sheet.enters_header name.toAtName prelude.balanced prelude.lacksAddress
      prelude.endsName hWall (by decide)
    have hGroup := Sheet.isRead_group ⟨lead, []⟩ name.toAtName (hEnters _)
      (contextEntry_prelude name prelude) hRules
    simp only [print_trivia, if_neg name.declares] at hGroup
    simp only [printRule, ruleDeclarations]
    exact hGroup

theorem isRead_rules (rules : List Rule) (rest : Text) :
    IsRead (printRules rules) (fun headers offset => rulesDeclarations headers offset rules)
      rest := by
  cases rules with
  | nil => exact Sheet.isRead_nil rest
  | cons rule rules => exact (isRead_rule rule _).append (isRead_rules rules rest)

end

/-- Both readings of a sheet of style rules find its declarations; the search for pairs finds them
without their selectors. -/
theorem pairs_print (sheet : RuleSheet) :
    Declaration.structural? sheet.print = some sheet.declarations ∧
      Declaration.pairs sheet.print = sheet.declarations.map unselected := by
  constructor
  · obtain ⟨nodes, hNodes, hRead⟩ :=
      (isRead_rules sheet.rules (Trivia.print ⟨sheet.tail, []⟩ ++ [])).tail ⟨sheet.tail, []⟩ rfl
    rw [print_trivia, ← print] at hNodes
    have hRules := hRead [] 0 [] [] (fun _ => rfl) true
    rw [List.append_nil, List.append_nil] at hRules
    rw [Declaration.structural?, Node.ofText_of_parsed hNodes]
    exact congrArg (Option.map (Declaration.located sheet.print)) hRules
  · have hTail : pairsFrom (0 + Text.byteLength (printRules sheet.rules)) sheet.tail.text = [] := by
      have h := pairsFrom_blank sheet.tail.all_isBlank
        (0 + Text.byteLength (printRules sheet.rules)) []
      rw [List.append_nil] at h
      rw [h, pairsFrom]
    have hPairs := paired_rules [] sheet.rules 0 sheet.tail.text
    rw [hTail, List.append_nil] at hPairs
    rw [Declaration.pairs, print, hPairs, Declaration.located_map_unselected]
    rfl

example :
    (Declaration.pairs "@media (a:b)\x7B .x:y\x7Bcolor : red ; top:0;\x7D\x7D".toList).map
      (fun d => (d.property, d.value, d.start, d.stop)) =
        [("color".toList, "red".toList, 27, 30), ("top".toList, "0".toList, 37, 38)] := by
  decide +kernel

end RuleSheet

end DesignParams
