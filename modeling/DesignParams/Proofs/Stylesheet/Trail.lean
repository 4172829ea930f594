import DesignParams.Proofs.Rewire.Reading

/-!
# Trails of values

Behind a value stands a trailer and then what ends its declaration, in both readings of a
stylesheet: a semicolon, the bracket that closes the rule, or the end of the text.
-/
set_option autoImplicit false

namespace DesignParams

namespace Declaration

/-- Does the value of the declaration stand in a text that begins at a byte offset, with a trailer
between it and the end of the declaration? -/
def IsTrailed (offset : Nat) (s : Text) (d : Declaration) : Prop :=
  ∃ front tail rest, s = front ++ (d.value ++ (tail ++ rest)) ∧
    d.start = offset + Text.byteLength front ∧ IsTrailer tail ∧ IsEnd rest

/-- Is the value of a trailed declaration what a reading takes of the text up to its end? -/
def IsTaken (take : Text → Text) (offset : Nat) (s : Text) (d : Declaration) : Prop :=
  ∃ front tail rest, s = front ++ (d.value ++ (tail ++ rest)) ∧
    d.start = offset + Text.byteLength front ∧ IsTrailer tail ∧ IsEnd rest ∧
      d.value = take (Text.trimEnd (d.value ++ tail))

theorem IsTaken.isTrailed {take : Text → Text} {offset : Nat} {s : Text} {d : Declaration}
    (h : IsTaken take offset s d) : IsTrailed offset s d := by
  obtain ⟨front, tail, rest, hSplit, hStart, hTail, hRest, -⟩ := h
  exact ⟨front, tail, rest, hSplit, hStart, hTail, hRest⟩

theorem IsTaken.prepend {take : Text → Text} {offset : Nat} {s : Text} {d : Declaration}
    (front : Text) (h : IsTaken take (offset + Text.byteLength front) s d) :
    IsTaken take offset (front ++ s) d := by
  obtain ⟨gap, tail, rest, rfl, hStart, hTail, hRest, hTake⟩ := h
  refine ⟨front ++ gap, tail, rest, ?_, ?_, hTail, hRest, hTake⟩
  · rw [List.append_assoc]
  · rw [hStart, Text.byteLength_append, Nat.add_assoc]

theorem taken_ofRules {css : Text} {declarations : List Declaration}
    (h : ofRules [] (.between true) 0 (Node.ofText css) = some declarations) :
    ∀ d ∈ declarations, IsTaken dropPriority 0 css d := by
  intro d hd
  obtain ⟨earlier, later, rfl⟩ := List.append_of_mem hd
  obtain ⟨before, raw, after, property, selector, hSplit, -, -, -, hEnds, hValue, -⟩ :=
    exchangeable_ofRules (Node.ofText css) true none [] (.between true) 0 earlier d later
      (Node.formed_ofTokens _) h
  have hTokens : Token.tokenize css = before ++ (Node.tokensOfAll raw ++ after) := by
    rw [← Node.tokensOfAll_ofText]
    exact hSplit
  obtain ⟨hText, -, hBehind⟩ := Token.cutBefore_of_tokenize hTokens
  obtain ⟨-, -, hAfter⟩ := Token.cutBefore_of_tokenize hBehind
  obtain ⟨tail, hTail, hRaw⟩ := exists_trailer (Node.textOfAll raw)
  obtain ⟨hd, -, hStart, -⟩ := of_ofRaw_eq_singleton hValue
  refine ⟨Token.textOf before ++ Text.leadingBlank (Node.textOfAll raw), tail, Token.textOf after,
    ?_, ?_, hTail, hEnds.isEnd_of_tokenize hAfter, ?_⟩
  · calc css = Token.textOf before ++ (Node.textOfAll raw ++ Token.textOf after) := by
          rw [hText, Token.textOf_append, Node.textOfAll_eq_textOf]
      _ = Token.textOf before ++ ((Text.leadingBlank (Node.textOfAll raw) ++
            (dropPriority (Text.trim (Node.textOfAll raw)) ++ tail)) ++ Token.textOf after) := by
          rw [← hRaw]
      _ = _ := by
          rw [hd]
          simp only [List.append_assoc]
  · rw [hStart, Text.byteLength_append, Nat.zero_add, Nat.zero_add]
  · have hJoined := Text.leadingBlank_append_trimStart (Node.textOfAll raw)
    rw [hd, List.append_cancel_left (hRaw.symm.trans hJoined.symm), Text.trim]

theorem taken_pairsFrom (offset : Nat) (s : Text) :
    ∀ d ∈ pairsFrom offset s, IsTaken id offset s d := by
  fun_induction pairsFrom offset s with
  | case1 => simp
  | case2 offset c s hName name tail behind before value rest hPair start ih =>
    obtain ⟨-, -, blank, hBlank, hTail⟩ := pairValue?_eq_some hPair
    have hSplit : c :: s = (name ++ before) ++ (value ++ (blank ++ ';' :: rest)) := by
      have hJoined := List.takeWhile_append_dropWhile (p := isPairName) (l := s)
      rw [List.append_assoc, ← hTail]
      simp only [name, tail, List.cons_append, hJoined]
    rw [List.forall_mem_cons]
    constructor
    · refine ⟨name ++ before, blank, ';' :: rest, hSplit, ?_, .blank hBlank, ?_, ?_⟩
      · rw [Text.byteLength_append, ← Nat.add_assoc]
      · intro c hc
        exact .inl (Option.some.inj hc).symm
      · have hLast := (Text.trim_eq_self_iff.mp (trimmed_of_pairValue? hPair)).2
        exact (Text.trimEnd_append hBlank hLast).symm
    · intro d hd
      have hAll : c :: s = (name ++ before ++ value ++ blank ++ [';']) ++ rest := by
        rw [hSplit]
        simp only [List.append_assoc, List.singleton_append]
      have hOffset : behind + (Text.byteLength tail - Text.byteLength rest) =
          offset + Text.byteLength (name ++ before ++ value ++ blank ++ [';']) := by
        have hLength := congrArg Text.byteLength hTail
        simp only [Text.byteLength_append, Text.byteLength_cons, Text.byteLength_nil] at hLength ⊢
        omega
      have hRest := ih d hd
      rw [hOffset] at hRest
      rw [hAll]
      exact hRest.prepend _
  | case3 offset c s hName name tail behind hPair ih =>
    have hSplit : c :: s = name ++ tail := by
      have hJoined := List.takeWhile_append_dropWhile (p := isPairName) (l := s)
      simp only [name, tail, List.cons_append, hJoined]
    intro d hd
    rw [hSplit]
    exact (ih d hd).prepend name
  | case4 offset c s hName ih =>
    intro d hd
    exact IsTaken.prepend [c] (ih d hd)

/-- What is left of a text up to the end of a declaration is its value: an annotation is dropped
only where the rules are told apart. -/
theorem taken_ofStylesheet (css : Text) : ∀ d ∈ ofStylesheet css,
    IsTaken (if structural? css = none then id else dropPriority) 0 css d := by
  have hLocated {take : Text → Text} {declarations : List Declaration}
      (h : ∀ d ∈ declarations, IsTaken take 0 css d) :
      ∀ d ∈ located css declarations, IsTaken take 0 css d := by
    intro d hd
    obtain ⟨e, he, rfl⟩ := List.mem_map.mp hd
    exact h e he
  rw [ofStylesheet]
  cases hRules : structural? css with
  | none => exact hLocated (taken_pairsFrom 0 css)
  | some declarations =>
    obtain ⟨read, hRead, rfl⟩ := Option.map_eq_some_iff.mp hRules
    exact hLocated (taken_ofRules hRead)

/-- Every value of a stylesheet has a trailer behind it. -/
theorem trailed_ofStylesheet (css : Text) : ∀ d ∈ ofStylesheet css, IsTrailed 0 css d :=
  fun d hd => (taken_ofStylesheet css d hd).isTrailed

end Declaration

end DesignParams
