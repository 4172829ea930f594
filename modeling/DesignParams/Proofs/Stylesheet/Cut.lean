import DesignParams.Proofs.Stylesheet.Stop

/-!
# Where a stylesheet is cut

Tokens stand cut before a rest when the text of the tokens with the rest behind it is cut into
just these tokens and those of the rest. This is a property of each token and what follows it, so
a part of the tokens can be exchanged as long as the tokens at its edges stay cut.
-/
set_option autoImplicit false

namespace DesignParams

namespace Token

def textOf (tokens : List Token) : Text :=
  tokens.flatMap (·.text)

@[simp] theorem textOf_nil : textOf [] = [] := rfl

@[simp] theorem textOf_cons (t : Token) (tokens : List Token) :
    textOf (t :: tokens) = t.text ++ textOf tokens := rfl

@[simp] theorem textOf_append (tokens tokens' : List Token) :
    textOf (tokens ++ tokens') = textOf tokens ++ textOf tokens' :=
  List.flatMap_append

/-- Is the token the first one of its own text with a rest behind it? -/
def Leads (t : Token) (rest : Text) : Prop :=
  tokenize (t.text ++ rest) = t :: tokenize rest

/-- Is the text of the tokens cut into them when a rest stands behind it? -/
def CutBefore (tokens : List Token) (rest : Text) : Prop :=
  tokenize (textOf tokens ++ rest) = tokens ++ tokenize rest

theorem tokenize_nil : tokenize [] = [] := by
  rw [tokenize]

theorem tokenize_cons (c : Char) (s : Text) :
    tokenize (c :: s) =
      ⟨(first c s).1, c :: s.take ((first c s).2 - 1)⟩ :: tokenize (s.drop ((first c s).2 - 1)) := by
  rw [tokenize]

theorem cutBefore_tokenize (s : Text) : CutBefore (tokenize s) [] := by
  rw [CutBefore, List.append_nil, tokenize_nil, List.append_nil, textOf, flatMap_text_tokenize]

theorem text_ne_nil_of_mem {t : Token} {s : Text} (h : t ∈ tokenize s) : t.text ≠ [] := by
  induction hn : s.length using Nat.strongRecOn generalizing s with
  | ind n ih =>
    cases s with
    | nil =>
      rw [tokenize_nil] at h
      cases h
    | cons c s =>
      rw [tokenize_cons, List.mem_cons] at h
      rcases h with rfl | h
      · simp
      · refine ih _ ?_ h rfl
        rw [← hn, List.length_drop, List.length_cons]
        omega

theorem leads_iff {c : Char} {u rest : Text} {kind : TokenKind} :
    Leads ⟨kind, c :: u⟩ rest ↔
      (first c (u ++ rest)).1 = kind ∧ (u ++ rest).take ((first c (u ++ rest)).2 - 1) = u := by
  rw [Leads]
  simp only [List.cons_append]
  rw [tokenize_cons]
  constructor
  · intro h
    simp only [List.cons.injEq, Token.mk.injEq, true_and] at h
    exact h.1
  · rintro ⟨hKind, hText⟩
    have hRest : (u ++ rest).drop ((first c (u ++ rest)).2 - 1) = rest := by
      have hJoined := List.take_append_drop ((first c (u ++ rest)).2 - 1) (u ++ rest)
      rw [hText] at hJoined
      exact List.append_cancel_left hJoined
    rw [hKind, hText, hRest]

theorem leads_first (c : Char) (s : Text) :
    Leads ⟨(first c s).1, c :: s.take ((first c s).2 - 1)⟩ (s.drop ((first c s).2 - 1)) := by
  rw [leads_iff, List.take_append_drop]
  exact ⟨rfl, rfl⟩

theorem Leads.text_ne_nil {t : Token} {rest : Text} (h : Leads t rest) : t.text ≠ [] := by
  apply text_ne_nil_of_mem (s := t.text ++ rest)
  rw [h]
  exact List.mem_cons_self

theorem cutBefore_nil (rest : Text) : CutBefore [] rest := rfl

theorem cutBefore_cons {t : Token} {tokens : List Token} {rest : Text} :
    CutBefore (t :: tokens) rest ↔ Leads t (textOf tokens ++ rest) ∧ CutBefore tokens rest := by
  constructor
  · intro h
    rw [CutBefore, textOf_cons, List.append_assoc] at h
    have hText : t.text ≠ [] := by
      apply text_ne_nil_of_mem (s := t.text ++ (textOf tokens ++ rest))
      rw [h]
      exact List.mem_cons_self
    obtain ⟨kind, text⟩ := t
    cases text with
    | nil => exact absurd rfl hText
    | cons c u =>
      simp only [List.cons_append] at h
      rw [tokenize_cons] at h
      simp only [List.cons.injEq, Token.mk.injEq, true_and] at h
      obtain ⟨⟨hKind, hTake⟩, hRest⟩ := h
      have hDrop : (u ++ (textOf tokens ++ rest)).drop
          ((first c (u ++ (textOf tokens ++ rest))).2 - 1) = textOf tokens ++ rest := by
        have hJoined := List.take_append_drop
          ((first c (u ++ (textOf tokens ++ rest))).2 - 1) (u ++ (textOf tokens ++ rest))
        rw [hTake] at hJoined
        exact List.append_cancel_left hJoined
      rw [hDrop] at hRest
      exact ⟨leads_iff.mpr ⟨hKind, hTake⟩, hRest⟩
  · rintro ⟨hLeads, hTokens⟩
    rw [CutBefore, textOf_cons, List.append_assoc, hLeads, hTokens, List.cons_append]

theorem cutBefore_append {tokens tokens' : List Token} {rest : Text} :
    CutBefore (tokens ++ tokens') rest ↔
      CutBefore tokens (textOf tokens' ++ rest) ∧ CutBefore tokens' rest := by
  induction tokens with
  | nil => simp [cutBefore_nil]
  | cons t tokens ih =>
    rw [List.cons_append, cutBefore_cons, cutBefore_cons, ih, textOf_append, List.append_assoc,
      and_assoc]

/-- The tokens of a text that ends where a token ends are the tokens of its two parts. -/
theorem cutBefore_of_tokenize {s : Text} {tokens tokens' : List Token}
    (h : tokenize s = tokens ++ tokens') :
    s = textOf tokens ++ textOf tokens' ∧ CutBefore tokens (textOf tokens') ∧
      tokenize (textOf tokens') = tokens' := by
  have hCut := cutBefore_tokenize s
  rw [h, cutBefore_append, List.append_nil] at hCut
  obtain ⟨hFront, hBack⟩ := hCut
  rw [CutBefore, List.append_nil, tokenize_nil, List.append_nil] at hBack
  refine ⟨?_, hFront, hBack⟩
  rw [← textOf_append, ← h]
  exact (flatMap_text_tokenize s).symm

/-- A token that leads a text with a stop in it leads every text with the same characters up to
the stop. -/
theorem Leads.of_stop {t : Token} {x : Char} {s r : Text} (hx : IsStop x)
    (h : Leads t (s ++ x :: r)) (r' : Text) : Leads t (s ++ x :: r') := by
  have hText := h.text_ne_nil
  obtain ⟨kind, text⟩ := t
  cases text with
  | nil => exact absurd rfl hText
  | cons c u =>
    rw [leads_iff, ← List.append_assoc] at h
    rw [leads_iff, ← List.append_assoc]
    obtain ⟨hKind, hTake⟩ := h
    have hLength := congrArg List.length hTake
    simp only [List.length_take, List.length_append, List.length_cons] at hLength
    have hFirst := first_stop hx (u ++ s) r r' c (by rw [List.length_append]; omega)
    rw [hFirst]
    have hInside : (first c (u ++ s ++ x :: r)).2 - 1 ≤ u.length := by omega
    refine ⟨hKind, ?_⟩
    generalize (first c (u ++ s ++ x :: r)).2 - 1 = n at hTake hInside ⊢
    rw [List.append_assoc, List.take_append_of_le_length hInside] at hTake
    rw [List.append_assoc, List.take_append_of_le_length hInside, hTake]

theorem CutBefore.of_stop {tokens : List Token} {x : Char} {s r : Text} (hx : IsStop x)
    (h : CutBefore tokens (s ++ x :: r)) (r' : Text) : CutBefore tokens (s ++ x :: r') := by
  induction tokens with
  | nil => exact cutBefore_nil _
  | cons t tokens ih =>
    rw [cutBefore_cons, ← List.append_assoc] at h
    rw [cutBefore_cons, ← List.append_assoc]
    exact ⟨h.1.of_stop hx r', ih h.2⟩

end Token

end DesignParams
