import DesignParams.Text.Blank
import Mathlib.Data.List.Basic
import Mathlib.Data.List.TakeWhile

/-!
# Trimming joined texts

What is trimmed of a text that is joined from white space and a text that has none at its end, and
of a text that goes on behind a mark.
-/
set_option autoImplicit false

namespace DesignParams

namespace Text

theorem trimStart_append_of_blank {s : Text} (h : s.all isBlank = true) (rest : Text) :
    trimStart (s ++ rest) = trimStart rest :=
  List.dropWhile_append_of_pos fun c hc => List.all_eq_true.mp h c hc

theorem trimStart_append {lead s : Text} (hLead : lead.all isBlank = true)
    (hHead : s.head?.any isBlank = false) : trimStart (lead ++ s) = s := by
  rw [trimStart_append_of_blank hLead, trimStart]
  cases s with
  | nil => rfl
  | cons c s =>
    rw [List.dropWhile_cons, if_neg]
    simpa using hHead

theorem leadingBlank_append {lead s : Text} (hLead : lead.all isBlank = true)
    (hHead : s.head?.any isBlank = false) : leadingBlank (lead ++ s) = lead := by
  have hJoined := leadingBlank_append_trimStart (lead ++ s)
  rw [trimStart_append hLead hHead] at hJoined
  exact List.append_cancel_right hJoined

theorem all_leadingBlank (s : Text) : (leadingBlank s).all isBlank = true :=
  List.all_takeWhile

theorem head?_trimStart (s : Text) : (trimStart s).head?.any isBlank = false := by
  have h := List.head?_dropWhile_not isBlank s
  rw [trimStart]
  cases hHead : (s.dropWhile isBlank).head? with
  | none => rfl
  | some c =>
    rw [hHead] at h
    simpa using h

theorem trimEnd_append {s tail : Text} (hTail : tail.all isBlank = true)
    (hLast : s.getLast?.any isBlank = false) : trimEnd (s ++ tail) = s := by
  have hReverse : trimStart (tail.reverse ++ s.reverse) = s.reverse :=
    trimStart_append (by rw [List.all_reverse, hTail]) (by rw [List.head?_reverse, hLast])
  rw [trimStart] at hReverse
  rw [trimEnd, List.reverse_append, hReverse, List.reverse_reverse]

theorem exists_trimEnd_append (s : Text) : ∃ tail, tail.all isBlank = true ∧ s = trimEnd s ++ tail := by
  refine ⟨(leadingBlank s.reverse).reverse, ?_, ?_⟩
  · rw [List.all_reverse]
    exact all_leadingBlank _
  · have h := congrArg List.reverse (leadingBlank_append_trimStart s.reverse)
    rw [List.reverse_append, List.reverse_reverse] at h
    exact h.symm

theorem trimEnd_cons {c : Char} {s : Text} (h : trimStart (c :: s) ≠ []) :
    trimEnd (c :: s) = c :: trimEnd s := by
  rw [trimEnd, trimEnd, List.reverse_cons, List.dropWhile_append]
  split
  · rename_i hEmpty
    have hBlank : ∀ d ∈ s, isBlank d = true := fun d hd =>
      List.dropWhile_eq_nil_iff.mp (List.isEmpty_iff.mp hEmpty) d (List.mem_reverse.mpr hd)
    have hc : ¬ isBlank c = true := fun hc =>
      h (List.dropWhile_eq_nil_iff.mpr (List.forall_mem_cons.mpr ⟨hc, hBlank⟩))
    rw [List.isEmpty_iff.mp hEmpty, List.dropWhile_cons_of_neg hc]
    rfl
  · rw [List.reverse_append]
    rfl

theorem getLast?_trimEnd (s : Text) : (trimEnd s).getLast?.any isBlank = false := by
  rw [trimEnd, List.getLast?_reverse]
  exact head?_trimStart s.reverse

theorem head?_of_prefix {s t : Text} (h : s <+: t) (hHead : t.head?.any isBlank = false) :
    s.head?.any isBlank = false := by
  obtain ⟨rest, rfl⟩ := h
  cases s with
  | nil => rfl
  | cons c s => exact hHead

theorem head?_trim (s : Text) : (trim s).head?.any isBlank = false := by
  obtain ⟨tail, -, hSplit⟩ := exists_trimEnd_append (trimStart s)
  exact head?_of_prefix ⟨tail, hSplit.symm⟩ (head?_trimStart s)

theorem trim_eq_self_iff {s : Text} :
    trim s = s ↔ s.head?.any isBlank = false ∧ s.getLast?.any isBlank = false := by
  constructor
  · intro h
    rw [← h]
    exact ⟨head?_trim s, getLast?_trimEnd _⟩
  · rintro ⟨hHead, hLast⟩
    have hStart : trimStart ([] ++ s) = s := trimStart_append rfl hHead
    have hEnd : trimEnd (s ++ []) = s := trimEnd_append rfl hLast
    rw [List.nil_append] at hStart
    rw [List.append_nil] at hEnd
    rw [trim, hStart, hEnd]

theorem trim_append {lead s tail : Text} (hLead : lead.all isBlank = true)
    (hTail : tail.all isBlank = true) (h : trim s = s) : trim (lead ++ (s ++ tail)) = s := by
  obtain ⟨hHead, hLast⟩ := trim_eq_self_iff.mp h
  rw [trim, trimStart_append_of_blank hLead]
  cases s with
  | nil => rw [List.nil_append, trimStart, List.dropWhile_eq_nil_iff.mpr (List.all_eq_true.mp hTail)]; rfl
  | cons c s =>
    have hStart : trimStart ([] ++ (c :: s ++ tail)) = c :: s ++ tail := trimStart_append rfl hHead
    rw [List.nil_append] at hStart
    rw [hStart, trimEnd_append hTail hLast]

theorem trim_trim (s : Text) : trim (trim s) = trim s :=
  trim_eq_self_iff.mpr ⟨head?_trim s, getLast?_trimEnd _⟩

theorem trimEnd_eq_append {s : Text} (h : trim s ≠ []) : trimEnd s = leadingBlank s ++ trim s := by
  obtain ⟨tail, hTail, hSplit⟩ := exists_trimEnd_append (trimStart s)
  have hLast : (leadingBlank s ++ trim s).getLast?.any isBlank = false := by
    rw [List.getLast?_append_of_ne_nil _ h]
    exact getLast?_trimEnd _
  have hJoined : leadingBlank s ++ trim s ++ tail = s := by
    rw [List.append_assoc, trim, ← hSplit, leadingBlank_append_trimStart]
  have hEnd := trimEnd_append hTail hLast
  rwa [hJoined] at hEnd

theorem takeWhile_append_mark {keep : Char → Bool} {c : Char} (hMark : keep c = false)
    (s rest : Text) : (s ++ c :: rest).takeWhile keep = s.takeWhile keep := by
  rw [List.takeWhile_append]
  split
  · rename_i hAll
    rw [List.takeWhile_cons_of_neg (by simp [hMark]), List.append_nil]
    exact (List.takeWhile_prefix keep |>.eq_of_length hAll).symm
  · rfl

theorem dropWhile_append_mark {keep : Char → Bool} {c : Char} (hMark : keep c = false)
    (s rest : Text) : (s ++ c :: rest).dropWhile keep = s.dropWhile keep ++ c :: rest := by
  rw [List.dropWhile_append]
  split
  · rename_i hEmpty
    rw [List.isEmpty_iff.mp hEmpty, List.dropWhile_cons_of_neg (by simp [hMark]), List.nil_append]
  · rfl

theorem trimStart_append_mark {c : Char} (hMark : isBlank c = false) (s rest : Text) :
    trimStart (s ++ c :: rest) = trimStart s ++ c :: rest :=
  dropWhile_append_mark hMark s rest

theorem leadingBlank_append_mark {c : Char} (hMark : isBlank c = false) (s rest : Text) :
    leadingBlank (s ++ c :: rest) = leadingBlank s :=
  takeWhile_append_mark hMark s rest

end Text

end DesignParams
