import Mathlib.Data.List.Basic
import Mathlib.Data.List.Induction

/-!
# First elements

Of the elements of a list that share a key only the first one counts. A reader that carries along
the keys it has seen keeps just these elements.
-/
set_option autoImplicit false

namespace DesignParams

variable {α κ : Type} [DecidableEq κ] {key : α → κ}

/-- The elements of a list that no element before them shares its key with. -/
def firsts (key : α → κ) (l : List α) : List α :=
  (List.range l.length).filterMap fun i => l[i]?.filter fun a => key a ∉ (l.take i).map key

/-- The elements in order whose keys are neither seen nor those of elements before them. -/
def unseen (key : α → κ) : List κ → List α → List α
  | _, [] => []
  | seen, a :: l =>
    if key a ∈ seen then unseen key seen l else a :: unseen key (key a :: seen) l

theorem not_mem_of_mem_unseen {seen : List κ} {l : List α} {a : α} (h : a ∈ unseen key seen l) :
    key a ∉ seen := by
  induction l generalizing seen with
  | nil => cases h
  | cons b l ih =>
    rw [unseen] at h
    split at h
    · exact ih h
    · rename_i hUnseen
      rcases List.mem_cons.mp h with rfl | h
      · exact hUnseen
      · exact fun hSeen => ih h (List.mem_cons_of_mem _ hSeen)

theorem nodup_map_unseen (seen : List κ) (l : List α) : ((unseen key seen l).map key).Nodup := by
  induction l generalizing seen with
  | nil => exact List.nodup_nil
  | cons a l ih =>
    rw [unseen]
    split
    · exact ih seen
    · rw [List.map_cons, List.nodup_cons]
      refine ⟨fun hMem => ?_, ih _⟩
      obtain ⟨b, hb, hKey⟩ := List.mem_map.mp hMem
      exact not_mem_of_mem_unseen hb (hKey ▸ List.mem_cons_self)

/-- A reader that tests each key against those it has seen keeps the unseen elements. -/
theorem eq_unseen [BEq κ] [LawfulBEq κ] {reader : List κ → List α → List α}
    (hNil : ∀ seen, reader seen [] = [])
    (hCons : ∀ seen a l, reader seen (a :: l) =
      if seen.contains (key a) then reader seen l else a :: reader (key a :: seen) l)
    (seen : List κ) (l : List α) : reader seen l = unseen key seen l := by
  induction l generalizing seen with
  | nil => exact hNil seen
  | cons a l ih =>
    rw [hCons, unseen, ih, ih]
    by_cases hSeen : key a ∈ seen
    · rw [if_pos (List.contains_iff_mem.mpr hSeen), if_pos hSeen]
    · rw [if_neg (mt List.contains_iff_mem.mp hSeen), if_neg hSeen]

theorem firsts_concat (l : List α) (a : α) :
    firsts key (l ++ [a]) = firsts key l ++ if key a ∈ l.map key then [] else [a] := by
  have hFront : ∀ i ∈ List.range l.length,
      ((l ++ [a])[i]?.filter fun b => key b ∉ ((l ++ [a]).take i).map key) =
        l[i]?.filter fun b => key b ∉ (l.take i).map key := by
    intro i hi
    have hLength : i < l.length := List.mem_range.mp hi
    rw [List.getElem?_append_left hLength, List.take_append_of_le_length (Nat.le_of_lt hLength)]
  rw [firsts, List.length_append, List.length_singleton, List.range_succ, List.filterMap_append,
    List.filterMap_congr hFront, ← firsts]
  congr 1
  rw [List.filterMap_cons, List.filterMap_nil, List.getElem?_concat_length, List.take_left,
    Option.filter_some]
  by_cases hKey : key a ∈ l.map key
  · rw [if_neg (by simpa using hKey), if_pos hKey]
  · rw [if_pos (by simpa using hKey), if_neg hKey]

theorem mem_of_mem_firsts {l : List α} {a : α} (h : a ∈ firsts key l) : a ∈ l := by
  obtain ⟨i, -, hFilter⟩ := List.mem_filterMap.mp h
  exact List.mem_of_getElem? (Option.filter_eq_some_iff.mp hFilter).1

theorem firsts_append {l r : List α} (h : ∀ a ∈ l, ∀ b ∈ r, key a ≠ key b) :
    firsts key (l ++ r) = firsts key l ++ firsts key r := by
  induction r using List.reverseRecOn with
  | nil => exact (congrArg _ (List.append_nil l)).trans (List.append_nil _).symm
  | append_singleton r b ih =>
    have hFront := ih fun a ha c hc => h a ha c (List.mem_append_left _ hc)
    have hKey : key b ∈ (l ++ r).map key ↔ key b ∈ r.map key := by
      rw [List.map_append, List.mem_append]
      refine or_iff_right fun hMem => ?_
      obtain ⟨a, ha, hSame⟩ := List.mem_map.mp hMem
      exact h a ha b (List.mem_append_right _ List.mem_cons_self) hSame
    rw [← List.append_assoc, firsts_concat, firsts_concat, hFront, if_congr hKey rfl rfl,
      List.append_assoc]

theorem unseen_concat (seen : List κ) (l : List α) (a : α) :
    unseen key seen (l ++ [a]) =
      unseen key seen l ++ if key a ∈ seen ∨ key a ∈ l.map key then [] else [a] := by
  induction l generalizing seen with
  | nil => simp [unseen]
  | cons b l ih =>
    rw [List.cons_append, unseen, unseen]
    split
    · rename_i hSeen
      have hSame : key a ∈ seen ∨ key a ∈ (b :: l).map key ↔ key a ∈ seen ∨ key a ∈ l.map key := by
        rw [List.map_cons, List.mem_cons]
        constructor
        · rintro (h | h | h)
          · exact .inl h
          · exact .inl (h ▸ hSeen)
          · exact .inr h
        · rintro (h | h)
          · exact .inl h
          · exact .inr (.inr h)
      rw [ih, if_congr hSame rfl rfl]
    · have hSame : key a ∈ key b :: seen ∨ key a ∈ l.map key ↔
          key a ∈ seen ∨ key a ∈ (b :: l).map key := by
        rw [List.map_cons, List.mem_cons, List.mem_cons, or_assoc, or_left_comm]
      rw [ih, if_congr hSame rfl rfl, List.cons_append]

theorem unseen_nil_left (l : List α) : unseen key [] l = firsts key l := by
  induction l using List.reverseRecOn with
  | nil => rfl
  | append_singleton l a ih =>
    have hNone : key a ∈ [] ∨ key a ∈ l.map key ↔ key a ∈ l.map key := by simp
    rw [unseen_concat, firsts_concat, ih, if_congr hNone rfl rfl]

/-- A condition on keys alone can be tested before or after. -/
theorem firsts_filter {keep : α → Bool} (hKeep : ∀ a b, key a = key b → keep a = keep b)
    (l : List α) : firsts key (l.filter keep) = (firsts key l).filter keep := by
  induction l using List.reverseRecOn with
  | nil => rfl
  | append_singleton l a ih =>
    rw [List.filter_append, firsts_concat, List.filter_append, ← ih]
    by_cases ha : keep a = true
    · have hSame : key a ∈ (l.filter keep).map key ↔ key a ∈ l.map key := by
        simp only [List.mem_map, List.mem_filter]
        constructor
        · rintro ⟨b, ⟨hb, -⟩, hKey⟩
          exact ⟨b, hb, hKey⟩
        · rintro ⟨b, hb, hKey⟩
          exact ⟨b, ⟨hb, (hKeep b a hKey).trans ha⟩, hKey⟩
      rw [List.filter_cons_of_pos ha, List.filter_nil, firsts_concat, if_congr hSame rfl rfl]
      congr 1
      split
      · rfl
      · rw [List.filter_cons_of_pos ha, List.filter_nil]
    · rw [List.filter_cons_of_neg ha, List.filter_nil, List.append_nil]
      split
      · rw [List.filter_nil, List.append_nil]
      · rw [List.filter_cons_of_neg ha, List.filter_nil, List.append_nil]

/-- Which elements are first depends on which keys are shared, not on what the keys are. -/
theorem firsts_congr {κ' : Type} [DecidableEq κ'] {key' : α → κ'}
    (h : ∀ a b, key a = key b ↔ key' a = key' b) (l : List α) : firsts key l = firsts key' l := by
  induction l using List.reverseRecOn with
  | nil => rfl
  | append_singleton l a ih =>
    have hSame : key a ∈ l.map key ↔ key' a ∈ l.map key' := by
      simp only [List.mem_map]
      exact exists_congr fun b => and_congr_right fun _ => h b a
    rw [firsts_concat, firsts_concat, ih, if_congr hSame rfl rfl]

section Distinct

variable {l : List κ}

theorem mem_firsts_id_iff {k : κ} : k ∈ firsts id l ↔ k ∈ l := by
  induction l using List.reverseRecOn with
  | nil => rfl
  | append_singleton l a ih =>
    rw [firsts_concat, List.mem_append, List.mem_append, ih, List.map_id, List.mem_singleton]
    split
    · rename_i ha
      constructor
      · exact fun h => .inl (h.resolve_right List.not_mem_nil)
      · rintro (h | rfl)
        · exact .inl h
        · exact .inl ha
    · rw [List.mem_singleton]

theorem pairwise_firsts_id : (firsts id l).Pairwise fun a b => l.idxOf a < l.idxOf b := by
  induction l using List.reverseRecOn with
  | nil => exact .nil
  | append_singleton l a ih =>
    have hFront : (firsts id l).Pairwise fun b c => (l ++ [a]).idxOf b < (l ++ [a]).idxOf c := by
      refine ih.imp_of_mem fun hb hc h => ?_
      rw [List.idxOf_append_of_mem (mem_firsts_id_iff.mp hb),
        List.idxOf_append_of_mem (mem_firsts_id_iff.mp hc)]
      exact h
    rw [firsts_concat, List.map_id, id_eq]
    split
    · rwa [List.append_nil]
    · rename_i ha
      refine List.pairwise_append.mpr ⟨hFront, List.pairwise_singleton _ _, ?_⟩
      intro b hb c hc
      obtain rfl := List.mem_singleton.mp hc
      have hb := mem_firsts_id_iff.mp hb
      rw [List.idxOf_append_of_mem hb, List.idxOf_append_of_notMem ha]
      exact Nat.lt_of_lt_of_le (List.idxOf_lt_length_of_mem hb) (Nat.le_add_right _ _)

theorem nodup_firsts_id : (firsts id l).Nodup :=
  pairwise_firsts_id.imp fun h => fun hSame => Nat.lt_irrefl _ (hSame ▸ h)

end Distinct

end DesignParams
