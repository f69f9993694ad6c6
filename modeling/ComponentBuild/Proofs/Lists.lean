import Mathlib.Data.List.Nodup

namespace ComponentBuild

section

variable {α : Type} [BEq α] [LawfulBEq α] {xs ys : List α} {x : α}

theorem eraseDups_concat (xs : List α) (x : α) :
    (xs ++ [x]).eraseDups = if xs.contains x then xs.eraseDups else xs.eraseDups ++ [x] := by
  rw [List.eraseDups_append]
  split
  next h => simp [List.removeAll, List.contains_iff_mem.1 h]
  next h => simp [List.removeAll, mt List.contains_iff_mem.2 h, List.eraseDups_cons]

/-- An element keeps its index, whatever comes up behind it. -/
theorem idxOf_eraseDups (h : x ∈ xs) (hmore : xs <+: ys) :
    ys.eraseDups.idxOf x = xs.eraseDups.idxOf x := by
  obtain ⟨rest, rfl⟩ := hmore
  rw [List.eraseDups_append, List.idxOf_append_of_mem (List.mem_eraseDups.2 h)]

theorem one_lt_count_append_iff (h : xs.Nodup) :
    1 < (xs ++ ys).count x ↔ x ∈ xs ∧ x ∈ ys ∨ 1 < ys.count x := by
  rw [List.count_append, ← List.count_pos_iff (l := ys)]
  by_cases hx : x ∈ xs
  · have hone : xs.count x = 1 := List.count_eq_one_of_mem h hx
    simp only [hx, true_and]
    omega
  · have hzero : xs.count x = 0 := List.count_eq_zero.2 hx
    simp only [hx, false_and, false_or]
    omega

end

section

variable {α β : Type} [DecidableEq α]

theorem lookup_reverse_eq_none {pairs : List (α × β)} {key : α} (h : ∀ p ∈ pairs, p.1 ≠ key) :
    pairs.reverse.lookup key = none := by
  refine List.lookup_eq_none_iff.2 fun p hp => ?_
  simpa using (h p (List.mem_reverse.1 hp)).symm

theorem lookup_cons_eq (p : α × β) (pairs : List (α × β)) (key : α) :
    (p :: pairs).lookup key = if p.1 = key then some p.2 else pairs.lookup key := by
  rw [List.lookup_cons]
  by_cases h : p.1 = key
  · simp [h]
  · simp [h, beq_false_of_ne (Ne.symm h)]

theorem lookup_reverse_concat (pairs : List (α × β)) (p : α × β) (key : α) :
    (pairs ++ [p]).reverse.lookup key =
      if p.1 = key then some p.2 else pairs.reverse.lookup key := by
  rw [List.reverse_append, List.reverse_singleton, List.singleton_append, lookup_cons_eq]

end

end ComponentBuild
