namespace ComponentBuild

/-- A binary search for a key among keys in order. It answers where the key stands, or else where it
could be put in. Of equal keys it may answer any. -/
structure BinarySearch where
  find : List Nat → Nat → Except Nat Nat
  found {keys : List Nat} {key i : Nat} :
    keys.Pairwise (· ≤ ·) → find keys key = .ok i → keys[i]? = some key
  missed {keys : List Nat} {key i : Nat} :
    keys.Pairwise (· ≤ ·) → find keys key = .error i →
      ∃ front back, keys = front ++ back ∧ front.length = i ∧ (∀ k ∈ front, k < key) ∧
        ∀ k ∈ back, key < k

namespace BinarySearch

theorem takeWhile_eq_nil {keys : List Nat} {key : Nat} (h : ∀ k ∈ keys, key ≤ k) :
    keys.takeWhile (· < key) = [] := by
  cases keys with
  | nil => rfl
  | cons k keys =>
    rw [List.takeWhile_cons, if_neg]
    simpa using h k (.head _)

/-- Keys in order are those below a key, the equal ones, and those above. -/
theorem parts_of_sorted {keys : List Nat} (key : Nat) (hsorted : keys.Pairwise (· ≤ ·)) :
    keys = keys.takeWhile (· < key) ++
      (List.replicate (keys.count key) key ++ keys.filter (key < ·)) := by
  induction keys with
  | nil => rfl
  | cons k keys ih =>
    obtain ⟨hle, hsorted⟩ := List.pairwise_cons.1 hsorted
    have ih := ih hsorted
    rcases Nat.lt_trichotomy k key with hlt | rfl | hgt
    · have hnot : ¬ key < k := by omega
      simpa [hlt, hnot, Nat.ne_of_lt hlt] using ih
    · rw [takeWhile_eq_nil hle, List.nil_append] at ih
      simpa [List.replicate_succ] using ih
    · have hnot : ¬ k < key := by omega
      have habove : ∀ k' ∈ keys, key < k' := fun k' hk' => Nat.lt_of_lt_of_le hgt (hle k' hk')
      have hcount : keys.count key = 0 :=
        List.count_eq_zero.2 fun hmem => Nat.lt_irrefl _ (habove key hmem)
      have hfilter : keys.filter (key < ·) = keys := by simpa using habove
      simp [hnot, hgt, hcount, hfilter, Nat.ne_of_gt hgt]

/-- The search that answers one of equal keys by their number behind the first. -/
def choosing (choose : Nat → Nat) (hchoose : ∀ n, choose n ≤ n) : BinarySearch where
  find keys key :=
    let front := keys.takeWhile (· < key)
    match keys.count key with
    | 0 => .error front.length
    | n + 1 => .ok (front.length + choose n)
  found {keys key i} hsorted h := by
    have hparts := parts_of_sorted key hsorted
    split at h
    · cases h
    next n hcount =>
      cases h
      rw [hcount] at hparts
      have hlt : choose n < n + 1 := Nat.lt_succ_of_le (hchoose n)
      refine (congrArg (·[(keys.takeWhile (· < key)).length + choose n]?) hparts).trans ?_
      rw [List.getElem?_append_right (Nat.le_add_right _ _), Nat.add_sub_cancel_left,
        List.getElem?_append_left (by rwa [List.length_replicate]), List.getElem?_replicate,
        if_pos hlt]
  missed {keys key i} hsorted h := by
    have hparts := parts_of_sorted key hsorted
    split at h
    next hcount =>
      cases h
      rw [hcount] at hparts
      refine ⟨_, _, hparts, rfl, fun k hk => ?_, fun k hk => ?_⟩
      · exact of_decide_eq_true (List.all_eq_true.1 List.all_takeWhile k hk)
      · exact of_decide_eq_true (List.mem_filter.1 hk).2
    · cases h

def last : BinarySearch := choosing id Nat.le_refl

end BinarySearch

end ComponentBuild
