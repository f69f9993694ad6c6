import ComponentBuild.Proofs.Position.Lookup
import ComponentBuild.Proofs.Position.Spot
import Mathlib.Data.List.MinMax

namespace ComponentBuild

/-- Behind those that stand with it, a mapping is the last one at its position. -/
theorem filter_insertMapping {x : Mapping} {xs : List Mapping} {p : LineCol}
    (h : xs.Pairwise fun a b => a.generated ≤ b.generated) :
    (insertMapping x xs).filter (·.generated = p) =
      xs.filter (·.generated = p) ++ [x].filter (·.generated = p) := by
  induction xs with
  | nil => rfl
  | cons y ys ih =>
    obtain ⟨hy, hys⟩ := List.pairwise_cons.1 h
    simp only [insertMapping]
    split
    next => rw [List.filter_cons, List.filter_cons, ih hys]; split <;> rfl
    next hgt =>
      rw [not_le] at hgt
      by_cases hp : x.generated = p
      · have hnone : (y :: ys).filter (·.generated = p) = [] := by
          refine List.filter_eq_nil_iff.2 fun z hz => ?_
          have hxz : x.generated < z.generated := by
            rcases List.mem_cons.1 hz with rfl | hz
            · exact hgt
            · exact lt_of_lt_of_le hgt (hy z hz)
          simpa [← hp] using hxz.ne'
        rw [List.filter_cons_of_pos (by simpa using hp), hnone]
        simp [hp]
      · rw [List.filter_cons_of_neg (by simpa using hp)]
        simp [hp]

theorem mem_iff_of_filter_generated {xs ys : List Mapping}
    (h : ∀ p, xs.filter (·.generated = p) = ys.filter (·.generated = p)) (x : Mapping) :
    x ∈ xs ↔ x ∈ ys := by
  have hat : x ∈ xs.filter (·.generated = x.generated) ↔
      x ∈ ys.filter (·.generated = x.generated) := by rw [h]
  simpa using hat

/-- Lists in order are the same if they hold the same at each position, in the same order there. -/
theorem eq_of_filter_generated {xs ys : List Mapping}
    (hxs : xs.Pairwise fun a b => a.generated ≤ b.generated)
    (hys : ys.Pairwise fun a b => a.generated ≤ b.generated)
    (h : ∀ p, xs.filter (·.generated = p) = ys.filter (·.generated = p)) : xs = ys := by
  induction xs generalizing ys with
  | nil =>
    refine (List.eq_nil_iff_forall_not_mem.2 fun z hz => ?_).symm
    exact List.not_mem_nil ((mem_iff_of_filter_generated h z).2 hz)
  | cons x xs ih =>
    cases ys with
    | nil =>
      exact absurd ((mem_iff_of_filter_generated h x).1 (List.mem_cons_self ..)) List.not_mem_nil
    | cons y ys =>
      obtain ⟨hx, hrest⟩ := List.pairwise_cons.1 hxs
      obtain ⟨hy, hrest'⟩ := List.pairwise_cons.1 hys
      -- Each first element is somewhere in the other list, so both stand at one position.
      have hle : y.generated ≤ x.generated := by
        rcases List.mem_cons.1 ((mem_iff_of_filter_generated h x).1 (List.mem_cons_self ..))
          with rfl | hxy
        · exact le_refl _
        · exact hy x hxy
      have hge : x.generated ≤ y.generated := by
        rcases List.mem_cons.1 ((mem_iff_of_filter_generated h y).2 (List.mem_cons_self ..))
          with rfl | hyx
        · exact le_refl _
        · exact hx y hyx
      have hfirst := h y.generated
      rw [List.filter_cons_of_pos (by simpa using le_antisymm hge hle),
        List.filter_cons_of_pos (by simp)] at hfirst
      obtain rfl : x = y := (List.cons.inj hfirst).1
      refine congrArg (x :: ·) (ih hrest hrest' fun p => ?_)
      have hp := h p
      rw [List.filter_cons, List.filter_cons] at hp
      split at hp
      · exact (List.cons.inj hp).2
      · exact hp

theorem generated_le_trans (a b c : Mapping) (hab : decide (a.generated ≤ b.generated) = true)
    (hbc : decide (b.generated ≤ c.generated) = true) : decide (a.generated ≤ c.generated) = true :=
  decide_eq_true (le_trans (of_decide_eq_true hab) (of_decide_eq_true hbc))

theorem generated_le_total (a b : Mapping) :
    (decide (a.generated ≤ b.generated) || decide (b.generated ≤ a.generated)) = true := by
  simpa using le_total a.generated b.generated

/-- Sorting leaves those at one position in their order. -/
theorem filter_mergeSort (xs : List Mapping) (p : LineCol) :
    (xs.mergeSort fun a b => a.generated ≤ b.generated).filter (·.generated = p) =
      xs.filter (·.generated = p) := by
  have hequal : (xs.filter (·.generated = p)).Pairwise
      fun a b => decide (a.generated ≤ b.generated) = true := by
    refine List.pairwise_of_forall_mem_list fun a ha b hb => decide_eq_true ?_
    obtain ⟨-, ha⟩ := List.mem_filter.1 ha
    obtain ⟨-, hb⟩ := List.mem_filter.1 hb
    exact ((of_decide_eq_true ha).trans (of_decide_eq_true hb).symm).le
  have hsub := (List.sublist_mergeSort generated_le_trans generated_le_total hequal
    List.filter_sublist).filter (·.generated = p)
  simp only [List.filter_filter, Bool.and_self] at hsub
  exact (hsub.eq_of_length ((List.mergeSort_perm xs _).filter _).length_eq.symm).symm

namespace PositionMap

/-- A map holds these mappings and no others, those at one position in this order. -/
def HoldsInOrder (m : PositionMap) (xs : List Mapping) : Prop :=
  ∀ p, m.mappings.filter (·.generated = p) = xs.filter (·.generated = p)

/-- The mapping that speaks for a position is the first one where it stands. -/
theorem find?_of_nearest {p : LineCol} {xs : List Mapping} {x : Mapping}
    (h : xs.Pairwise fun a b => a.generated ≤ b.generated) (hx : nearest p xs = some x) :
    xs.find? (·.generated = x.generated) = some x := by
  obtain ⟨front, back, rfl, -, hfront, -⟩ := (nearest_eq_some_iff h).1 hx
  refine List.find?_eq_some_iff_append.2 ⟨by simp, front, back, rfl, fun y hy => ?_⟩
  simpa using (hfront y hy).ne

namespace HoldsInOrder

variable {m n : PositionMap} {xs ys : List Mapping}

theorem self (m : PositionMap) : m.HoldsInOrder m.mappings := fun _ => rfl

theorem addMapping (h : m.HoldsInOrder xs) (p : LineCol) (o : Option Location) :
    (m.addMapping p o).HoldsInOrder (xs ++ [⟨p, o⟩]) := by
  intro q
  rw [PositionMap.addMapping, filter_insertMapping m.ordered, h q, List.filter_append]

theorem foldl {α : Type} {f : PositionMap → α → PositionMap} {g : α → List Mapping}
    (hf : ∀ m xs a, m.HoldsInOrder xs → (f m a).HoldsInOrder (xs ++ g a)) (as : List α)
    (h : m.HoldsInOrder xs) : (as.foldl f m).HoldsInOrder (xs ++ as.flatMap g) := by
  induction as generalizing m xs with
  | nil => rwa [List.flatMap_nil, List.append_nil]
  | cons a as ih =>
    rw [List.flatMap_cons, ← List.append_assoc]
    exact ih (hf m xs a h)

theorem mem_iff (h : m.HoldsInOrder xs) (x : Mapping) : x ∈ m.mappings ↔ x ∈ xs :=
  mem_iff_of_filter_generated h x

/-- What a map holds is sorted by position, and in no other way put in order. -/
theorem mappings_eq_mergeSort (h : m.HoldsInOrder xs) :
    m.mappings = xs.mergeSort fun a b => a.generated ≤ b.generated := by
  have hsorted := (List.pairwise_mergeSort generated_le_trans generated_le_total xs).imp
    of_decide_eq_true
  exact eq_of_filter_generated m.ordered hsorted fun p => (h p).trans (filter_mergeSort xs p).symm

theorem find?_eq (h : m.HoldsInOrder xs) (p : LineCol) :
    m.mappings.find? (·.generated = p) = xs.find? (·.generated = p) := by
  rw [← List.head?_filter, h, List.head?_filter]

/-- The first of those at the last position not behind `p` speaks for `p`. -/
theorem nearest_eq (h : m.HoldsInOrder xs) {x : Mapping} {p : LineCol}
    (hx : xs.find? (·.generated = x.generated) = some x) (hp : x.generated ≤ p)
    (hmax : ∀ y ∈ xs, y.generated ≤ p → y.generated ≤ x.generated) :
    nearest p m.mappings = some x := by
  have hfirst : m.mappings.find? (·.generated = x.generated) = some x := by
    rw [h.find?_eq, hx]
  obtain ⟨-, front, back, hm, hne⟩ := List.find?_eq_some_iff_append.1 hfirst
  refine (nearest_eq_some_iff m.ordered).2 ⟨front, back, hm, hp, fun y hy => ?_, fun y hy => ?_⟩
  · have hordered := m.ordered
    rw [hm] at hordered
    have hle := (List.pairwise_append.1 hordered).2.2 y hy x (List.mem_cons_self ..)
    exact lt_of_le_of_ne hle (by simpa using hne y hy)
  · exact hmax y ((h.mem_iff y).1 (by rw [hm]; simp [hy]))

/-- Mappings that come behind those of a map change nothing for a position, where the map has a
mapping that stands no further in front than they do. -/
theorem nearest_append (hm : m.HoldsInOrder xs) (hn : n.HoldsInOrder (xs ++ ys)) {x : Mapping}
    {p : LineCol} (hx : nearest p m.mappings = some x)
    (hys : ∀ y ∈ ys, y.generated ≤ p → y.generated ≤ x.generated) :
    nearest p n.mappings = some x := by
  refine hn.nearest_eq ?_ (nearest_mem m.ordered hx).2 fun y hy hyp => ?_
  · rw [List.find?_append, ← hm.find?_eq, find?_of_nearest m.ordered hx, Option.some_or]
  · rcases List.mem_append.1 hy with hy | hy
    · exact le_nearest m.ordered hx ((hm.mem_iff y).2 hy) hyp
    · exact hys y hy hyp

/-- Inside a stretch of positions only those speak that stand in it. -/
theorem nearest_inner {own : List Mapping} {x : Mapping} {p start stop : LineCol}
    (h : m.HoldsInOrder (xs ++ (own ++ ys)))
    (hown : own.Pairwise fun a b => a.generated ≤ b.generated)
    (hxs : ∀ y ∈ xs, y.generated < start ∨ stop ≤ y.generated)
    (hys : ∀ y ∈ ys, y.generated < start ∨ stop ≤ y.generated) (hp : p < stop)
    (hx : nearest p own = some x) (hstart : start ≤ x.generated) :
    nearest p m.mappings = some x := by
  obtain ⟨hmem, hle⟩ := nearest_mem hown hx
  have hout {y : Mapping} (hy : y.generated < start ∨ stop ≤ y.generated) (hyp : y.generated ≤ p) :
      y.generated < x.generated :=
    hy.elim (fun hlt => lt_of_lt_of_le hlt hstart)
      fun hge => absurd (lt_of_lt_of_le hp hge) (not_lt.2 hyp)
  refine h.nearest_eq ?_ hle fun y hy hyp => ?_
  · rw [List.find?_append, List.find?_append, find?_of_nearest hown hx, Option.some_or,
      List.find?_eq_none.2, Option.none_or]
    intro y hy
    by_cases hyp : y.generated ≤ p
    · simpa using (hout (hxs y hy) hyp).ne
    · have hlt : x.generated < y.generated := lt_of_le_of_lt hle (not_le.1 hyp)
      simpa using hlt.ne'
  · rcases List.mem_append.1 hy with hy | hy
    · exact (hout (hxs y hy) hyp).le
    rcases List.mem_append.1 hy with hy | hy
    · exact le_nearest hown hx hy hyp
    · exact (hout (hys y hy) hyp).le

theorem lookup_eq (h : m.HoldsInOrder xs) {x : Mapping} {p : LineCol}
    (hx : xs.find? (·.generated = x.generated) = some x) (hp : x.generated ≤ p)
    (hmax : ∀ y ∈ xs, y.generated ≤ p → y.generated ≤ x.generated) :
    m.lookup p = if x.generated.line = p.line then m.resolve x else none := by
  rw [PositionMap.lookup_eq, h.nearest_eq hx hp hmax, Option.bind_some]

end HoldsInOrder

theorem foldl_sources {α : Type} {f : PositionMap → α → PositionMap}
    (hf : ∀ m a, (f m a).sources = m.sources) (xs : List α) (m : PositionMap) :
    (xs.foldl f m).sources = m.sources := by
  induction xs generalizing m with
  | nil => rfl
  | cons x xs ih => exact (ih _).trans (hf m x)

variable {m part m' : PositionMap} {generatedBase originalBase : LineCol} {source : Nat}

/-- What a map takes in of a part comes behind its own mappings. -/
theorem HoldsInOrder.extendShifted {xs : List Mapping} (h : m.HoldsInOrder xs)
    (hm : m.extendShifted part generatedBase originalBase source = .ok m') :
    m'.HoldsInOrder (xs ++ part.mappings.map (shifted generatedBase originalBase source)) := by
  obtain ⟨-, rfl⟩ := extendShifted_eq_ok_iff.1 hm
  rw [List.map_eq_flatMap]
  exact HoldsInOrder.foldl (g := fun y => [shifted generatedBase originalBase source y])
    (fun _ _ _ h => h.addMapping _ _) _ h

theorem mem_extendShifted {x : Mapping}
    (hm : m.extendShifted part generatedBase originalBase source = .ok m') :
    x ∈ m'.mappings ↔ x ∈ m.mappings ∨
      ∃ y ∈ part.mappings, x = shifted generatedBase originalBase source y := by
  rw [((HoldsInOrder.self m).extendShifted hm).mem_iff]
  simp only [List.mem_append, List.mem_map, eq_comm (a := x)]

theorem extendShifted_sources
    (hm : m.extendShifted part generatedBase originalBase source = .ok m') :
    m'.sources = m.sources := by
  obtain ⟨-, rfl⟩ := extendShifted_eq_ok_iff.1 hm
  apply foldl_sources
  intro m x
  rfl

section

variable {α : Type} {part : α → PositionMap} {generatedBase originalBase : α → LineCol}
  {xs : List α}

/-- Parts are taken in one behind the other. -/
theorem extendAll_eq_ok
    (h : xs.foldlM (fun m x => m.extendShifted (part x) (generatedBase x) (originalBase x) 0) m =
      .ok m') :
    m'.sources = m.sources ∧ ∀ zs, m.HoldsInOrder zs → m'.HoldsInOrder (zs ++
      xs.flatMap fun x => (part x).mappings.map
        (shifted (generatedBase x) (originalBase x) 0)) := by
  induction xs generalizing m with
  | nil =>
    obtain rfl := Except.ok.inj h
    exact ⟨rfl, fun zs hzs => by rwa [List.flatMap_nil, List.append_nil]⟩
  | cons x xs ih =>
    rw [List.foldlM_cons] at h
    cases hx : m.extendShifted (part x) (generatedBase x) (originalBase x) 0 with
    | error e =>
      rw [hx] at h
      cases h
    | ok m₁ =>
      rw [hx] at h
      obtain ⟨hsources, hholds⟩ := ih h
      refine ⟨hsources.trans (extendShifted_sources hx), fun zs hzs => ?_⟩
      rw [List.flatMap_cons, ← List.append_assoc]
      exact hholds _ (hzs.extendShifted hx)

theorem extendAll_eq_error_iff :
    xs.foldlM (fun m x => m.extendShifted (part x) (generatedBase x) (originalBase x) 0) m =
        .error ⟨⟩ ↔
      ∃ x ∈ xs, ∃ y ∈ (part x).mappings, ¬ FitsAt (generatedBase x) (originalBase x) y := by
  induction xs generalizing m with
  | nil => exact iff_of_false nofun fun ⟨x, hx, _⟩ => absurd hx List.not_mem_nil
  | cons x xs ih =>
    rw [List.foldlM_cons, List.exists_mem_cons_iff,
      ← extendShifted_eq_error_iff]
    cases hx : m.extendShifted (part x) (generatedBase x) (originalBase x) 0 with
    | error e => exact iff_of_true rfl (.inl rfl)
    | ok m₁ => exact ih.trans (or_iff_right nofun).symm

end

/-- The mapping for a position, found by a look at all that were added: of those on its line and not
behind it, the first of those that stand last. -/
def scan (inserted : List Mapping) (p : LineCol) : Option Mapping :=
  (inserted.filter fun x => x.generated.line = p.line ∧ x.generated ≤ p).argmax Mapping.generated

/-- The first of those at the last position is the one that is found. -/
theorem scan_eq_some {xs : List Mapping} {x : Mapping} {p : LineCol}
    (hx : xs.find? (·.generated = x.generated) = some x) (hline : x.generated.line = p.line)
    (hp : x.generated ≤ p) (hmax : ∀ y ∈ xs, y.generated ≤ p → y.generated ≤ x.generated) :
    scan xs p = some x := by
  have hkept : (xs.filter fun y => y.generated.line = p.line ∧ y.generated ≤ p).find?
      (·.generated = x.generated) = some x := by
    rw [List.find?_filter, ← hx]
    congr 1
    funext y
    by_cases hy : y.generated = x.generated
    · simp [hy, hline, hp]
    · simp [hy]
  obtain ⟨-, front, back, hsplit, hfront⟩ := List.find?_eq_some_iff_append.1 hkept
  rw [scan, List.argmax_eq_some_iff]
  refine ⟨List.mem_of_find?_eq_some hkept, fun y hy => ?_, fun y hy hxy => ?_⟩
  · obtain ⟨hmem, hpass⟩ := List.mem_filter.1 hy
    exact hmax y hmem (of_decide_eq_true hpass).2
  · obtain ⟨hmem, hpass⟩ := List.mem_filter.1 hy
    have hat : y.generated = x.generated :=
      le_antisymm (hmax y hmem (of_decide_eq_true hpass).2) hxy
    have hnot (z : Mapping) (hz : z.generated = x.generated) : z ∉ front := fun hmem => by
      simpa [hz] using hfront z hmem
    rw [hsplit, List.idxOf_append_of_notMem (hnot x rfl), List.idxOf_append_of_notMem (hnot y hat),
      List.idxOf_cons_self]
    exact Nat.add_le_add_left (Nat.zero_le _) _

/-- A map answers as if all that was added to it were looked through. -/
theorem HoldsInOrder.lookup_eq_scan {m : PositionMap} {xs : List Mapping} (h : m.HoldsInOrder xs)
    (p : LineCol) : m.lookup p = (scan xs p).bind m.resolve := by
  rw [PositionMap.lookup_eq, nearest_line m.resolve p m.ordered]
  have hline := nearest_line some p m.ordered
  refine congrArg (Option.bind · m.resolve) ?_
  cases hn : nearest p (m.mappings.filter fun x => x.generated.line = p.line) with
  | none =>
    have hnone := (nearest_eq_none_iff (m.ordered.filter _)).1 hn
    refine (List.argmax_eq_none.2 (List.filter_eq_nil_iff.2 fun y hy hpass => ?_)).symm
    obtain ⟨hyl, hyp⟩ := of_decide_eq_true hpass
    have hlt := hnone y (List.mem_filter.2 ⟨(h.mem_iff y).2 hy, decide_eq_true hyl⟩)
    exact absurd hyp (not_le.2 hlt)
  | some x =>
    rw [hn, Option.bind_some] at hline
    obtain ⟨z, hz, hif⟩ := Option.bind_eq_some_iff.1 hline
    split at hif
    next hzl =>
      cases hif
      refine (scan_eq_some ?_ hzl (nearest_mem m.ordered hz).2 fun y hy hyp => ?_).symm
      · rw [← h.find?_eq, find?_of_nearest m.ordered hz]
      · exact le_nearest m.ordered hz ((h.mem_iff y).2 hy) hyp
    next => cases hif

end PositionMap

end ComponentBuild
