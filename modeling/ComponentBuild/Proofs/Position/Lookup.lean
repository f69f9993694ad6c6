import ComponentBuild.Position.Map
import Mathlib.Data.List.Forall2
import Mathlib.Order.Basic

namespace ComponentBuild

instance : LinearOrder LineCol where
  le_refl := LineCol.le_refl
  le_trans _ _ _ := LineCol.le_trans
  le_antisymm _ _ := LineCol.le_antisymm
  lt_iff_le_not_ge a b := by
    rw [LineCol.not_le_iff]
    exact ⟨fun h => ⟨LineCol.le_of_lt h, h⟩, fun h => h.2⟩
  le_total a b := by
    by_cases h : a ≤ b
    · exact .inl h
    · exact .inr (LineCol.le_of_lt ((LineCol.not_le_iff a b).1 h))
  toDecidableLE := inferInstance
  toDecidableLT := inferInstance

namespace PositionMap

/-- What a mapping says, by the name of its source. -/
def resolve (m : PositionMap) (x : Mapping) : Option Resolved :=
  x.original.bind fun o => (m.sourceName? o.source).map (⟨·, o.position⟩)

theorem lookup_eq (m : PositionMap) (p : LineCol) :
    m.lookup p = (nearest p m.mappings).bind fun x =>
      if x.generated.line = p.line then m.resolve x else none := rfl

theorem nearest_eq_none_iff {p : LineCol} {xs : List Mapping}
    (h : xs.Pairwise fun a b => a.generated ≤ b.generated) :
    nearest p xs = none ↔ ∀ y ∈ xs, p < y.generated := by
  induction xs with
  | nil => simp [nearest]
  | cons x xs ih =>
    obtain ⟨hx, hxs⟩ := List.pairwise_cons.1 h
    by_cases hp : x.generated ≤ p
    · have hne : ¬ ∀ y ∈ x :: xs, p < y.generated := fun hall =>
        absurd hp (not_le.2 (hall x (List.mem_cons_self ..)))
      simp only [nearest, hp, if_true, hne, iff_false]
      split <;> (try split) <;> simp
    · simp only [nearest, hp, if_false, true_iff]
      intro y hy
      rcases List.mem_cons.1 hy with rfl | hy
      · exact not_le.1 hp
      · exact lt_of_lt_of_le (not_le.1 hp) (hx y hy)

/-- The mapping that speaks for `p` parts the list: those in front stand before it, and those
behind it stand with it or behind `p`. -/
theorem nearest_eq_some_iff {p : LineCol} {xs : List Mapping} {x : Mapping}
    (h : xs.Pairwise fun a b => a.generated ≤ b.generated) :
    nearest p xs = some x ↔ ∃ front back, xs = front ++ x :: back ∧ x.generated ≤ p ∧
      (∀ y ∈ front, y.generated < x.generated) ∧
      ∀ y ∈ back, y.generated ≤ p → y.generated ≤ x.generated := by
  induction xs generalizing x with
  | nil => simp [nearest]
  | cons z zs ih =>
    obtain ⟨hz, hzs⟩ := List.pairwise_cons.1 h
    constructor
    · intro hx
      simp only [nearest] at hx
      split at hx
      next hp =>
        split at hx
        next hnone =>
          cases hx
          exact ⟨[], zs, rfl, hp, by simp, fun y hy hyp =>
            absurd hyp (not_le.2 ((nearest_eq_none_iff hzs).1 hnone y hy))⟩
        next y hsome =>
          obtain ⟨front, back, rfl, hyp, hfront, hback⟩ := (ih hzs).1 hsome
          split at hx
          next hlt =>
            cases hx
            exact ⟨z :: front, back, rfl, hyp, by simpa using ⟨hlt, hfront⟩, hback⟩
          next hnlt =>
            cases hx
            have hyz : y.generated = z.generated :=
              le_antisymm (not_lt.1 hnlt) (hz y (by simp))
            refine ⟨[], _, rfl, hp, by simp, fun w hw hwp => ?_⟩
            rcases List.mem_append.1 hw with hw | hw
            · exact hyz ▸ (hfront w hw).le
            rcases List.mem_cons.1 hw with rfl | hw
            · exact hyz.le
            · exact hyz ▸ hback w hw hwp
      next => contradiction
    · rintro ⟨front, back, hs, hxp, hfront, hback⟩
      cases front with
      | nil =>
        obtain ⟨rfl, rfl⟩ := List.cons.inj hs
        simp only [nearest, hxp, if_true]
        split
        next => rfl
        next y hsome =>
          obtain ⟨f, b, rfl, hyp, -⟩ := (ih hzs).1 hsome
          rw [if_neg (not_lt.2 (hback y (by simp) hyp))]
      | cons w front =>
        obtain ⟨rfl, rfl⟩ := List.cons.inj hs
        have hlt := hfront z (List.mem_cons_self ..)
        have hrest := (ih hzs).2 ⟨front, back, rfl, hxp,
          fun y hy => hfront y (List.mem_cons_of_mem _ hy), hback⟩
        simp only [List.append_eq] at hrest
        simp only [nearest, hlt.le.trans hxp, if_true, List.append_eq, hrest, hlt]

theorem nearest_mem {p : LineCol} {xs : List Mapping} {x : Mapping}
    (h : xs.Pairwise fun a b => a.generated ≤ b.generated) (hx : nearest p xs = some x) :
    x ∈ xs ∧ x.generated ≤ p := by
  obtain ⟨front, back, rfl, hp, -⟩ := (nearest_eq_some_iff h).1 hx
  exact ⟨by simp, hp⟩

theorem le_nearest {p : LineCol} {xs : List Mapping} {x y : Mapping}
    (h : xs.Pairwise fun a b => a.generated ≤ b.generated) (hx : nearest p xs = some x)
    (hy : y ∈ xs) (hp : y.generated ≤ p) : y.generated ≤ x.generated := by
  obtain ⟨front, back, rfl, -, hfront, hback⟩ := (nearest_eq_some_iff h).1 hx
  rcases List.mem_append.1 hy with hy | hy
  · exact (hfront y hy).le
  rcases List.mem_cons.1 hy with rfl | hy
  · exact le_refl _
  · exact hback y hy hp

/-- A mapping speaks for a position if none stands between them, and if those that stand with it
say the same. -/
theorem lookup_of_greatest {m : PositionMap} {p : LineCol} {x : Mapping} (hx : x ∈ m.mappings)
    (hp : x.generated ≤ p)
    (hmax : ∀ y ∈ m.mappings, y.generated ≤ p → y.generated ≤ x.generated)
    (huniq : ∀ y ∈ m.mappings, y.generated = x.generated → y.original = x.original) :
    m.lookup p = if x.generated.line = p.line then m.resolve x else none := by
  rw [lookup_eq]
  cases hn : nearest p m.mappings with
  | none => exact absurd hp (not_le.2 ((nearest_eq_none_iff m.ordered).1 hn x hx))
  | some z =>
    obtain ⟨hz, hzp⟩ := nearest_mem m.ordered hn
    have hg : z.generated = x.generated :=
      le_antisymm (hmax z hz hzp) (le_nearest m.ordered hn hx hp)
    simp only [Option.bind_some, resolve, hg, huniq z hz hg]

/-- Taking out others does not change which mapping speaks for a position. -/
theorem nearest_filter {p : LineCol} {xs : List Mapping} {x : Mapping} {keep : Mapping → Bool}
    (h : xs.Pairwise fun a b => a.generated ≤ b.generated) (hx : nearest p xs = some x)
    (hk : keep x) : nearest p (xs.filter keep) = some x := by
  obtain ⟨front, back, rfl, hp, hfront, hback⟩ := (nearest_eq_some_iff h).1 hx
  refine (nearest_eq_some_iff (h.filter _)).2
    ⟨front.filter keep, back.filter keep, by simp [hk], hp, fun y hy => ?_, fun y hy => ?_⟩
  · exact hfront y (List.mem_filter.1 hy).1
  · exact hback y (List.mem_filter.1 hy).1

/-- Of all mappings, those on the line of a position are enough to look at. -/
theorem nearest_line {α : Type} (f : Mapping → Option α) (p : LineCol) {xs : List Mapping}
    (h : xs.Pairwise fun a b => a.generated ≤ b.generated) :
    ((nearest p xs).bind fun x => if x.generated.line = p.line then f x else none) =
      (nearest p (xs.filter fun x => x.generated.line = p.line)).bind f := by
  cases hn : nearest p xs with
  | none =>
    have hall := (nearest_eq_none_iff h).1 hn
    rw [(nearest_eq_none_iff (h.filter _)).2 fun y hy => hall y (List.mem_filter.1 hy).1]
    rfl
  | some x =>
    simp only [Option.bind_some]
    split
    next hl => rw [nearest_filter h hn (by simpa using hl)]; rfl
    next hl =>
      -- All on the line of `p` would stand behind `x` and not behind `p`.
      obtain ⟨-, hp⟩ := nearest_mem h hn
      rw [(nearest_eq_none_iff (h.filter _)).2]
      · rfl
      intro y hy
      obtain ⟨hy, hyl⟩ := List.mem_filter.1 hy
      by_contra hyp
      rw [not_lt] at hyp
      have hyx : y.generated ≤ x.generated := le_nearest h hn hy hyp
      have hyl : y.generated.line = p.line := by simpa using hyl
      rcases hyx with hlt | ⟨heq, -⟩
      · rcases hp with hlt' | ⟨heq', -⟩
        · exact UInt32.lt_irrefl _ (UInt32.lt_trans (hyl ▸ hlt) hlt')
        · exact hl heq'
      · exact hl (heq ▸ hyl)

/-- Lists that agree position by position have the same mapping speak for each position. -/
theorem nearest_forall₂ {R : Mapping → Mapping → Prop} (p : LineCol) {xs ys : List Mapping}
    (h : List.Forall₂ (fun x y => y.generated = x.generated ∧ R x y) xs ys) :
    Option.Rel (fun x y => y.generated = x.generated ∧ R x y) (nearest p xs) (nearest p ys) := by
  induction h with
  | nil => exact .none
  | @cons x y xs ys hxy _ ih =>
    simp only [nearest, hxy.1]
    split
    · cases hx : nearest p xs <;> cases hy : nearest p ys <;> rw [hx, hy] at ih <;> cases ih
      · exact .some hxy
      next hrest =>
        simp only [hrest.1]
        split
        · exact .some hrest
        · exact .some hxy
    · exact .none

end PositionMap

end ComponentBuild
