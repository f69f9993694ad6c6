import ComponentBuild.Build.Affected
import ComponentBuild.Proofs.Build.Ledger
import Mathlib.Data.List.Lex
import Mathlib.Data.Prod.Lex
import Mathlib.Data.String.Basic

namespace ComponentBuild.Path

/-- A component by its place in the order of all components. -/
def Component.key : Component → Nat ×ₗ String
  | .name n => toLex (3, n)
  | c => toLex (c.rank, "")

theorem Component.before_iff {a b : Component} : a.before b = true ↔ a.key < b.key := by
  cases a <;> cases b <;> simp [before, key, rank, Prod.Lex.toLex_lt_toLex]

theorem Component.key_injective : Function.Injective Component.key := by
  intro a b h
  cases a <;> cases b <;> simp_all [key, rank]

/-- A path by its place in the order of all paths. -/
def key (p : Path) : List (Nat ×ₗ String) := p.components.map Component.key

theorem componentsBefore_iff {as bs : List Component} :
    componentsBefore as bs = true ↔ as.map Component.key < bs.map Component.key := by
  induction as generalizing bs with
  | nil =>
    cases bs with
    | nil => simp [componentsBefore]
    | cons b bs => simp [componentsBefore]
  | cons a as ih =>
    cases bs with
    | nil => simp [componentsBefore]
    | cons b bs =>
      rw [componentsBefore, Bool.or_eq_true, Bool.and_eq_true, Component.before_iff, ih,
        beq_iff_eq, List.map_cons, List.map_cons, List.cons_lt_cons_iff,
        Component.key_injective.eq_iff]

variable {p q : Path} {ps : List Path}

theorem before_iff : p.before q = true ↔ p.key < q.key := componentsBefore_iff

theorem sameAs_iff_key : p.sameAs q = true ↔ p.key = q.key :=
  sameAs_iff.trans (Component.key_injective.list_map.eq_iff).symm

theorem sort_pairwise (ps : List Path) : (sort ps).Pairwise fun p q => p.key ≤ q.key := by
  have hle (p q : Path) : (!q.before p) = true ↔ p.key ≤ q.key := by
    rw [Bool.not_eq_true', Bool.eq_false_iff, Ne, before_iff, not_lt]
  refine (List.pairwise_mergeSort (fun a b c hab hbc => ?_) (fun a b => ?_) ps).imp fun h =>
    (hle _ _).1 h
  · rw [hle] at hab hbc ⊢
    exact hab.trans hbc
  · rw [Bool.or_eq_true, hle, hle]
    exact le_total _ _

theorem dropRepeats_subset (ps : List Path) : dropRepeats ps ⊆ ps := by
  induction ps with
  | nil => exact List.Subset.refl _
  | cons p ps ih =>
    exact List.cons_subset_cons _ (List.Subset.trans (List.dropWhile_sublist _).subset ih)

theorem dropRepeats_pairwise (h : ps.Pairwise fun p q => p.key ≤ q.key) :
    (dropRepeats ps).Pairwise fun p q => p.key < q.key := by
  induction ps with
  | nil => exact List.Pairwise.nil
  | cons p ps ih =>
    obtain ⟨hp, hps⟩ := List.pairwise_cons.1 h
    have hrest := (ih hps).sublist (List.dropWhile_sublist (p.sameAs ·))
    refine List.pairwise_cons.2 ⟨fun q hq => ?_, hrest⟩
    -- The first path that is left means another one than `p`, and is not in front of it.
    cases hdrop : (dropRepeats ps).dropWhile (p.sameAs ·) with
    | nil =>
      rw [hdrop] at hq
      cases hq
    | cons first others =>
      have hmem : first ∈ ps := by
        refine dropRepeats_subset ps ((List.dropWhile_sublist (p.sameAs ·)).subset ?_)
        rw [hdrop]
        exact List.mem_cons_self
      have hne : p.key ≠ first.key := by
        have hhead := List.head?_dropWhile_not (p.sameAs ·) (dropRepeats ps)
        rw [hdrop] at hhead
        exact sameAs_iff_key.not.1 (Bool.eq_false_iff.1 hhead)
      have hfirst := lt_of_le_of_ne (hp first hmem) hne
      rw [hdrop] at hq hrest
      rcases List.mem_cons.1 hq with rfl | hq
      · exact hfirst
      · exact hfirst.trans ((List.pairwise_cons.1 hrest).1 q hq)

/-- Sorted and without repeats, paths are in strict order. -/
theorem dropRepeats_sort_pairwise (ps : List Path) :
    (dropRepeats (sort ps)).Pairwise fun p q => p.before q = true :=
  (dropRepeats_pairwise (sort_pairwise ps)).imp before_iff.2

end ComponentBuild.Path
