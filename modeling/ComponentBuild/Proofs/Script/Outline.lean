import ComponentBuild.Script.Scope
import Mathlib.Data.List.Perm.Basic
import Mathlib.Data.List.Flatten
import Mathlib.Tactic.Tauto

namespace ComponentBuild.Script

theorem partsOfStmts_eq (items : List Stmt) : partsOfStmts items = items.flatMap Stmt.parts := by
  induction items with
  | nil => rfl
  | cons s items ih => rw [partsOfStmts, ih, List.flatMap_cons]

theorem partsOfStmts_append (xs ys : List Stmt) :
    partsOfStmts (xs ++ ys) = partsOfStmts xs ++ partsOfStmts ys := by
  rw [partsOfStmts_eq, partsOfStmts_eq, partsOfStmts_eq, List.flatMap_append]

theorem hoistedIn_eq (parts : List Part) : Part.hoistedIn parts = parts.flatMap Part.hoisted := by
  induction parts with
  | nil => rfl
  | cons part parts ih => rw [Part.hoistedIn, ih, List.flatMap_cons]

namespace Part

theorem freeIn_eq (parts : List Part) : freeIn parts = parts.flatMap free := by
  induction parts with
  | nil => rfl
  | cons part parts ih => rw [freeIn, ih, List.flatMap_cons]

@[simp] theorem hoistedIn_nil : hoistedIn [] = [] := rfl

@[simp] theorem freeIn_nil : freeIn [] = [] := rfl

@[simp] theorem hoistedIn_cons (part : Part) (parts : List Part) :
    hoistedIn (part :: parts) = part.hoisted ++ hoistedIn parts := rfl

@[simp] theorem freeIn_cons (part : Part) (parts : List Part) :
    freeIn (part :: parts) = part.free ++ freeIn parts := rfl

@[simp] theorem hoistedIn_append (ps qs : List Part) :
    hoistedIn (ps ++ qs) = hoistedIn ps ++ hoistedIn qs := by
  rw [hoistedIn_eq, hoistedIn_eq, hoistedIn_eq, List.flatMap_append]

@[simp] theorem freeIn_append (ps qs : List Part) : freeIn (ps ++ qs) = freeIn ps ++ freeIn qs := by
  rw [freeIn_eq, freeIn_eq, freeIn_eq, List.flatMap_append]

theorem hoistedIn_map {f : Name → Part} (h : ∀ n, (f n).hoisted = []) (names : List Name) :
    hoistedIn (names.map f) = [] := by
  rw [hoistedIn_eq, List.flatMap_map]
  exact List.flatMap_eq_nil_iff.2 fun n _ => h n

theorem hoistedIn_hoist (names : List Name) : hoistedIn (names.map .hoist) = names := by
  rw [hoistedIn_eq, List.flatMap_map]
  exact List.flatMap_singleton' names

theorem freeIn_map {f : Name → Part} (h : ∀ n, (f n).free = []) (names : List Name) :
    freeIn (names.map f) = [] := by
  rw [freeIn_eq, List.flatMap_map]
  exact List.flatMap_eq_nil_iff.2 fun n _ => h n

theorem mem_declaredIn {ofFunction : Bool} {parts : List Part} {n : Name} :
    n ∈ declaredIn ofFunction parts ↔
      .declare n ∈ parts ∨ ofFunction = true ∧ n ∈ hoistedIn parts := by
  unfold declaredIn
  rw [List.mem_append, List.mem_filterMap]
  refine or_congr ?_ ?_
  · constructor
    · rintro ⟨part, hpart, hn⟩
      cases part with
      | declare m =>
        obtain rfl : m = n := Option.some.inj hn
        exact hpart
      | reference m => cases hn
      | hoist m => cases hn
      | scope ofFunction parts => cases hn
    · exact fun h => ⟨_, h, rfl⟩
  · cases ofFunction with
    | true => simp
    | false => simp

theorem mem_declaredIn_append {ofFunction : Bool} {ps qs : List Part} {n : Name} :
    n ∈ declaredIn ofFunction (ps ++ qs) ↔
      n ∈ declaredIn ofFunction ps ∨ n ∈ declaredIn ofFunction qs := by
  simp only [mem_declaredIn, hoistedIn_append, List.mem_append]
  tauto

theorem mem_free_scope {ofFunction : Bool} {parts : List Part} {n : Name} :
    n ∈ (scope ofFunction parts).free ↔ n ∈ freeIn parts ∧ n ∉ declaredIn ofFunction parts := by
  rw [free, List.mem_filter]
  simp

mutual

def same : Part → Part → Bool
  | .reference n, .reference m => n == m
  | .declare n, .declare m => n == m
  | .hoist n, .hoist m => n == m
  | .scope ofFunction parts, .scope ofFunction' parts' =>
    ofFunction == ofFunction' && sameAll parts parts'
  | _, _ => false

def sameAll : List Part → List Part → Bool
  | [], [] => true
  | part :: parts, part' :: parts' => part.same part' && sameAll parts parts'
  | _, _ => false

end

mutual

theorem same_iff : ∀ part part' : Part, part.same part' = true ↔ part = part'
  | .reference n, part' => by cases part' <;> simp [same]
  | .declare n, part' => by cases part' <;> simp [same]
  | .hoist n, part' => by cases part' <;> simp [same]
  | .scope ofFunction parts, part' => by cases part' <;> simp [same, sameAll_iff parts]

theorem sameAll_iff : ∀ parts parts' : List Part, sameAll parts parts' = true ↔ parts = parts'
  | [], parts' => by cases parts' <;> simp [sameAll]
  | part :: parts, parts' => by cases parts' <;> simp [sameAll, same_iff part, sameAll_iff parts]

end

instance : DecidableEq Part := fun part part' => decidable_of_iff _ (same_iff part part')

end Part

/-- The names that the items of a module declare at its top, each as often as it is declared. -/
def topLevelNames (items : List Stmt) : List Name := Part.declaredIn true (partsOfStmts items)

theorem mem_globals {items : List Stmt} {n : Name} :
    n ∈ globals items ↔ n ∈ Part.freeIn (partsOfStmts items) ∧ n ∉ topLevelNames items :=
  Part.mem_free_scope

theorem mem_topLevelNames_append {xs ys : List Stmt} {n : Name} :
    n ∈ topLevelNames (xs ++ ys) ↔ n ∈ topLevelNames xs ∨ n ∈ topLevelNames ys := by
  rw [topLevelNames, partsOfStmts_append]
  exact Part.mem_declaredIn_append

/-- A module declares what its items declare. -/
theorem mem_topLevelNames {items : List Stmt} {n : Name} :
    n ∈ topLevelNames items ↔ ∃ s ∈ items, n ∈ topLevelNames [s] := by
  induction items with
  | nil => simp [topLevelNames, partsOfStmts, Part.declaredIn]
  | cons s items ih =>
    rw [← List.singleton_append, mem_topLevelNames_append, ih]
    simp

theorem mem_freeIn_partsOfStmts {items : List Stmt} {n : Name} :
    n ∈ Part.freeIn (partsOfStmts items) ↔ ∃ s ∈ items, n ∈ Part.freeIn s.parts := by
  rw [partsOfStmts_eq, Part.freeIn_eq, List.flatMap_assoc, List.mem_flatMap]
  simp only [Part.freeIn_eq]

namespace Part

/-- Outlines that differ in the order of what stands in a scope, at any depth. -/
inductive Reordered : List Part → List Part → Prop where
  | perm {ps qs : List Part} (h : ps.Perm qs) : Reordered ps qs
  | beside (before after : List Part) {ps qs : List Part} (h : Reordered ps qs) :
    Reordered (before ++ (ps ++ after)) (before ++ (qs ++ after))
  | within (ofFunction : Bool) {ps qs : List Part} (h : Reordered ps qs) :
    Reordered [scope ofFunction ps] [scope ofFunction qs]
  | trans {ps qs rs : List Part} (h : Reordered ps qs) (h' : Reordered qs rs) : Reordered ps rs

namespace Reordered

/-- What an outline declares, lets out and refers to does not depend on the order in it. -/
theorem same {ps qs : List Part} (h : Reordered ps qs) (n : Name) :
    (.declare n ∈ ps ↔ .declare n ∈ qs) ∧ (n ∈ hoistedIn ps ↔ n ∈ hoistedIn qs) ∧
      (n ∈ freeIn ps ↔ n ∈ freeIn qs) := by
  induction h with
  | perm h =>
    rw [hoistedIn_eq, hoistedIn_eq, freeIn_eq, freeIn_eq]
    exact ⟨h.mem_iff, (h.flatMap_right _).mem_iff, (h.flatMap_right _).mem_iff⟩
  | beside before after h ih =>
    obtain ⟨hdeclare, hhoist, hfree⟩ := ih
    simp only [List.mem_append, hoistedIn_append, freeIn_append, hdeclare, hhoist, hfree, and_self]
  | within ofFunction h ih =>
    obtain ⟨hdeclare, hhoist, hfree⟩ := ih
    have hdeclared := (@mem_declaredIn ofFunction _ n).trans
      ((or_congr hdeclare (and_congr_right' hhoist)).trans mem_declaredIn.symm)
    refine ⟨by simp, ?_, ?_⟩
    · cases ofFunction with
      | true => simp [hoisted]
      | false => simpa [hoisted] using hhoist
    · simp only [freeIn_cons, freeIn_nil, List.append_nil, mem_free_scope]
      exact and_congr hfree (not_congr hdeclared)
  | trans h h' ih ih' =>
    exact ⟨ih.1.trans ih'.1, ih.2.1.trans ih'.2.1, ih.2.2.trans ih'.2.2⟩

end Reordered

end Part

theorem partsOfStmts_reordered {xs ys : List Stmt} (h : xs.Perm ys) :
    Part.Reordered (partsOfStmts xs) (partsOfStmts ys) := by
  rw [partsOfStmts_eq, partsOfStmts_eq]
  exact .perm (h.flatMap_right _)

/-- The free names of a module do not depend on where in its scopes its parts stand. -/
theorem mem_globals_congr {xs ys : List Stmt}
    (h : Part.Reordered (partsOfStmts xs) (partsOfStmts ys)) {n : Name} :
    n ∈ globals xs ↔ n ∈ globals ys := by
  obtain ⟨hdeclare, hhoist, hfree⟩ := h.same n
  rw [mem_globals, mem_globals, topLevelNames, topLevelNames, Part.mem_declaredIn,
    Part.mem_declaredIn, hdeclare, hhoist, hfree]

theorem ok_of_toOption {ε α : Type} {result : Except ε α} {a : α} (h : result.toOption = some a) :
    result = .ok a := by
  cases result with
  | error e => cases h
  | ok b => rw [Option.some.inj h]

end ComponentBuild.Script
