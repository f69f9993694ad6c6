import ComponentBuild.Proofs.Script.Declared
import ComponentBuild.Proofs.Script.Restore

namespace ComponentBuild.Script.Reactive

open Script.Part (freeIn hoistedIn declaredIn mem_declaredIn mem_free_scope)

/-- The outline of items of which those that are blocks have their bodies in functions, each in the
call of its tracker. -/
def movedParts (id : Nat) : List Stmt → List Script.Part
  | [] => []
  | s :: items =>
    if (reactive? s).isSome then
      .reference (tracker id).toList :: .scope true [.scope false s.parts] ::
        movedParts (id + 1) items
    else s.parts ++ movedParts id items

/-- The names that only the bodies of blocks may declare. -/
def blockNames (items : List Stmt) : List Name :=
  topLevelNames (items.filter fun s => (reactive? s).isSome)

/-- The items outside of blocks. -/
def outsideItems (items : List Stmt) : List Stmt := items.filter fun s => (reactive? s).isNone

def outsideNames (items : List Stmt) : List Name := topLevelNames (outsideItems items)

/-- The names that an item uses and does not bind itself, if the body of a block is a function. -/
def leavingNames (s : Stmt) : List Name :=
  if (reactive? s).isSome then globals [s] else freeIn s.parts

/-- The names that only bodies of blocks declare, and that are used outside of those that do. -/
def escapedNames (items : List Stmt) : List Name :=
  (items.flatMap leavingNames).filter fun n =>
    (blockNames items).contains n && !(outsideNames items).contains n

section Names

variable {items : List Stmt} {s : Stmt} {n : Name}

theorem mem_escapedNames :
    n ∈ escapedNames items ↔
      (∃ s ∈ items, n ∈ leavingNames s) ∧ n ∈ blockNames items ∧ n ∉ outsideNames items := by
  rw [escapedNames, List.mem_filter, List.mem_flatMap]
  simp

theorem mem_blockNames :
    n ∈ blockNames items ↔ ∃ s ∈ items, (reactive? s).isSome ∧ n ∈ topLevelNames [s] := by
  rw [blockNames, mem_topLevelNames]
  simp only [List.mem_filter, and_assoc]

theorem mem_outsideNames :
    n ∈ outsideNames items ↔ ∃ s ∈ items, (reactive? s).isNone ∧ n ∈ topLevelNames [s] := by
  rw [outsideNames, outsideItems, mem_topLevelNames]
  simp only [List.mem_filter, and_assoc]

theorem mem_topLevelNames_iff_block :
    n ∈ topLevelNames items ↔ n ∈ blockNames items ∨ n ∈ outsideNames items := by
  rw [mem_topLevelNames, mem_blockNames, mem_outsideNames, ← exists_or]
  refine exists_congr fun s => ?_
  cases reactive? s with
  | none => simp
  | some spans => simp

theorem mem_leavingNames :
    n ∈ leavingNames s ↔
      n ∈ freeIn s.parts ∧ ((reactive? s).isSome → n ∉ topLevelNames [s]) := by
  unfold leavingNames
  split
  next h => simp [mem_globals, partsOfStmts, h]
  next h => simp [h]

theorem mem_globals_iff_leaving :
    n ∈ globals items ↔
      (∃ s ∈ items, n ∈ leavingNames s) ∧ n ∉ blockNames items ∧ n ∉ outsideNames items := by
  rw [mem_globals, mem_freeIn_partsOfStmts, mem_topLevelNames_iff_block, not_or]
  refine and_congr_left fun ⟨hblock, _⟩ => exists_congr fun s => and_congr_right fun hs => ?_
  rw [mem_leavingNames]
  exact (and_iff_left fun hreactive hn => hblock (mem_blockNames.2 ⟨s, hs, hreactive, hn⟩)).symm

theorem not_mem_globals_of_escaped (h : n ∈ escapedNames items) : n ∉ globals items :=
  fun hglobal => (mem_globals_iff_leaving.1 hglobal).2.1 (mem_escapedNames.1 h).2.1

/-- What a body declares stays in its function. -/
theorem mem_declaredIn_movedParts {id : Nat} :
    n ∈ declaredIn true (movedParts id items) ↔ n ∈ outsideNames items := by
  rw [mem_outsideNames]
  induction items generalizing id with
  | nil => simp [movedParts, declaredIn]
  | cons s items ih =>
    rw [movedParts, List.exists_mem_cons_iff]
    cases hreactive : reactive? s with
    | some spans =>
      rw [← @ih (id + 1)]
      simp [mem_declaredIn, Script.Part.hoisted]
    | none =>
      simp only [Option.isSome_none, Bool.false_eq_true, if_false, Option.isNone_none, true_and,
        Script.Part.mem_declaredIn_append, ih]
      simp [topLevelNames, partsOfStmts]

theorem mem_free_body (h : (reactive? s).isSome) :
    n ∈ (Script.Part.scope true [.scope false s.parts]).free ↔ n ∈ leavingNames s := by
  rw [mem_leavingNames, mem_free_scope, mem_declaredIn]
  simp only [Script.Part.freeIn_cons, Script.Part.freeIn_nil, List.append_nil, mem_free_scope,
    mem_declaredIn, Script.Part.hoistedIn_cons, Script.Part.hoistedIn_nil, topLevelNames,
    partsOfStmts, Script.Part.hoisted, h, List.mem_singleton]
  simp [and_assoc]

/-- Of moved items a name is free where it leaves one of them. -/
theorem mem_freeIn_movedParts {id : Nat}
    (hn : ∀ i < (items.filterMap reactive?).length, n ≠ (tracker (id + i)).toList) :
    n ∈ freeIn (movedParts id items) ↔ ∃ s ∈ items, n ∈ leavingNames s := by
  induction items generalizing id with
  | nil => simp [movedParts]
  | cons s items ih =>
    rw [movedParts, List.exists_mem_cons_iff]
    cases hreactive : reactive? s with
    | some spans =>
      rw [List.filterMap_cons_some hreactive, List.length_cons] at hn
      have hfirst : n ≠ (tracker id).toList := hn 0 (Nat.succ_pos _)
      have hrest := @ih (id + 1) fun i hi => by
        rw [Nat.add_right_comm]
        exact hn (i + 1) (Nat.succ_lt_succ hi)
      have hbody := mem_free_body (n := n) (hreactive ▸ rfl : (reactive? s).isSome)
      simp only [Option.isSome_some, if_true, Script.Part.freeIn_cons, List.mem_append, hrest,
        hbody]
      simp [Script.Part.free, hfirst]
    | none =>
      rw [List.filterMap_cons_none hreactive] at hn
      have hleaving : leavingNames s = freeIn s.parts := by
        rw [leavingNames, hreactive]
        rfl
      simp only [Option.isSome_none, Bool.false_eq_true, if_false, Script.Part.freeIn_append,
        List.mem_append, ih hn, hleaving]

theorem boundNames_outsideItems_subset : boundNames (outsideItems items) ⊆ boundNames items := by
  intro n h
  rw [boundNames, lexicalNamesOf, varNamesOf_eq, List.mem_append, List.mem_flatMap,
    List.mem_flatMap] at h ⊢
  rcases h with ⟨s, hs, hn⟩ | ⟨s, hs, hn⟩
  · exact .inl ⟨s, List.mem_of_mem_filter hs, hn⟩
  · exact .inr ⟨s, List.mem_of_mem_filter hs, hn⟩

end Names

/-- Items that mean for names what others mean of which the bodies of blocks were moved, behind the
declaration of some names. -/
structure IsMoved (injected : List Name) (items moved : List Stmt) : Prop where
  parts : partsOfStmts moved = injected.map .declare ++ movedParts 0 items
  bound : boundNames moved = injected ++ boundNames (outsideItems items)

instance (injected : List Name) (items moved : List Stmt) :
    Decidable (IsMoved injected items moved) :=
  decidable_of_iff (partsOfStmts moved = injected.map .declare ++ movedParts 0 items ∧
      boundNames moved = injected ++ boundNames (outsideItems items))
    ⟨fun ⟨hparts, hbound⟩ => ⟨hparts, hbound⟩, fun ⟨hparts, hbound⟩ => ⟨hparts, hbound⟩⟩

/-- Where bodies are moved, the names get free that only they declare and others use. -/
theorem mem_globals_of_isMoved {injected : List Name} {items moved : List Stmt} {n : Name}
    (h : IsMoved injected items moved)
    (hn : ∀ id < (items.filterMap reactive?).length, n ≠ (tracker id).toList) :
    n ∈ globals moved ↔ n ∉ injected ∧ (n ∈ globals items ∨ n ∈ escapedNames items) := by
  have hfree : n ∈ freeIn (partsOfStmts moved) ↔ ∃ s ∈ items, n ∈ leavingNames s := by
    rw [h.parts, Script.Part.freeIn_append, Script.Part.freeIn_map fun _ => rfl, List.nil_append]
    refine mem_freeIn_movedParts fun id hid => ?_
    rw [Nat.zero_add]
    exact hn id hid
  have hdeclared : n ∈ topLevelNames moved ↔ n ∈ injected ∨ n ∈ outsideNames items := by
    rw [topLevelNames, h.parts, Script.Part.mem_declaredIn_append, mem_declaredIn_movedParts,
      mem_declaredIn, Script.Part.hoistedIn_map fun _ => rfl]
    simp
  rw [mem_globals, hfree, hdeclared, mem_globals_iff_leaving, mem_escapedNames]
  by_cases hblock : n ∈ blockNames items
  · simpa [hblock] using and_left_comm
  · simpa [hblock] using and_left_comm

end ComponentBuild.Script.Reactive
