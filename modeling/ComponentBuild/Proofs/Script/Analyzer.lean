import ComponentBuild.Script.Analyzer
import ComponentBuild.Proofs.Script.Outline

namespace ComponentBuild.Script

namespace Scope

/-- What a scope keeps from the time it is entered. -/
def link (scope : Scope) : Option Nat × Bool := (scope.parent?, scope.ofFunction)

def links (scopes : List Scope) : List (Option Nat × Bool) := scopes.map link

theorem length_links (scopes : List Scope) : (links scopes).length = scopes.length :=
  List.length_map _

theorem links_append (scopes more : List Scope) :
    links (scopes ++ more) = links scopes ++ links more := List.map_append

theorem parent?_eq_links (scopes : List Scope) (id : Nat) :
    scopes[id]?.bind parent? = (links scopes)[id]?.bind Prod.fst := by
  rw [links, List.getElem?_map, Option.bind_map]
  rfl

theorem ofFunction_eq_links (scopes : List Scope) (id : Nat) :
    scopes[id]?.map ofFunction = (links scopes)[id]?.map Prod.snd := by
  rw [links, List.getElem?_map, Option.map_map]
  rfl

section Prefix

variable {scopes more : List Scope} (h : links scopes <+: links more) {id : Nat}
  (hid : id < scopes.length)

include h

theorem length_le_of_links : scopes.length ≤ more.length := by
  simpa only [length_links] using h.length_le

include hid

theorem getElem?_links : (links more)[id]? = (links scopes)[id]? := by
  have hlinks : id < (links scopes).length := (length_links scopes).symm ▸ hid
  obtain ⟨rest, hrest⟩ := h
  rw [← hrest, List.getElem?_append_left hlinks]

theorem above?_of_links : above? more id = above? scopes id := by
  unfold above?
  rw [parent?_eq_links, parent?_eq_links, getElem?_links h hid]

/-- The scope of the function around a scope is settled when the scope is entered. -/
theorem home_of_links : home more id = home scopes id := by
  induction id using Nat.strongRecOn with
  | _ id ih =>
    rw [home, home, ofFunction_eq_links, ofFunction_eq_links, getElem?_links h hid,
      above?_of_links h hid]
    split
    next => rfl
    next =>
      split
      next parent _ => exact ih parent.1 parent.2 (by omega)
      next => rfl

end Prefix

theorem home_le (scopes : List Scope) (id : Nat) : home scopes id ≤ id := by
  induction id using Nat.strongRecOn with
  | _ id ih =>
    rw [home]
    split
    next => exact Nat.le_refl id
    next =>
      split
      next parent _ => exact Nat.le_of_lt (Nat.lt_of_le_of_lt (ih parent.1 parent.2) parent.2)
      next => exact Nat.le_refl id

theorem above?_of_parent {scopes : List Scope} {id parent : Nat} (hid : parent < id)
    (h : scopes[id]?.bind parent? = some parent) : above? scopes id = some ⟨parent, hid⟩ := by
  rw [above?, h, Option.bind_some, dif_pos hid]

theorem resolves_of_parent {scopes : List Scope} {id parent : Nat} (hid : parent < id)
    (h : scopes[id]?.bind parent? = some parent) (n : Name) :
    resolves scopes n id = ((namesOf scopes id).contains n || resolves scopes n parent) := by
  rw [resolves, above?_of_parent hid h]

theorem resolves_of_no_parent {scopes : List Scope} {id : Nat}
    (h : scopes[id]?.bind parent? = none) (n : Name) :
    resolves scopes n id = (namesOf scopes id).contains n := by
  rw [resolves, above?, h, Option.bind_none, Bool.or_false]

theorem unresolved_append (scopes : List Scope) (rs rs' : List (Name × Nat)) :
    unresolved scopes (rs ++ rs') = unresolved scopes rs ++ unresolved scopes rs' := by
  rw [unresolved, List.filter_append, List.map_append]
  rfl

section Adding

variable (scopes : List Scope) (id : Nat) (n : Name)

theorem links_addName : links (addName scopes id n) = links scopes := by
  apply List.ext_getElem?
  intro i
  rw [links, links, addName, List.getElem?_map, List.getElem?_map, List.getElem?_modify]
  cases scopes[i]? with
  | none => rfl
  | some scope =>
    by_cases h : id = i
    · simp [h, link]
    · simp [h]

theorem getElem?_addName_ne {i : Nat} (h : i ≠ id) : (addName scopes id n)[i]? = scopes[i]? := by
  rw [addName, List.getElem?_modify]
  simp [Ne.symm h]

theorem mem_namesOf_addName (hid : id < scopes.length) (i : Nat) (m : Name) :
    m ∈ namesOf (addName scopes id n) i ↔ m ∈ namesOf scopes i ∨ i = id ∧ m = n := by
  by_cases h : i = id
  · subst h
    simp [namesOf, addName, List.getElem?_eq_getElem hid, or_comm]
  · simp [namesOf, getElem?_addName_ne scopes id n h, h]

end Adding

end Scope

open Scope (links namesOf home resolves unresolved addName)

namespace Analyzer

open Script.Part (hoistedIn freeIn declaredIn mem_declaredIn)

/-- Scopes of a later time, when nothing is added any more to those entered from a number on. -/
structure Later (first : Nat) (scopes later : List Scope) : Prop where
  linked : links scopes <+: links later
  closed : ∀ id, first ≤ id → id < scopes.length → later[id]? = scopes[id]?

/-- What a walk through parts does to an analyzer. -/
structure Visited (parts : List Part) (a b : Analyzer) : Prop where
  current : b.current = a.current
  linked : links a.scopes <+: links b.scopes
  kept : ∀ id < a.scopes.length, id ≠ a.current → id ≠ home a.scopes a.current →
    b.scopes[id]? = a.scopes[id]?
  names : ∀ id < a.scopes.length, ∀ n, n ∈ namesOf b.scopes id ↔
    n ∈ namesOf a.scopes id ∨ id = a.current ∧ .declare n ∈ parts ∨
      id = home a.scopes a.current ∧ n ∈ hoistedIn parts
  references : ∃ noted, b.references = a.references ++ noted ∧
    ∀ later, Later a.scopes.length b.scopes later →
      unresolved later noted = (freeIn parts).filter fun n => !resolves later n a.current

/-- The scope that an analyzer is in is one of its own. -/
def Inside (a : Analyzer) : Prop := a.current < a.scopes.length

namespace Visited

theorem inside {parts : List Part} {a b : Analyzer} (h : Visited parts a b) (ha : a.Inside) :
    b.Inside := by
  have hlength := Scope.length_le_of_links h.linked
  rw [Inside, h.current]
  exact Nat.lt_of_lt_of_le ha hlength

theorem home_lt {a : Analyzer} (ha : a.Inside) : home a.scopes a.current < a.scopes.length :=
  Nat.lt_of_le_of_lt (Scope.home_le a.scopes a.current) ha

theorem nil (a : Analyzer) : Visited [] a a where
  current := rfl
  linked := List.prefix_rfl
  kept _ _ _ _ := rfl
  names id hid n := by simp
  references := ⟨[], by simp, fun _ _ => rfl⟩

theorem append {ps qs : List Part} {a b c : Analyzer} (ha : a.Inside) (h : Visited ps a b)
    (h' : Visited qs b c) : Visited (ps ++ qs) a c := by
  have hlength := Scope.length_le_of_links h.linked
  have hhome : home b.scopes a.current = home a.scopes a.current := Scope.home_of_links h.linked ha
  have hhomeLt := home_lt ha
  refine ⟨h'.current.trans h.current, h.linked.trans h'.linked, ?_, ?_, ?_⟩
  · intro id hid hcurrent hnotHome
    rw [h'.kept id (by omega) (by rwa [h.current]) (by rwa [h.current, hhome])]
    exact h.kept id hid hcurrent hnotHome
  · intro id hid n
    rw [h'.names id (by omega) n, h.names id hid n, h.current, hhome, Part.hoistedIn_append,
      List.mem_append, List.mem_append]
    tauto
  · obtain ⟨noted, hnoted, hfree⟩ := h.references
    obtain ⟨noted', hnoted', hfree'⟩ := h'.references
    refine ⟨noted ++ noted', by rw [hnoted', hnoted, List.append_assoc], ?_⟩
    intro later hlater
    have hsecond : Later b.scopes.length c.scopes later :=
      ⟨hlater.linked, fun id hid hlt => hlater.closed id (by omega) hlt⟩
    -- The second walk goes on in the scope of the first, so it leaves alone what the first entered.
    have hfirst : Later a.scopes.length b.scopes later := by
      refine ⟨h'.linked.trans hlater.linked, fun id hid hlt => ?_⟩
      have hlt' := Scope.length_le_of_links h'.linked
      rw [hlater.closed id hid (by omega)]
      refine h'.kept id hlt ?_ ?_
      · rw [h.current]
        have : a.current < a.scopes.length := ha
        omega
      · rw [h.current, hhome]
        omega
    rw [Scope.unresolved_append, hfree later hfirst, hfree' later hsecond, h.current,
      Part.freeIn_append, List.filter_append]

theorem ofReference (n : Name) (a : Analyzer) : Visited [.reference n] a (a.reference n) where
  current := rfl
  linked := List.prefix_rfl
  kept _ _ _ _ := rfl
  names id hid m := by simp [reference, Part.hoisted]
  references := by
    refine ⟨[(n, a.current)], rfl, fun later _ => ?_⟩
    cases h : resolves later n a.current with
    | true => simp [unresolved, Part.free, h]
    | false => simp [unresolved, Part.free, h]

theorem ofDeclare (n : Name) {a : Analyzer} (ha : a.Inside) :
    Visited [.declare n] a (a.declare n) where
  current := rfl
  linked := by
    simp only [declare, Scope.links_addName, List.prefix_rfl]
  kept id _ hcurrent _ := Scope.getElem?_addName_ne a.scopes a.current n hcurrent
  names id hid m := by
    rw [declare, Scope.mem_namesOf_addName a.scopes a.current n ha]
    simp [Part.hoisted]
  references := ⟨[], by simp [declare], fun _ _ => rfl⟩

theorem ofHoist (n : Name) {a : Analyzer} (ha : a.Inside) : Visited [.hoist n] a (a.hoist n) where
  current := rfl
  linked := by
    simp only [hoist, Scope.links_addName, List.prefix_rfl]
  kept id _ _ hhome := Scope.getElem?_addName_ne a.scopes _ n hhome
  names id hid m := by
    rw [hoist, Scope.mem_namesOf_addName a.scopes _ n (home_lt ha)]
    simp [Part.hoisted]
  references := ⟨[], by simp [hoist], fun _ _ => rfl⟩

section Entered

variable (ofFunction : Bool) {parts : List Part} {a b : Analyzer} (ha : a.Inside)

theorem links_enter : links (a.enter ofFunction).scopes =
    links a.scopes ++ [(some a.current, ofFunction)] := Scope.links_append _ _

theorem linked_enter : links a.scopes <+: links (a.enter ofFunction).scopes := by
  rw [links_enter]
  exact List.prefix_append _ _

theorem inside_enter : (a.enter ofFunction).Inside := by
  simp [Inside, enter]

theorem home_enter (ha : a.Inside) : home (a.enter ofFunction).scopes a.scopes.length =
    if ofFunction then a.scopes.length else home a.scopes a.current := by
  have hscope : (a.enter ofFunction).scopes[a.scopes.length]? =
      some ⟨some a.current, ofFunction, []⟩ := List.getElem?_concat_length
  rw [home, hscope, Option.map_some, Option.getD_some]
  cases ofFunction with
  | true => rfl
  | false =>
    have habove := Scope.above?_of_parent ha
      (show (a.enter false).scopes[a.scopes.length]?.bind Scope.parent? = some a.current by
        rw [hscope, Option.bind_some])
    rw [if_neg Bool.false_ne_true, habove, if_neg Bool.false_ne_true]
    exact Scope.home_of_links (linked_enter false) ha

theorem parent_of_entered (h : Visited parts (a.enter ofFunction) b) {later : List Scope}
    (hlater : links b.scopes <+: links later) :
    later[a.scopes.length]?.bind Scope.parent? = some a.current := by
  have hlt : a.scopes.length < (a.enter ofFunction).scopes.length := by
    simp [enter]
  rw [Scope.parent?_eq_links, Scope.getElem?_links (h.linked.trans hlater) hlt, links_enter,
    ← Scope.length_links, List.getElem?_concat_length]
  rfl

theorem exit_of_entered (h : Visited parts (a.enter ofFunction) b) :
    b.exit = { b with current := a.current } := by
  rw [exit, h.current, show (a.enter ofFunction).current = a.scopes.length from rfl,
    parent_of_entered ofFunction h List.prefix_rfl]

/-- The scope that is entered gets the names that its parts declare in it. -/
theorem names_of_entered (ha : a.Inside) (h : Visited parts (a.enter ofFunction) b) (n : Name) :
    n ∈ namesOf b.scopes a.scopes.length ↔ n ∈ declaredIn ofFunction parts := by
  have hnone : n ∉ namesOf (a.enter ofFunction).scopes a.scopes.length := by
    simp [namesOf, enter]
  have hlt := home_lt ha
  have hcurrent : (a.enter ofFunction).current = a.scopes.length := rfl
  rw [h.names a.scopes.length (by simp [enter]) n, mem_declaredIn, hcurrent,
    home_enter ofFunction ha]
  cases ofFunction with
  | true => simp [hnone]
  | false =>
    simp only [hnone, false_or, true_and, Bool.false_eq_true, if_false, false_and, or_false]
    exact or_iff_left fun hn => absurd hn.1 (by omega)

theorem ofScope (ha : a.Inside) (h : Visited parts (a.enter ofFunction) b) :
    Visited [.scope ofFunction parts] a b.exit := by
  have hlength : (a.enter ofFunction).scopes.length = a.scopes.length + 1 := by simp [enter]
  have hcurrent : (a.enter ofFunction).current = a.scopes.length := rfl
  have hold (id : Nat) (hid : id < a.scopes.length) :
      (a.enter ofFunction).scopes[id]? = a.scopes[id]? := List.getElem?_append_left hid
  rw [exit_of_entered ofFunction h]
  refine ⟨rfl, (linked_enter ofFunction).trans h.linked, ?_, ?_, ?_⟩
  · intro id hid _ hhome
    rw [h.kept id (by omega) (by omega) ?_]
    · exact hold id hid
    · rw [hcurrent, home_enter ofFunction ha]
      split
      next => omega
      next => exact hhome
  · intro id hid n
    rw [h.names id (by omega) n, namesOf, hold id hid, hcurrent, home_enter ofFunction ha]
    have hne : id ≠ a.scopes.length := by omega
    cases ofFunction with
    | true => simp [hne, namesOf, Part.hoisted]
    | false => simp [hne, namesOf, Part.hoisted]
  · obtain ⟨noted, hnoted, hfree⟩ := h.references
    refine ⟨noted, hnoted, fun later hlater => ?_⟩
    have hinner : Later (a.enter ofFunction).scopes.length b.scopes later :=
      ⟨hlater.linked, fun id hid hlt => hlater.closed id (by omega) hlt⟩
    have hresolves (n : Name) : resolves later n a.scopes.length =
        ((declaredIn ofFunction parts).contains n || resolves later n a.current) := by
      have hlength' := Scope.length_le_of_links h.linked
      have hlt : a.scopes.length < b.scopes.length := by omega
      have hnames : namesOf later a.scopes.length = namesOf b.scopes a.scopes.length := by
        rw [namesOf, hlater.closed a.scopes.length (Nat.le_refl _) hlt]
        rfl
      rw [Scope.resolves_of_parent ha (parent_of_entered ofFunction h hlater.linked), hnames]
      congr 1
      rw [Bool.eq_iff_iff, List.contains_iff_mem, List.contains_iff_mem]
      exact names_of_entered ofFunction ha h n
    rw [hfree later hinner, Part.freeIn_cons, Part.freeIn_nil, List.append_nil, Part.free,
      List.filter_filter]
    refine List.filter_congr fun n _ => ?_
    rw [hcurrent, hresolves n, Bool.not_or, Bool.and_comm]

end Entered

end Visited

mutual

theorem visit_visited : ∀ (part : Part) (a : Analyzer), a.Inside → Visited [part] a (visit part a)
  | .reference n, a, _ => Visited.ofReference n a
  | .declare n, _, ha => Visited.ofDeclare n ha
  | .hoist n, _, ha => Visited.ofHoist n ha
  | .scope ofFunction parts, a, ha =>
    Visited.ofScope ofFunction ha
      (visitAll_visited parts (a.enter ofFunction) (Visited.inside_enter ofFunction))

theorem visitAll_visited : ∀ (parts : List Part) (a : Analyzer), a.Inside →
    Visited parts a (visitAll parts a)
  | [], a, _ => Visited.nil a
  | part :: parts, a, ha =>
    have hfirst := visit_visited part a ha
    hfirst.append ha (visitAll_visited parts (visit part a) (hfirst.inside ha))

end

theorem walk_visited (items : List Stmt) : Visited (partsOfStmts items) start (walk items) := by
  have hrun (items : List Stmt) (a : Analyzer) (ha : a.Inside) :
      Visited (partsOfStmts items) a (items.foldl (fun a s => visitAll s.parts a) a) := by
    induction items generalizing a with
    | nil => exact Visited.nil a
    | cons s items ih =>
      have hfirst := visitAll_visited s.parts a ha
      exact hfirst.append ha (ih _ (hfirst.inside ha))
  exact hrun items start Nat.zero_lt_one

/-- The names that the walk has declared in the scope of the module. -/
def moduleNames (items : List Stmt) : List Name := namesOf (walk items).scopes 0

theorem mem_moduleNames {items : List Stmt} {n : Name} :
    n ∈ moduleNames items ↔ n ∈ topLevelNames items := by
  have hhome : home start.scopes start.current = 0 := Nat.le_zero.1 (Scope.home_le _ _)
  rw [moduleNames, (walk_visited items).names 0 Nat.zero_lt_one n, hhome, topLevelNames,
    mem_declaredIn]
  simp [start, namesOf]

end Analyzer

theorem analyze_eq (items : List Stmt) : analyze items = globals items := by
  obtain ⟨noted, hnoted, hfree⟩ := (Analyzer.walk_visited items).references
  have hlinks := (Analyzer.walk_visited items).linked
  have hlater : Analyzer.Later Analyzer.start.scopes.length (Analyzer.walk items).scopes
      (Analyzer.walk items).scopes := ⟨List.prefix_rfl, fun _ _ _ => rfl⟩
  have hroot : (Analyzer.walk items).scopes[0]?.bind Scope.parent? = none := by
    rw [Scope.parent?_eq_links, Scope.getElem?_links hlinks Nat.zero_lt_one]
    rfl
  rw [analyze, Analyzer.globals, hnoted, show Analyzer.start.references = [] from rfl,
    List.nil_append, hfree _ hlater, globals, Part.free]
  refine List.filter_congr fun n _ => ?_
  rw [show Analyzer.start.current = 0 from rfl, Scope.resolves_of_no_parent hroot]
  congr 1
  rw [Bool.eq_iff_iff, List.contains_iff_mem, List.contains_iff_mem]
  exact Analyzer.mem_moduleNames

/-- The walk finds the names that are free in the outline, and leaves every item in the scope in
which it began it. What it finds in two lists of items is what it finds in each, without the names
that the other declares in the scope of the module. So neither the order of the items nor, in any
scope, that of uses and declarations is of account. The scope of the module is the walk's and not
the language's: the name of a function that is the default export is not declared in it, and the
declarations in the cases of a `switch` are. -/
theorem analyze_of_any_order :
    (∀ items, analyze items = globals items ∧
      ∀ n, n ∈ Analyzer.moduleNames items ↔ n ∈ topLevelNames items) ∧
    (∀ xs ys n, n ∈ analyze (xs ++ ys) ↔
      n ∈ analyze xs ∧ n ∉ Analyzer.moduleNames ys ∨
        n ∈ analyze ys ∧ n ∉ Analyzer.moduleNames xs) ∧
    (∀ xs ys, xs.Perm ys → ∀ n, n ∈ analyze xs ↔ n ∈ analyze ys) ∧
    (∀ xs ys, Part.Reordered (partsOfStmts xs) (partsOfStmts ys) →
      ∀ n, n ∈ analyze xs ↔ n ∈ analyze ys) ∧
    (∀ (items : List Stmt) (s : Stmt), (Analyzer.walk items).current = 0 ∧
      (Analyzer.visitAll s.parts (Analyzer.walk items)).current = 0) ∧
    (∀ (s : Stmt) (a : Analyzer), a.Inside →
      (Analyzer.visitAll s.parts a).current = a.current) := by
  have hreordered (xs ys : List Stmt) (h : Part.Reordered (partsOfStmts xs) (partsOfStmts ys))
      (n : Name) : n ∈ analyze xs ↔ n ∈ analyze ys := by
    rw [analyze_eq, analyze_eq]
    exact mem_globals_congr h
  have hcurrent (s : Stmt) (a : Analyzer) (ha : a.Inside) :
      (Analyzer.visitAll s.parts a).current = a.current :=
    (Analyzer.visitAll_visited s.parts a ha).current
  refine ⟨fun items => ⟨analyze_eq items, fun n => Analyzer.mem_moduleNames⟩, ?_, ?_, hreordered,
    ?_, hcurrent⟩
  · intro xs ys n
    rw [analyze_eq, analyze_eq, analyze_eq, Analyzer.mem_moduleNames, Analyzer.mem_moduleNames,
      mem_globals, mem_globals, mem_globals, mem_topLevelNames_append, partsOfStmts_append,
      Part.freeIn_append, List.mem_append]
    tauto
  · exact fun xs ys h => hreordered xs ys (partsOfStmts_reordered h)
  · intro items s
    have hwalk := Analyzer.walk_visited items
    have hstart : (Analyzer.walk items).current = 0 := hwalk.current
    exact ⟨hstart, (hcurrent s _ (hwalk.inside Nat.zero_lt_one)).trans hstart⟩

/-- A use in front of its declaration, at the top of a module and in a function. -/
theorem analyze_of_use_before_declaration :
    let use := Stmt.expr (.name 4 ['x'])
    let declaration := Stmt.variables .lexical [.mk (.name 0 ['x']) none]
    let f (body : List Stmt) := Stmt.function ['f'] (.mk [] (.block body))
    [use, declaration].Perm [declaration, use] ∧
      Part.Reordered (partsOfStmts [f [use, declaration]]) (partsOfStmts [f [declaration, use]]) ∧
      Analyzer.start.Inside ∧
      ['x'] ∉ analyze [use, declaration] ∧ ['x'] ∉ analyze [f [use, declaration]] ∧
      (Analyzer.visitAll (f [use, declaration]).parts .start).current = 0 := by
  intro use declaration f
  obtain ⟨heq, -, hperm, hreordered, -, hcurrent⟩ := analyze_of_any_order
  have hlist : [use, declaration].Perm [declaration, use] := .swap _ _ _
  have hbody : Part.Reordered [.scope false (partsOfStmts [use, declaration])]
      [.scope false (partsOfStmts [declaration, use])] :=
    .within false (partsOfStmts_reordered hlist)
  have hfunction : Part.Reordered (partsOfStmts [f [use, declaration]])
      (partsOfStmts [f [declaration, use]]) := .beside [.declare ['f']] [] (.within true hbody)
  refine ⟨hlist, hfunction, Nat.zero_lt_one, ?_, ?_, hcurrent _ _ Nat.zero_lt_one⟩
  · rw [hperm _ _ hlist, (heq _).1]
    decide
  · rw [hreordered _ _ hfunction, (heq _).1]
    decide

end ComponentBuild.Script
