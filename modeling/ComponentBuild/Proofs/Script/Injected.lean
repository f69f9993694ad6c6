import ComponentBuild.Proofs.Lists
import ComponentBuild.Proofs.Script.Declared
import ComponentBuild.Proofs.Script.Outline
import ComponentBuild.Proofs.Script.Restore
import Mathlib

namespace ComponentBuild.Script

/-- The variable that an expression is, whatever parentheses and types are around it. -/
def Expr.variable? : Expr → Option Name
  | .name _ n => some n
  | .paren _ e => e.variable?
  | .cast _ _ e => e.variable?
  | _ => none

mutual

/-- A pattern assigns a variable. Whether it does so too where the variable has something around it
is told by `wrapped`: it does in the language. -/
inductive Pattern.Assigns (wrapped : Prop) (n : Name) : Pattern → Prop where
  | name (start : Nat) : Pattern.Assigns wrapped n (.name start n)
  | target {e : Expr} (hwrapped : wrapped) (h : e.variable? = some n) :
    Pattern.Assigns wrapped n (.target e)
  | element (start : Nat) {elements : List Pattern} {element : Pattern}
    (hmem : element ∈ elements) (h : Pattern.Assigns wrapped n element) :
    Pattern.Assigns wrapped n (.array start elements)
  | property (start : Nat) {properties : List PatternProperty} {property : PatternProperty}
    (hmem : property ∈ properties) (h : PatternProperty.Assigns wrapped n property) :
    Pattern.Assigns wrapped n (.object start properties)
  | withDefault (start : Nat) {left : Pattern} (value : Expr)
    (h : Pattern.Assigns wrapped n left) : Pattern.Assigns wrapped n (.withDefault start left value)
  | rest (start : Nat) {inner : Pattern} (h : Pattern.Assigns wrapped n inner) :
    Pattern.Assigns wrapped n (.rest start inner)

inductive PatternProperty.Assigns (wrapped : Prop) (n : Name) : PatternProperty → Prop where
  | value (key : Key) {value : Pattern} (h : Pattern.Assigns wrapped n value) :
    PatternProperty.Assigns wrapped n (.keyValue key value)
  | shorthand (start : Nat) (value? : Option Expr) :
    PatternProperty.Assigns wrapped n (.shorthand start n value?)
  | rest (start : Nat) {inner : Pattern} (h : Pattern.Assigns wrapped n inner) :
    PatternProperty.Assigns wrapped n (.rest start inner)

end

theorem Expr.parts_withoutParens (e : Expr) : e.withoutParens.parts = e.parts := by
  fun_induction Expr.withoutParens e with
  | case1 _ e ih => exact ih
  | case2 => rfl

section Trees

variable {n : Name}

mutual

/-- The names of a pattern are those of the variables that it assigns without anything around. -/
theorem Pattern.mem_names_iff : ∀ pattern : Pattern, n ∈ pattern.names ↔ pattern.Assigns False n
  | .name _ _ =>
    ⟨fun h => List.mem_singleton.1 h ▸ .name _, fun | .name _ => List.mem_singleton_self _⟩
  | .hole => ⟨fun h => (List.not_mem_nil h).elim, nofun⟩
  | .invalid _ => ⟨fun h => (List.not_mem_nil h).elim, nofun⟩
  | .target _ => ⟨fun h => (List.not_mem_nil h).elim, fun | .target hfalse _ => hfalse.elim⟩
  | .array _ elements =>
    (mem_namesOfElements_iff elements).trans
      ⟨fun ⟨_, hmem, h⟩ => .element _ hmem h, fun | .element _ hmem h => ⟨_, hmem, h⟩⟩
  | .object _ properties =>
    (mem_namesOfProperties_iff properties).trans
      ⟨fun ⟨_, hmem, h⟩ => .property _ hmem h, fun | .property _ hmem h => ⟨_, hmem, h⟩⟩
  | .withDefault _ left value =>
    left.mem_names_iff.trans ⟨.withDefault _ value, fun | .withDefault _ _ h => h⟩
  | .rest _ inner => inner.mem_names_iff.trans ⟨.rest _, fun | .rest _ h => h⟩

theorem mem_namesOfElements_iff : ∀ elements : List Pattern,
    n ∈ namesOfElements elements ↔ ∃ element ∈ elements, element.Assigns False n
  | [] => by simp [namesOfElements]
  | element :: elements => by
    rw [namesOfElements, List.mem_append, element.mem_names_iff,
      mem_namesOfElements_iff elements, List.exists_mem_cons_iff]

theorem mem_namesOfProperties_iff : ∀ properties : List PatternProperty,
    n ∈ namesOfProperties properties ↔ ∃ property ∈ properties, property.Assigns False n
  | [] => by simp [namesOfProperties]
  | property :: properties => by
    rw [namesOfProperties, List.mem_append, mem_namesOfProperty_iff property,
      mem_namesOfProperties_iff properties, List.exists_mem_cons_iff]

theorem mem_namesOfProperty_iff : ∀ property : PatternProperty,
    n ∈ namesOfProperty property ↔ property.Assigns False n
  | .keyValue key value => value.mem_names_iff.trans ⟨.value key, fun | .value _ h => h⟩
  | .shorthand _ _ _ =>
    ⟨fun h => List.mem_singleton.1 h ▸ .shorthand _ _,
      fun | .shorthand _ _ => List.mem_singleton_self _⟩
  | .rest _ inner => inner.mem_names_iff.trans ⟨.rest _, fun | .rest _ h => h⟩

end

end Trees

namespace Reactive

/-- A statement that is one assignment assigns a variable. -/
def AssignsIn (wrapped : Prop) (n : Name) (s : Stmt) : Prop :=
  ∃ e start plain target value, s = .expr e ∧
    e.withoutParens = .assign start plain target value ∧ target.Assigns wrapped n

/-- Some reactive statement of a script assigns a variable. -/
def Assigned (wrapped : Prop) (items : List Stmt) (n : Name) : Prop :=
  ∃ statement body inner, .labeled statement body label inner ∈ items ∧ AssignsIn wrapped n inner

/-- The names that reactive statements assign, in the order in which they are found. -/
def assignments (items : List Stmt) : List Name :=
  (statements items).flatMap fun (_, _, names) => names

variable {n : Name} {items : List Stmt}

theorem mem_assignedNames_iff {s : Stmt} : n ∈ assignedNames s ↔ AssignsIn False n s := by
  unfold assignedNames
  constructor
  · intro h
    split at h
    next e =>
      split at h
      next start plain target value he =>
        exact ⟨e, start, plain, target, value, rfl, he, target.mem_names_iff.1 h⟩
      next => cases h
    next => cases h
  · rintro ⟨e, start, plain, target, value, rfl, he, h⟩
    simp only [he]
    exact target.mem_names_iff.2 h

theorem mem_assignments_iff : n ∈ assignments items ↔ Assigned False items n := by
  simp only [assignments, statements, List.mem_flatMap, List.mem_filterMap, Assigned,
    ← mem_assignedNames_iff]
  constructor
  · rintro ⟨_, ⟨s, hs, hfound⟩, hn⟩
    split at hfound
    next statement body m inner =>
      split at hfound
      next hlabel =>
        cases hfound
        exact ⟨statement, body, inner, hlabel ▸ hs, hn⟩
      next => cases hfound
    next => cases hfound
  · rintro ⟨statement, body, inner, hs, hn⟩
    exact ⟨_, ⟨_, hs, if_pos rfl⟩, hn⟩

/-- What is assigned is used where it is assigned, and no scope in the statement binds it. -/
theorem mem_freeIn_of_assigned {s : Stmt} (h : n ∈ assignedNames s) :
    n ∈ Script.Part.freeIn s.parts := by
  unfold assignedNames at h
  split at h
  next e =>
    split at h
    next start plain target value he =>
      have hparts : (Stmt.expr e).parts =
          target.names.map .reference ++ target.parts ++ value.parts :=
        e.parts_withoutParens.symm.trans (congrArg Expr.parts he)
      rw [hparts, Script.Part.freeIn_append, Script.Part.freeIn_append, List.append_assoc]
      refine List.mem_append_left _ ?_
      rw [Script.Part.freeIn_eq, List.flatMap_map]
      exact List.mem_flatMap.2 ⟨n, h, List.mem_singleton_self n⟩
    next => cases h
  next => cases h

theorem isGlobal_iff_of_assigned (h : Assigned False items n) :
    isGlobal items n = true ↔ n ∉ topLevelNames items := by
  obtain ⟨statement, body, inner, hs, hassigns⟩ := h
  have hfree : n ∈ Script.Part.freeIn (partsOfStmts items) :=
    mem_freeIn_partsOfStmts.2
      ⟨_, hs, mem_freeIn_of_assigned (s := inner) (mem_assignedNames_iff.2 hassigns)⟩
  rw [isGlobal, List.contains_iff_mem, mem_globals]
  exact and_iff_right hfree

/-- The step by which names are collected. -/
def addNew (found : List Name) (n : Name) : List Name :=
  if found.contains n then found else found ++ [n]

theorem nodup_addNew {found : List Name} (h : found.Nodup) (n : Name) : (addNew found n).Nodup := by
  unfold addNew
  split
  next => exact h
  next hn =>
    have hdisjoint : ∀ m ∈ found, m ≠ n := by
      rintro m hm rfl
      exact hn (List.contains_iff_mem.2 hm)
    simpa [List.nodup_append, h] using hdisjoint

theorem firsts_eq (names : List Name) : firsts names = names.foldl addNew [] := rfl

theorem nodup_foldl_addNew {names found : List Name} (h : found.Nodup) :
    (names.foldl addNew found).Nodup := by
  induction names generalizing found with
  | nil => exact h
  | cons n names ih => exact ih (nodup_addNew h n)

theorem nodup_injectedNames (items : List Stmt) : (injectedNames items).Nodup := by
  rw [injectedNames, firsts_eq]
  exact nodup_foldl_addNew List.nodup_nil

theorem firsts_eq_eraseDups (names : List Name) : firsts names = names.eraseDups := by
  induction names using List.reverseRecOn with
  | nil => rfl
  | append_singleton names n ih =>
    have hcontains : names.eraseDups.contains n = names.contains n := by
      rw [Bool.eq_iff_iff, List.contains_iff_mem, List.contains_iff_mem, List.mem_eraseDups]
    rw [firsts_eq, List.foldl_append, ← firsts_eq, ih, eraseDups_concat, List.foldl_cons,
      List.foldl_nil, addNew, hcontains]

theorem injectedNames_eq (items : List Stmt) :
    injectedNames items = ((assignments items).filter fun n =>
      n.head? ≠ some '$' ∧ n ∉ topLevelNames items).eraseDups := by
  rw [injectedNames, firsts_eq_eraseDups]
  refine congrArg List.eraseDups (List.filter_congr fun n hn => ?_)
  have hglobal := isGlobal_iff_of_assigned (mem_assignments_iff.1 hn)
  rw [Bool.eq_iff_iff]
  simp [hglobal]

/-- A rewriting that finds no reactive statement has no names to declare either. -/
theorem exists_rewrite {options : Options} {source : String}
    (hcontext : options.context = .perInstance)
    (hparse : parse options.dialect source = .ok items) :
    ∃ o, rewrite options source = .ok o ∧ o.injected = injectedNames items := by
  by_cases hitems : statements items = []
  · refine ⟨_, rewrite_of_no_statements hcontext hparse hitems, ?_⟩
    rw [injectedNames, hitems]
    rfl
  · exact ⟨_, rewrite_of_statements options hcontext hparse hitems, rfl⟩

/-- The names that get a declaration are those that reactive statements assign, each once and where
it is found first, but for stores and for what the script declares. A variable that has parentheses
or a type around it is not found. What the script declares is what the language binds at the top of
a module, but for the names of a switch and of a default export. -/
theorem injected_of_rewritten (options : Options) (source : String) (items : List Stmt)
    (hcontext : options.context = .perInstance)
    (hparse : parse options.dialect source = .ok items) :
    ∃ o, rewrite options source = .ok o ∧
      o.injected = ((assignments items).filter fun n =>
        n.head? ≠ some '$' ∧ n ∉ topLevelNames items).eraseDups ∧
      o.injected.Nodup ∧
      (∀ n, n ∈ o.injected ↔
        Assigned False items n ∧ n.head? ≠ some '$' ∧ n ∉ topLevelNames items) ∧
      ∀ n, n ∉ misreadNamesOf items → (n ∈ topLevelNames items ↔ n ∈ boundNames items) := by
  obtain ⟨o, hrewrite, hinjected⟩ := exists_rewrite hcontext hparse
  have heq := injectedNames_eq items
  refine ⟨o, hrewrite, hinjected.trans heq, hinjected ▸ nodup_injectedNames items, fun n => ?_,
    fun n => mem_topLevelNames_iff_bound⟩
  rw [hinjected, heq, List.mem_eraseDups, List.mem_filter, mem_assignments_iff, decide_eq_true_iff]

/-- Names at any depth of a pattern, once each, and none of a property, a default or a store. -/
theorem injected_of_rewritten_of_pattern :
    ∃ o items, rewrite {} "let c;\n$m: [a, {b: c, d = f}, $s, ...e.g] = h; $m: a = 2;" = .ok o ∧
      parse .javascript "let c;\n$m: [a, {b: c, d = f}, $s, ...e.g] = h; $m: a = 2;" = .ok items ∧
      o.injected = ["a".toList, "d".toList] ∧ ¬ Assigned False items "f".toList := by
  let source := "let c;\n$m: [a, {b: c, d = f}, $s, ...e.g] = h; $m: a = 2;"
  have hrun : (parse .javascript source).toOption.map (fun items =>
      (((assignments items).filter fun n =>
        n.head? ≠ some '$' ∧ n ∉ topLevelNames items).eraseDups, topLevelNames items)) =
      some (["a".toList, "d".toList], ["c".toList]) := by
    decide +kernel
  obtain ⟨items, hparse, hnames⟩ := Option.map_eq_some_iff.1 hrun
  obtain ⟨hfound, htop⟩ := Prod.mk.inj hnames
  have hitems := ok_of_toOption hparse
  obtain ⟨o, hrewrite, hinjected, -, hmem, -⟩ := injected_of_rewritten {} source items rfl hitems
  rw [hfound] at hinjected
  refine ⟨o, items, hrewrite, hitems, hinjected, fun hassigned => ?_⟩
  have hf := (hmem "f".toList).2 ⟨hassigned, by decide, by rw [htop]; decide⟩
  rw [hinjected] at hf
  exact absurd hf (by decide)

/-- Whether a script is one reactive assignment to one variable. -/
def isAssignmentTo (n : Name) : List Stmt → Bool
  | [.labeled _ _ m (.expr (.assign _ _ (.target e) _))] => m = label && e.variable? = some n
  | _ => false

theorem assigned_of_isAssignmentTo (h : isAssignmentTo n items = true) : Assigned True items n := by
  unfold isAssignmentTo at h
  split at h
  next statement body m start plain e value =>
    obtain ⟨hlabel, hname⟩ := Bool.and_eq_true_iff.1 h
    have hassigns : AssignsIn True n (.expr (.assign start plain (.target e) value)) :=
      ⟨_, start, plain, _, value, rfl, rfl, .target trivial (of_decide_eq_true hname)⟩
    exact ⟨statement, body, _, List.mem_singleton.2 (of_decide_eq_true hlabel ▸ rfl), hassigns⟩
  next => cases h

/-- A variable in parentheses is assigned and has no declaration, and it gets none. -/
theorem injected_of_parentheses :
    ¬ ∀ (options : Options) (source : String) (items : List Stmt),
      options.context = .perInstance → parse options.dialect source = .ok items →
      ∃ o, rewrite options source = .ok o ∧ ∀ n, n ∈ o.injected ↔
        Assigned True items n ∧ n.head? ≠ some '$' ∧ n ∉ boundNames items := by
  intro h
  have hrun : (parse .javascript "$m: (x) = 1;").toOption.map (fun items =>
      (isAssignmentTo "x".toList items, boundNames items, injectedNames items)) =
      some (true, [], []) := by
    decide +kernel
  obtain ⟨items, hparse, hnames⟩ := Option.map_eq_some_iff.1 hrun
  obtain ⟨hassignment, hrest⟩ := Prod.mk.inj hnames
  obtain ⟨hbound, hinjected⟩ := Prod.mk.inj hrest
  have hitems := ok_of_toOption hparse
  have hcontext : ({} : Options).context = .perInstance := rfl
  obtain ⟨o, hrewrite, hmem⟩ := h {} "$m: (x) = 1;" items hcontext hitems
  obtain ⟨o', hrewrite', hinjected'⟩ := exists_rewrite hcontext hitems
  obtain rfl : o = o' := Except.ok.inj (hrewrite.symm.trans hrewrite')
  have hx : "x".toList ∈ o.injected :=
    (hmem _).2 ⟨assigned_of_isAssignmentTo hassignment, by decide, by rw [hbound]; decide⟩
  rw [hinjected', hinjected] at hx
  exact List.not_mem_nil hx

end Reactive

end ComponentBuild.Script
