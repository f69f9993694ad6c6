import ComponentBuild.Proofs.Script.Outline
import ComponentBuild.Proofs.Script.Scoping
import ComponentBuild.Script.Parse

namespace ComponentBuild.Script

/-- No scope around declares the name. -/
def Bare (n : Name) (scopes : List (List Name)) : Prop := ∀ names ∈ scopes, n ∉ names

theorem bare_cons {n : Name} {names : List Name} {scopes : List (List Name)} :
    Bare n (names :: scopes) ↔ n ∉ names ∧ Bare n scopes := List.forall_mem_cons

/-- Some place uses the name and no scope binds it there. -/
def Loose (n : Name) (places : List Place) : Prop :=
  ∃ scopes, .use n scopes ∈ places ∧ Bare n scopes

theorem loose_append {n : Name} {ps qs : List Place} :
    Loose n (ps ++ qs) ↔ Loose n ps ∨ Loose n qs := by
  simp only [Loose, List.mem_append, or_and_right, exists_or]

theorem not_loose_nil (n : Name) : ¬ Loose n [] := by
  rintro ⟨_, h, _⟩
  cases h

theorem not_loose_unsettled (n : Name) (names : List Name) :
    ¬ Loose n (names.map Place.unsettled) := by
  rintro ⟨scopes, h, _⟩
  obtain ⟨m, _, hm⟩ := List.mem_map.1 h
  cases hm

theorem unbound?_eq_some {n : Name} {place : Place} :
    place.unbound? = some n ↔ ∃ scopes, place = .use n scopes ∧ Bare n scopes := by
  cases place with
  | unsettled m => simp [Place.unbound?]
  | use m scopes =>
    simp only [Place.unbound?, Place.use.injEq, Bare]
    split
    next h =>
      obtain ⟨names, hnames, hm⟩ := List.any_eq_true.1 h
      have : ¬ ∀ names ∈ scopes, m ∉ names := fun h => h names hnames (List.contains_iff_mem.1 hm)
      grind
    next h =>
      have : ∀ names ∈ scopes, m ∉ names := fun names hnames hm =>
        h (List.any_eq_true.2 ⟨names, hnames, List.contains_iff_mem.2 hm⟩)
      grind

theorem mem_doubts {n : Name} {places : List Place} :
    .unsettled n ∈ doubts places ↔ .unsettled n ∈ places ∨ Loose n places := by
  rw [doubts, List.mem_filterMap]
  constructor
  · rintro ⟨place, hplace, hsome⟩
    cases place with
    | unsettled m =>
      cases hsome
      exact .inl hplace
    | use m scopes =>
      obtain ⟨k, hk, hkn⟩ := Option.map_eq_some_iff.1 hsome
      cases hkn
      obtain ⟨scopes', heq, hbare⟩ := unbound?_eq_some.1 hk
      cases heq
      exact .inr ⟨scopes, hplace, hbare⟩
  · rintro (h | ⟨scopes, h, hbare⟩)
    · exact ⟨_, h, rfl⟩
    · refine ⟨_, h, ?_⟩
      change (Place.use n scopes).unbound?.map Place.unsettled = _
      rw [unbound?_eq_some.2 ⟨scopes, rfl, hbare⟩]
      rfl

theorem not_loose_doubts (n : Name) (places : List Place) : ¬ Loose n (doubts places) := by
  rintro ⟨scopes, h, _⟩
  obtain ⟨place, _, hplace⟩ := List.mem_filterMap.1 h
  cases place with
  | unsettled m => cases hplace
  | use m scopes' =>
    obtain ⟨k, _, hk⟩ := Option.map_eq_some_iff.1 hplace
    cases hk

/-- Parts of an outline and places in a tree agree on a name, unless it is unsettled. What the
places bind is told by whether the scopes around them leave the name bare. -/
def Agrees (n : Name) (bare : Prop) (lexical var : List Name) (parts : List Part)
    (places : List Place) : Prop :=
  .unsettled n ∉ places →
    (.declare n ∈ parts ↔ n ∈ lexical) ∧ (n ∈ Part.hoistedIn parts ↔ n ∈ var) ∧
      (Loose n places ↔ n ∈ Part.freeIn parts ∧ bare)

namespace Agrees

variable {n : Name} {bare : Prop} {lexical lexical' var var' : List Name} {ps qs : List Part}
  {pl ql : List Place} {scopes : List (List Name)}

theorem nil (n : Name) (bare : Prop) : Agrees n bare [] [] [] [] := by
  intro _
  simp [not_loose_nil]

theorem append (h : Agrees n bare lexical var ps pl) (h' : Agrees n bare lexical' var' qs ql) :
    Agrees n bare (lexical ++ lexical') (var ++ var') (ps ++ qs) (pl ++ ql) := by
  intro hsettled
  rw [List.mem_append, not_or] at hsettled
  obtain ⟨hdeclare, hhoist, hloose⟩ := h hsettled.1
  obtain ⟨hdeclare', hhoist', hloose'⟩ := h' hsettled.2
  simp only [List.mem_append, Part.hoistedIn_append, Part.freeIn_append, loose_append, hdeclare,
    hdeclare', hhoist, hhoist', hloose, hloose', or_and_right, and_self]

/-- Behind a part that declares something there may be one that only has expressions. -/
theorem appendQuiet (h : Agrees n bare lexical var ps pl) (h' : Agrees n bare [] [] qs ql) :
    Agrees n bare lexical var (ps ++ qs) (pl ++ ql) := by
  have := h.append h'
  rwa [List.append_nil, List.append_nil] at this

/-- Behind what declares names for a block there may be a part that only declares for a function. -/
theorem appendHoisting (h : Agrees n bare lexical [] ps pl) (h' : Agrees n bare [] var qs ql) :
    Agrees n bare lexical var (ps ++ qs) (pl ++ ql) := by
  have := h.append h'
  rwa [List.append_nil] at this

theorem reference (n m : Name) (scopes : List (List Name)) :
    Agrees n (Bare n scopes) [] [] [.reference m] [.use m scopes] := by
  intro _
  simp [Loose, Part.free, Part.hoisted, and_comm]

theorem references (n : Name) (scopes : List (List Name)) (names : List Name) :
    Agrees n (Bare n scopes) [] [] (names.map .reference) (usesOf scopes names) := by
  induction names with
  | nil => exact nil n _
  | cons m names ih => exact (reference n m scopes).append ih

theorem declarations (n : Name) (bare : Prop) (names : List Name) :
    Agrees n bare names [] (names.map .declare) [] := by
  intro _
  rw [Part.hoistedIn_map (fun _ => rfl), Part.freeIn_map (fun _ => rfl)]
  simp [not_loose_nil]

theorem ofKind (n : Name) (bare : Prop) (kind : VariableKind) (names : List Name) :
    Agrees n bare (if kind = .var then [] else names) (if kind = .var then names else [])
      (names.map kind.declare) [] := by
  by_cases hkind : kind = .var
  · subst hkind
    intro _
    have hdeclare : VariableKind.var.declare = Part.hoist := rfl
    rw [hdeclare, Part.hoistedIn_hoist, Part.freeIn_map (fun _ => rfl)]
    simp [not_loose_nil]
  · have hdeclare : kind.declare = Part.declare := funext fun m => if_neg hkind
    rw [if_neg hkind, if_neg hkind, hdeclare]
    exact declarations n bare names

theorem block (h : Agrees n (Bare n (lexical :: scopes)) lexical var ps pl) :
    Agrees n (Bare n scopes) [] var [.scope false ps] pl := by
  intro hsettled
  obtain ⟨hdeclare, hhoist, hloose⟩ := h hsettled
  refine ⟨by simp, by simpa [Part.hoisted] using hhoist, ?_⟩
  rw [hloose, bare_cons, Part.freeIn_cons, Part.freeIn_nil, List.append_nil, Part.mem_free_scope,
    Part.mem_declaredIn, hdeclare]
  simp [and_assoc]

theorem function (h : Agrees n (Bare n ((lexical ++ var) :: scopes)) lexical var ps pl) :
    Agrees n (Bare n scopes) [] [] [.scope true ps] pl := by
  intro hsettled
  obtain ⟨hdeclare, hhoist, hloose⟩ := h hsettled
  refine ⟨by simp, by simp [Part.hoisted], ?_⟩
  rw [hloose, bare_cons, Part.freeIn_cons, Part.freeIn_nil, List.append_nil, Part.mem_free_scope,
    Part.mem_declaredIn, hdeclare, hhoist]
  simp [and_assoc]

theorem bareCongr {bare' : Prop} (hbare : bare ↔ bare') (h : Agrees n bare lexical var ps pl) :
    Agrees n bare' lexical var ps pl := propext hbare ▸ h

/-- The block of a switch declares nothing that is settled. -/
theorem ofSwitch (h : Agrees n (Bare n (lexical :: scopes)) lexical var ps pl) :
    Agrees n (Bare n scopes) [] var ps (pl ++ lexical.map .unsettled) := by
  intro hsettled
  rw [List.mem_append, not_or] at hsettled
  obtain ⟨hdeclare, hhoist, hloose⟩ := h hsettled.1
  have hnot : n ∉ lexical := fun hn => hsettled.2 (List.mem_map_of_mem hn)
  refine ⟨by simp [hdeclare, hnot], hhoist, ?_⟩
  rw [loose_append, or_iff_left (not_loose_unsettled n lexical), hloose, bare_cons]
  simp [hnot]

/-- A name that a default export declares is unsettled. -/
theorem exported (names : List Name) (h : Agrees n bare [] [] ps pl) :
    Agrees n bare names [] ps (pl ++ names.map .unsettled) := by
  intro hsettled
  rw [List.mem_append, not_or] at hsettled
  obtain ⟨hdeclare, hhoist, hloose⟩ := h hsettled.1
  have hnot : n ∉ names := fun hn => hsettled.2 (List.mem_map_of_mem hn)
  refine ⟨by simp [hdeclare, hnot], hhoist, ?_⟩
  rw [loose_append, or_iff_left (not_loose_unsettled n names), hloose]

/-- Uses that are in doubt count in an outline and not in the tree. -/
theorem doubted (h : Agrees n bare [] [] ps pl) : Agrees n bare [] [] ps (doubts pl) := by
  intro hsettled
  rw [mem_doubts, not_or] at hsettled
  obtain ⟨hdeclare, hhoist, hloose⟩ := h hsettled.1
  refine ⟨hdeclare, hhoist, ?_⟩
  rw [← hloose]
  exact iff_of_false (not_loose_doubts n pl) hsettled.2

/-- Uses that are in doubt count in a tree and not in its outline. -/
theorem unseen (ql : List Place) (h : Agrees n bare lexical var ps []) :
    Agrees n bare lexical var ps (ql ++ doubts ql) := by
  intro hsettled
  rw [List.mem_append, mem_doubts] at hsettled
  have hnot : ¬ Loose n ql := fun h => hsettled (.inr (.inr h))
  obtain ⟨hdeclare, hhoist, hloose⟩ := h List.not_mem_nil
  refine ⟨hdeclare, hhoist, ?_⟩
  rw [loose_append, or_iff_right hnot, ← hloose]
  exact iff_of_false (not_loose_doubts n ql) (not_loose_nil n)

end Agrees

section Trees

variable (n : Name)

open Agrees

mutual

theorem Expr.agrees (scopes : List (List Name)) : ∀ e : Expr,
    Agrees n (Bare n scopes) [] [] e.parts (e.places true scopes)
  | .name _ m => reference n m scopes
  | .array _ items _ => agrees_items scopes items
  | .object _ properties _ => agrees_properties scopes properties
  | .function _ (some m) f =>
    block ((declarations n _ [m]).append (f.agrees ([m] :: scopes)))
  | .function _ none f => f.agrees scopes
  | .classDef _ name? c =>
    block ((declarations n _ name?.toList).appendQuiet (c.agrees (name?.toList :: scopes)))
  | .arrow _ f => f.agrees scopes
  | .template _ holes => agrees_exprs scopes holes
  | .tagged _ tag holes => (tag.agrees scopes).append (agrees_exprs scopes holes)
  | .unary _ e => e.agrees scopes
  | .update _ e => e.agrees scopes
  | .binary _ _ left right => (left.agrees scopes).append (right.agrees scopes)
  | .assign _ _ target value =>
    ((references n scopes target.names).append (target.agrees scopes)).append (value.agrees scopes)
  | .conditional _ test yes no =>
    ((test.agrees scopes).append (yes.agrees scopes)).append (no.agrees scopes)
  | .member _ _ e => e.agrees scopes
  | .index _ _ e key => (e.agrees scopes).append (key.agrees scopes)
  | .call _ _ callee items => (callee.agrees scopes).append (agrees_items scopes items)
  | .construct _ _ callee items => (callee.agrees scopes).append (agrees_items scopes items)
  | .sequence _ es => agrees_exprs scopes es
  | .yield _ (some e) => e.agrees scopes
  | .yield _ none => nil n _
  | .await _ e => e.agrees scopes
  | .paren _ e => e.agrees scopes
  | .cast _ _ e => e.agrees scopes
  | .literal _ _ => nil n _
  | .this _ => nil n _
  | .super _ => nil n _
  | .importer _ => nil n _
  | .metaProperty _ => nil n _
  | .privateName _ => nil n _
  | .invalid _ => nil n _

theorem agrees_exprs (scopes : List (List Name)) : ∀ es : List Expr,
    Agrees n (Bare n scopes) [] [] (partsOfExprs es) (placesOfExprs true scopes es)
  | [] => nil n _
  | e :: es => (e.agrees scopes).append (agrees_exprs scopes es)

theorem agrees_option (scopes : List (List Name)) : ∀ e? : Option Expr,
    Agrees n (Bare n scopes) [] [] (partsOfOption e?) (placesOfOption true scopes e?)
  | none => nil n _
  | some e => e.agrees scopes

theorem agrees_item (scopes : List (List Name)) : ∀ item : Item,
    Agrees n (Bare n scopes) [] [] (partsOfItem item) (placesOfItem true scopes item)
  | .hole => nil n _
  | .plain e => e.agrees scopes
  | .spread _ e => e.agrees scopes

theorem agrees_items (scopes : List (List Name)) : ∀ items : List Item,
    Agrees n (Bare n scopes) [] [] (partsOfItems items) (placesOfItems true scopes items)
  | [] => nil n _
  | item :: items => (agrees_item scopes item).append (agrees_items scopes items)

theorem Key.agrees (scopes : List (List Name)) : ∀ key : Key,
    Agrees n (Bare n scopes) [] [] key.parts (key.places true scopes)
  | .computed _ e => e.agrees scopes
  | .name _ _ => nil n _
  | .string _ _ => nil n _
  | .number _ => nil n _
  | .privateName _ _ => nil n _

theorem agrees_property (scopes : List (List Name)) : ∀ property : Property,
    Agrees n (Bare n scopes) [] [] (partsOfProperty property)
      (placesOfProperty true scopes property)
  | .shorthand _ m => reference n m scopes
  | .keyValue key value => (key.agrees scopes).append (value.agrees scopes)
  | .withDefault _ _ value => value.agrees scopes
  | .method _ key f => (key.agrees scopes).append (f.agrees scopes)
  | .spread _ e => e.agrees scopes

theorem agrees_properties (scopes : List (List Name)) : ∀ properties : List Property,
    Agrees n (Bare n scopes) [] [] (partsOfProperties properties)
      (placesOfProperties true scopes properties)
  | [] => nil n _
  | property :: properties =>
    (agrees_property scopes property).append (agrees_properties scopes properties)

theorem Pattern.agrees (scopes : List (List Name)) : ∀ pattern : Pattern,
    Agrees n (Bare n scopes) [] [] pattern.parts (pattern.places true scopes)
  | .name _ _ => nil n _
  | .hole => nil n _
  | .invalid _ => nil n _
  | .array _ elements => agrees_patterns scopes elements
  | .object _ properties => agrees_patternProperties scopes properties
  | .withDefault _ left value => (left.agrees scopes).append (value.agrees scopes)
  | .rest _ inner => inner.agrees scopes
  | .target e => e.agrees scopes

theorem agrees_patterns (scopes : List (List Name)) : ∀ patterns : List Pattern,
    Agrees n (Bare n scopes) [] [] (partsOfPatterns patterns)
      (placesOfPatterns true scopes patterns)
  | [] => nil n _
  | pattern :: patterns => (pattern.agrees scopes).append (agrees_patterns scopes patterns)

theorem agrees_patternProperty (scopes : List (List Name)) : ∀ property : PatternProperty,
    Agrees n (Bare n scopes) [] [] (partsOfPatternProperty property)
      (placesOfPatternProperty true scopes property)
  | .keyValue key value => (key.agrees scopes).append (value.agrees scopes)
  | .shorthand _ _ (some e) => e.agrees scopes
  | .shorthand _ _ none => nil n _
  | .rest _ inner => inner.agrees scopes

theorem agrees_patternProperties (scopes : List (List Name)) :
    ∀ properties : List PatternProperty,
    Agrees n (Bare n scopes) [] [] (partsOfPatternProperties properties)
      (placesOfPatternProperties true scopes properties)
  | [] => nil n _
  | property :: properties =>
    (agrees_patternProperty scopes property).append (agrees_patternProperties scopes properties)

/-- Parameters and body are told apart only by what is around them. -/
theorem Function.agrees (scopes : List (List Name)) : ∀ f : Function,
    Agrees n (Bare n scopes) [] [] f.parts (f.places true scopes)
  | .mk parameters body =>
    let names := namesOfElements parameters
    have hbody : Agrees n (Bare n ((names ++ body.varNames) :: scopes)) [] body.varNames body.parts
        (body.places true (body.varNames :: names :: scopes)) :=
      (body.agrees (body.varNames :: names :: scopes)).bareCongr (by
        rw [bare_cons, bare_cons, bare_cons, List.mem_append, not_or]
        tauto)
    function (((declarations n _ names).appendQuiet
      (agrees_patterns _ parameters)).appendHoisting hbody)

theorem Body.agrees (scopes : List (List Name)) : ∀ body : Body,
    Agrees n (Bare n scopes) [] body.varNames body.parts (body.places true scopes)
  | .block statements => block (agrees_stmts (lexicalNamesOf statements :: scopes) statements)
  | .expr e => e.agrees scopes
  | .absent => nil n _

theorem Class.agrees (scopes : List (List Name)) : ∀ c : Class,
    Agrees n (Bare n scopes) [] [] c.parts (c.places true scopes)
  | .mk superClass? implemented members =>
    ((agrees_option scopes superClass?).append (agrees_exprs scopes implemented).doubted).append
      (agrees_members scopes members)

theorem agrees_member (scopes : List (List Name)) : ∀ member : Member,
    Agrees n (Bare n scopes) [] [] (partsOfMember member) (placesOfMember true scopes member)
  | .constructor f => f.agrees scopes
  | .method key f => (key.agrees scopes).append (f.agrees scopes)
  | .field key value? => (key.agrees scopes).append (agrees_option scopes value?)
  | .staticBlock statements =>
    @function n [] (varNamesOf statements) _ _ scopes (block (agrees_stmts
      (lexicalNamesOf statements :: varNamesOf statements :: scopes) statements))
  | .signature => nil n _

theorem agrees_members (scopes : List (List Name)) : ∀ members : List Member,
    Agrees n (Bare n scopes) [] [] (partsOfMembers members) (placesOfMembers true scopes members)
  | [] => nil n _
  | member :: members => (agrees_member scopes member).append (agrees_members scopes members)

theorem agrees_declarators (scopes : List (List Name)) : ∀ declarators : List Declarator,
    Agrees n (Bare n scopes) [] [] (partsOfDeclarators declarators)
      (placesOfDeclarators true scopes declarators)
  | [] => nil n _
  | .mk target value? :: declarators =>
    ((target.agrees scopes).append (agrees_option scopes value?)).append
      (agrees_declarators scopes declarators)

theorem agrees_cases (scopes : List (List Name)) : ∀ cases : List Case,
    Agrees n (Bare n scopes) (lexicalNamesOfCases cases) (varNamesOfCases cases)
      (partsOfCases cases) (placesOfCases true scopes cases)
  | [] => nil n _
  | .mk test? statements :: cases =>
    ((agrees_option scopes test?).append (agrees_stmts scopes statements)).append
      (agrees_cases scopes cases)

theorem Handler.agrees (scopes : List (List Name)) : ∀ handler : Handler,
    Agrees n (Bare n scopes) [] handler.varNames handler.parts (handler.places true scopes)
  | .mk parameter statements =>
    have hparameter := (declarations n _ parameter.names).appendQuiet
      (parameter.agrees (parameter.names :: scopes))
    block (hparameter.appendHoisting (block (agrees_stmts
      (lexicalNamesOf statements :: parameter.names :: scopes) statements)))

theorem LoopHead.agrees (scopes : List (List Name)) : ∀ head : LoopHead,
    Agrees n (Bare n scopes) head.lexicalNames head.varNames head.parts
      (head.places true scopes)
  | .declaration kind declarators =>
    (ofKind n _ kind (namesOfDeclarators declarators)).appendQuiet
      (agrees_declarators scopes declarators)
  | .resources declarators =>
    (declarations n _ (namesOfDeclarators declarators)).appendQuiet
      (agrees_declarators scopes declarators)
  | .target pattern => (references n scopes pattern.names).append (pattern.agrees scopes)

theorem Stmt.agrees (scopes : List (List Name)) : ∀ s : Stmt,
    Agrees n (Bare n scopes) s.lexicalNames s.varNames s.parts (s.places true scopes)
  | .empty => nil n _
  | .jump => nil n _
  | .types => nil n _
  | .block statements => block (agrees_stmts (lexicalNamesOf statements :: scopes) statements)
  | .expr e => e.agrees scopes
  | .branch test yes no =>
    ((test.agrees scopes).append (yes.agrees scopes)).append (no.agrees scopes)
  | .result value? => agrees_option scopes value?
  | .throw e => e.agrees scopes
  | .labeled _ _ _ inner => inner.agrees scopes
  | .withObject e body => (e.agrees scopes).append (body.agrees scopes)
  | .switch e cases => by
    have h := (e.agrees scopes).append
      (ofSwitch (agrees_cases (lexicalNamesOfCases cases :: scopes) cases))
    rwa [← List.append_assoc] at h
  | .attempt body (some handler) last =>
    (block (agrees_stmts (lexicalNamesOf body :: scopes) body)).append
      ((handler.agrees scopes).append (block (agrees_stmts (lexicalNamesOf last :: scopes) last)))
  | .attempt body none last =>
    (block (agrees_stmts (lexicalNamesOf body :: scopes) body)).append
      (block (agrees_stmts (lexicalNamesOf last :: scopes) last))
  | .loop test body => (test.agrees scopes).append (body.agrees scopes)
  | .countLoop start test? update? body =>
    let inner := (start.lexicalNames ++ body.lexicalNames) :: scopes
    block ((((start.agrees inner).appendQuiet (agrees_option inner test?)).appendQuiet
      (agrees_option inner update?)).append (body.agrees inner))
  | .valueLoop head values body =>
    let inner := (head.lexicalNames ++ body.lexicalNames) :: scopes
    block (((head.agrees inner).appendQuiet (values.agrees inner)).append (body.agrees inner))
  | .variables kind declarators =>
    (ofKind n _ kind (namesOfDeclarators declarators)).appendQuiet
      (agrees_declarators scopes declarators)
  | .resources declarators =>
    (declarations n _ (namesOfDeclarators declarators)).appendQuiet
      (agrees_declarators scopes declarators)
  | .function m f => (declarations n _ [m]).appendQuiet (f.agrees scopes)
  | .classDef m c => (declarations n _ [m]).appendQuiet (c.agrees scopes)
  | .enumeration m _ => unseen _ (declarations n _ [m])
  | .container name? _ => unseen _ (declarations n _ name?.toList)
  | .importNames locals => declarations n _ locals
  | .importAlias m => declarations n _ [m]
  | .exportNames values types =>
    (references n scopes values).append (references n scopes types).doubted
  | .exportDeclaration declaration => declaration.agrees scopes
  | .exportDefault e => exported e.declaredName?.toList (e.agrees scopes)

theorem agrees_stmts (scopes : List (List Name)) : ∀ statements : List Stmt,
    Agrees n (Bare n scopes) (lexicalNamesOf statements) (varNamesOf statements)
      (partsOfStmts statements) (placesOfStmts true scopes statements)
  | [] => nil n _
  | s :: ss => (s.agrees scopes).append (agrees_stmts scopes ss)

end

end Trees

theorem mem_unboundNames {shared : Bool} {items : List Stmt} {n : Name} :
    n ∈ unboundNames shared items ↔ Loose n (modulePlaces shared items) := by
  simp only [unboundNames, List.mem_filterMap, unbound?_eq_some, Loose]
  constructor
  · rintro ⟨_, hplace, scopes, rfl, hbare⟩
    exact ⟨scopes, hplace, hbare⟩
  · rintro ⟨scopes, hplace, hbare⟩
    exact ⟨_, hplace, scopes, rfl, hbare⟩

theorem mem_unsettledNames {items : List Stmt} {n : Name} :
    n ∈ unsettledNames items ↔ .unsettled n ∈ modulePlaces true items := by
  rw [unsettledNames, List.mem_filterMap]
  constructor
  · rintro ⟨place, hplace, hn⟩
    cases place with
    | use m scopes => cases hn
    | unsettled m =>
      cases hn
      exact hplace
  · exact fun h => ⟨_, h, rfl⟩

/-- The free names of a module are those that it uses where no scope binds them, if parameters see
the `var`s of the bodies of their functions. -/
theorem mem_globals_iff_mem_unboundNames (items : List Stmt) (n : Name)
    (h : n ∉ unsettledNames items) : n ∈ globals items ↔ n ∈ unboundNames true items := by
  rw [mem_unsettledNames] at h
  obtain ⟨hdeclare, hhoist, hloose⟩ :=
    agrees_stmts n [lexicalNamesOf items, varNamesOf items] items h
  rw [mem_unboundNames, modulePlaces, hloose, mem_globals, topLevelNames, Part.mem_declaredIn,
    hdeclare, hhoist, bare_cons, bare_cons]
  simp [Bare]

/-- A `var` in a block is the module's, a `let` in it is not. -/
theorem globals_of_block :
    ∃ items, parse .javascript "if (p) { let z; var y; } y = z;" = .ok items ∧
      "z".toList ∉ unsettledNames items ∧ "y".toList ∉ unsettledNames items ∧
      "z".toList ∈ globals items ∧ "y".toList ∉ globals items := by
  have hrun : (parse .javascript "if (p) { let z; var y; } y = z;").toOption.map (fun items =>
      (unsettledNames items, unboundNames true items)) = some ([], ["p".toList, "z".toList]) := by
    decide +kernel
  obtain ⟨items, hparse, hnames⟩ := Option.map_eq_some_iff.1 hrun
  obtain ⟨hsettled, hunbound⟩ := Prod.mk.inj hnames
  have hnone (n : Name) : n ∉ unsettledNames items := hsettled ▸ List.not_mem_nil
  refine ⟨items, ok_of_toOption hparse, hnone _, hnone _, ?_, ?_⟩
  · rw [mem_globals_iff_mem_unboundNames items _ (hnone _), hunbound]
    decide
  · rw [mem_globals_iff_mem_unboundNames items _ (hnone _), hunbound]
    decide

/-- A `var` in a body binds a use in the default of a parameter. In the language it does not. -/
theorem globals_of_parameter_default :
    ∃ items, parse .javascript "function f(a = x) { var x; }" = .ok items ∧
      unsettledNames items = [] ∧
      ¬ ∀ n, n ∈ globals items ↔ n ∈ unboundNames false items := by
  have hrun : (parse .javascript "function f(a = x) { var x; }").toOption.map (fun items =>
      (unsettledNames items, globals items, unboundNames false items)) =
      some ([], [], ["x".toList]) := by
    decide +kernel
  obtain ⟨items, hparse, hnames⟩ := Option.map_eq_some_iff.1 hrun
  obtain ⟨hsettled, hrest⟩ := Prod.mk.inj hnames
  obtain ⟨hglobals, hunbound⟩ := Prod.mk.inj hrest
  refine ⟨items, ok_of_toOption hparse, hsettled, fun h => ?_⟩
  have hx := (h "x".toList).2 (by
    rw [hunbound]
    exact List.mem_singleton.2 rfl)
  rw [hglobals] at hx
  exact List.not_mem_nil hx

end ComponentBuild.Script
