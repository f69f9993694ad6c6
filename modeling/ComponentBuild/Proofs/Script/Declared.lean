import ComponentBuild.Proofs.Script.Outline
import ComponentBuild.Proofs.Script.Scoping

namespace ComponentBuild.Script

mutual

/-- The names that the outline of a statement takes for declared around it, or for not declared
there, and that are not so in the language: those of the block of a switch, and that of a default
export. -/
def Stmt.misreadNames : Stmt → List Name
  | .branch _ yes no => yes.misreadNames ++ no.misreadNames
  | .labeled _ _ _ inner => inner.misreadNames
  | .withObject _ body => body.misreadNames
  | .loop _ body => body.misreadNames
  | .switch _ cases => lexicalNamesOfCases cases ++ misreadNamesOfCases cases
  | .exportDeclaration declaration => declaration.misreadNames
  | .exportDefault e => e.declaredName?.toList
  | _ => []

def misreadNamesOf : List Stmt → List Name
  | [] => []
  | s :: ss => s.misreadNames ++ misreadNamesOf ss

def misreadNamesOfCases : List Case → List Name
  | [] => []
  | .mk _ statements :: cases => misreadNamesOf statements ++ misreadNamesOfCases cases

end

/-- A part of an outline declares a name for the block around it, if it is not misread, and for the
function around it, as the tree does. -/
def Declares (n : Name) (misread lexical var : List Name) (parts : List Part) : Prop :=
  (n ∉ misread → (.declare n ∈ parts ↔ n ∈ lexical)) ∧ (n ∈ Part.hoistedIn parts ↔ n ∈ var)

namespace Declares

variable {n : Name} {misread misread' lexical lexical' var var' : List Name} {ps qs : List Part}

theorem nil (n : Name) : Declares n [] [] [] [] := by
  simp [Declares]

theorem append (h : Declares n misread lexical var ps)
    (h' : Declares n misread' lexical' var' qs) :
    Declares n (misread ++ misread') (lexical ++ lexical') (var ++ var') (ps ++ qs) := by
  refine ⟨fun hread => ?_, ?_⟩
  · rw [List.mem_append, not_or] at hread
    rw [List.mem_append, List.mem_append, h.1 hread.1, h'.1 hread.2]
  · rw [Part.hoistedIn_append, List.mem_append, List.mem_append, h.2, h'.2]

/-- Behind a part that declares something there may be one that only has expressions. -/
theorem appendQuiet (h : Declares n misread lexical var ps) (h' : Declares n [] [] [] qs) :
    Declares n misread lexical var (ps ++ qs) := by
  have := h.append h'
  rwa [List.append_nil, List.append_nil, List.append_nil] at this

theorem references (n : Name) (names : List Name) :
    Declares n [] [] [] (names.map .reference) := by
  refine ⟨fun _ => ?_, ?_⟩
  · simp
  · rw [Part.hoistedIn_map fun _ => rfl]

theorem declarations (n : Name) (names : List Name) :
    Declares n [] names [] (names.map .declare) := by
  refine ⟨fun _ => ?_, ?_⟩
  · simp
  · rw [Part.hoistedIn_map fun _ => rfl]

theorem ofKind (n : Name) (kind : VariableKind) (names : List Name) :
    Declares n [] (if kind = .var then [] else names) (if kind = .var then names else [])
      (names.map kind.declare) := by
  by_cases hkind : kind = .var
  · subst hkind
    have hdeclare : VariableKind.var.declare = Part.hoist := rfl
    rw [hdeclare]
    refine ⟨fun _ => by simp, ?_⟩
    rw [Part.hoistedIn_hoist, if_pos rfl]
  · have hdeclare : kind.declare = Part.declare := funext fun m => if_neg hkind
    rw [if_neg hkind, if_neg hkind, hdeclare]
    exact declarations n names

theorem block (h : Declares n misread lexical var ps) :
    Declares n [] [] var [.scope false ps] := by
  refine ⟨fun _ => by simp, ?_⟩
  rw [← h.2, Part.hoistedIn_cons, Part.hoistedIn_nil, List.append_nil]
  rfl

theorem function (n : Name) (ps : List Part) : Declares n [] [] [] [.scope true ps] := by
  refine ⟨fun _ => by simp, ?_⟩
  rw [Part.hoistedIn_cons, Part.hoistedIn_nil, List.append_nil]
  rfl

/-- What a switch declares for its block, its outline declares around it. -/
theorem ofSwitch (h : Declares n misread lexical var ps) :
    Declares n (lexical ++ misread) [] var ps := by
  refine ⟨fun hread => ?_, h.2⟩
  rw [List.mem_append, not_or] at hread
  rw [h.1 hread.2]
  exact iff_of_false hread.1 List.not_mem_nil

/-- What a default export declares is not in its outline. -/
theorem exported (names : List Name) (h : Declares n [] [] [] ps) :
    Declares n names names [] ps := by
  refine ⟨fun hread => ?_, h.2⟩
  rw [h.1 List.not_mem_nil]
  exact iff_of_false List.not_mem_nil hread

end Declares

section Trees

variable (n : Name)

open Declares

mutual

/-- An expression declares nothing around it. -/
theorem Expr.declares : ∀ e : Expr, Declares n [] [] [] e.parts
  | .name _ m => references n [m]
  | .array _ items _ => declares_items items
  | .object _ properties _ => declares_properties properties
  | .function _ (some m) f => block ((declarations n [m]).append f.declares)
  | .function _ none f => f.declares
  | .classDef _ name? c => block ((declarations n name?.toList).appendQuiet c.declares)
  | .arrow _ f => f.declares
  | .template _ holes => declares_exprs holes
  | .tagged _ tag holes => tag.declares.append (declares_exprs holes)
  | .unary _ e => e.declares
  | .update _ e => e.declares
  | .binary _ _ left right => left.declares.append right.declares
  | .assign _ _ target value =>
    ((references n target.names).append target.declares).append value.declares
  | .conditional _ test yes no => (test.declares.append yes.declares).append no.declares
  | .member _ _ e => e.declares
  | .index _ _ e key => e.declares.append key.declares
  | .call _ _ callee items => callee.declares.append (declares_items items)
  | .construct _ _ callee items => callee.declares.append (declares_items items)
  | .sequence _ es => declares_exprs es
  | .yield _ (some e) => e.declares
  | .yield _ none => nil n
  | .await _ e => e.declares
  | .paren _ e => e.declares
  | .cast _ _ e => e.declares
  | .literal _ _ => nil n
  | .this _ => nil n
  | .super _ => nil n
  | .importer _ => nil n
  | .metaProperty _ => nil n
  | .privateName _ => nil n
  | .invalid _ => nil n

theorem declares_exprs : ∀ es : List Expr, Declares n [] [] [] (partsOfExprs es)
  | [] => nil n
  | e :: es => e.declares.append (declares_exprs es)

theorem declares_option : ∀ e? : Option Expr, Declares n [] [] [] (partsOfOption e?)
  | none => nil n
  | some e => e.declares

theorem declares_item : ∀ item : Item, Declares n [] [] [] (partsOfItem item)
  | .hole => nil n
  | .plain e => e.declares
  | .spread _ e => e.declares

theorem declares_items : ∀ items : List Item, Declares n [] [] [] (partsOfItems items)
  | [] => nil n
  | item :: items => (declares_item item).append (declares_items items)

theorem Key.declares : ∀ key : Key, Declares n [] [] [] key.parts
  | .computed _ e => e.declares
  | .name _ _ => nil n
  | .string _ _ => nil n
  | .number _ => nil n
  | .privateName _ _ => nil n

theorem declares_property : ∀ property : Property, Declares n [] [] [] (partsOfProperty property)
  | .shorthand _ m => references n [m]
  | .keyValue key value => key.declares.append value.declares
  | .withDefault _ _ value => value.declares
  | .method _ key f => key.declares.append f.declares
  | .spread _ e => e.declares

theorem declares_properties :
    ∀ properties : List Property, Declares n [] [] [] (partsOfProperties properties)
  | [] => nil n
  | property :: properties => (declares_property property).append (declares_properties properties)

theorem Pattern.declares : ∀ pattern : Pattern, Declares n [] [] [] pattern.parts
  | .name _ _ => nil n
  | .hole => nil n
  | .invalid _ => nil n
  | .array _ elements => declares_patterns elements
  | .object _ properties => declares_patternProperties properties
  | .withDefault _ left value => left.declares.append value.declares
  | .rest _ inner => inner.declares
  | .target e => e.declares

theorem declares_patterns :
    ∀ patterns : List Pattern, Declares n [] [] [] (partsOfPatterns patterns)
  | [] => nil n
  | pattern :: patterns => pattern.declares.append (declares_patterns patterns)

theorem declares_patternProperty :
    ∀ property : PatternProperty, Declares n [] [] [] (partsOfPatternProperty property)
  | .keyValue key value => key.declares.append value.declares
  | .shorthand _ _ (some e) => e.declares
  | .shorthand _ _ none => nil n
  | .rest _ inner => inner.declares

theorem declares_patternProperties :
    ∀ properties : List PatternProperty, Declares n [] [] [] (partsOfPatternProperties properties)
  | [] => nil n
  | property :: properties =>
    (declares_patternProperty property).append (declares_patternProperties properties)

theorem Function.declares : ∀ f : Function, Declares n [] [] [] f.parts
  | .mk _ _ => function n _

theorem Class.declares : ∀ c : Class, Declares n [] [] [] c.parts
  | .mk superClass? implemented members =>
    ((declares_option superClass?).append (declares_exprs implemented)).append
      (declares_members members)

theorem declares_member : ∀ member : Member, Declares n [] [] [] (partsOfMember member)
  | .constructor f => f.declares
  | .method key f => key.declares.append f.declares
  | .field key value? => key.declares.append (declares_option value?)
  | .staticBlock _ => function n _
  | .signature => nil n

theorem declares_members : ∀ members : List Member, Declares n [] [] [] (partsOfMembers members)
  | [] => nil n
  | member :: members => (declares_member member).append (declares_members members)

end

theorem declares_declarators :
    ∀ declarators : List Declarator, Declares n [] [] [] (partsOfDeclarators declarators)
  | [] => nil n
  | .mk target value? :: declarators =>
    ((target.declares n).append (declares_option n value?)).append
      (declares_declarators declarators)

theorem LoopHead.declares : ∀ head : LoopHead,
    Declares n [] head.lexicalNames head.varNames head.parts
  | .declaration kind declarators =>
    (ofKind n kind (namesOfDeclarators declarators)).appendQuiet
      (declares_declarators n declarators)
  | .resources declarators =>
    (declarations n (namesOfDeclarators declarators)).appendQuiet
      (declares_declarators n declarators)
  | .target pattern => (references n pattern.names).append (pattern.declares n)

mutual

theorem Stmt.declares : ∀ s : Stmt,
    Declares n s.misreadNames s.lexicalNames s.varNames s.parts
  | .empty => nil n
  | .jump => nil n
  | .types => nil n
  | .block statements => block (declares_stmts statements)
  | .expr e => e.declares n
  | .branch test yes no => ((test.declares n).append yes.declares).append no.declares
  | .result value? => declares_option n value?
  | .throw e => e.declares n
  | .labeled _ _ _ inner => inner.declares
  | .withObject e body => (e.declares n).append body.declares
  | .switch e cases => (e.declares n).append (declares_cases cases).ofSwitch
  | .attempt body (some handler) last =>
    (block (declares_stmts body)).append
      (handler.declares.append (block (declares_stmts last)))
  | .attempt body none last => (block (declares_stmts body)).append (block (declares_stmts last))
  | .loop test body => (test.declares n).append body.declares
  | .countLoop start test? update? body =>
    block (((start.declares.appendQuiet (declares_option n test?)).appendQuiet
      (declares_option n update?)).append body.declares)
  | .valueLoop head values body =>
    block (((head.declares n).appendQuiet (values.declares n)).append body.declares)
  | .variables kind declarators =>
    (ofKind n kind (namesOfDeclarators declarators)).appendQuiet
      (declares_declarators n declarators)
  | .resources declarators =>
    (declarations n (namesOfDeclarators declarators)).appendQuiet
      (declares_declarators n declarators)
  | .function m f => (declarations n [m]).appendQuiet (f.declares n)
  | .classDef m c => (declarations n [m]).appendQuiet (c.declares n)
  | .enumeration m _ => declarations n [m]
  | .container name? _ => declarations n name?.toList
  | .importNames locals => declarations n locals
  | .importAlias m => declarations n [m]
  | .exportNames values types => (references n values).append (references n types)
  | .exportDeclaration declaration => declaration.declares
  | .exportDefault e => exported e.declaredName?.toList (e.declares n)

theorem declares_stmts : ∀ statements : List Stmt,
    Declares n (misreadNamesOf statements) (lexicalNamesOf statements) (varNamesOf statements)
      (partsOfStmts statements)
  | [] => nil n
  | s :: ss => s.declares.append (declares_stmts ss)

theorem declares_cases : ∀ cases : List Case,
    Declares n (misreadNamesOfCases cases) (lexicalNamesOfCases cases) (varNamesOfCases cases)
      (partsOfCases cases)
  | [] => nil n
  | .mk test? statements :: cases =>
    ((declares_option n test?).append (declares_stmts statements)).append (declares_cases cases)

theorem Handler.declares : ∀ handler : Handler,
    Declares n [] [] handler.varNames handler.parts
  | .mk parameter statements =>
    block (((declarations n parameter.names).appendQuiet (parameter.declares n)).append
      (block (declares_stmts statements)))

end

end Trees

/-- The names that the language binds at the top of a module. -/
def boundNames (items : List Stmt) : List Name := lexicalNamesOf items ++ varNamesOf items

theorem varNamesOf_eq (items : List Stmt) : varNamesOf items = items.flatMap Stmt.varNames := by
  induction items with
  | nil => rfl
  | cons s items ih => rw [varNamesOf, ih, List.flatMap_cons]

/-- What a module binds is bound by its first items or by the others. -/
theorem boundNames_perm (k : Nat) (items : List Stmt) :
    (boundNames items).Perm (boundNames (items.take k) ++ boundNames (items.drop k)) := by
  rw [List.perm_iff_count]
  intro n
  conv_lhs => rw [← List.take_append_drop k items]
  simp only [boundNames, lexicalNamesOf, varNamesOf_eq, List.flatMap_append, List.count_append]
  omega

/-- But for names that are misread, a module declares what it binds. -/
theorem mem_topLevelNames_iff_bound {items : List Stmt} {n : Name}
    (h : n ∉ misreadNamesOf items) : n ∈ topLevelNames items ↔ n ∈ boundNames items := by
  obtain ⟨hdeclare, hhoist⟩ := declares_stmts n items
  rw [topLevelNames, Part.mem_declaredIn, hdeclare h, hhoist, boundNames, List.mem_append]
  simp

end ComponentBuild.Script
