import ComponentBuild.Script.Tree

namespace ComponentBuild.Script

/-- What matters of a tree for its names. -/
inductive Part where
  | reference (n : Name)
  | declare (n : Name)
  /-- A declaration that counts in the nearest scope of a function. -/
  | hoist (n : Name)
  | scope (ofFunction : Bool) (parts : List Part)

namespace Part

mutual

/-- The names that leave a part for the function around it. -/
def hoisted : Part → List Name
  | .hoist n => [n]
  | .scope false parts => hoistedIn parts
  | _ => []

def hoistedIn : List Part → List Name
  | [] => []
  | part :: parts => part.hoisted ++ hoistedIn parts

end

/-- The names that a scope with the given parts declares. -/
def declaredIn (ofFunction : Bool) (parts : List Part) : List Name :=
  (parts.filterMap fun
    | .declare n => some n
    | _ => none) ++ if ofFunction then hoistedIn parts else []

mutual

/-- The names that a part refers to and does not declare itself. -/
def free : Part → List Name
  | .reference n => [n]
  | .scope ofFunction parts =>
    (freeIn parts).filter fun n => !(declaredIn ofFunction parts).contains n
  | _ => []

def freeIn : List Part → List Name
  | [] => []
  | part :: parts => part.free ++ freeIn parts

end

end Part

mutual

def Pattern.names : Pattern → List Name
  | .name _ n => [n]
  | .array _ elements => namesOfElements elements
  | .object _ properties => namesOfProperties properties
  | .withDefault _ left _ => left.names
  | .rest _ inner => inner.names
  | .hole => []
  | .target _ => []
  | .invalid _ => []

def namesOfElements : List Pattern → List Name
  | [] => []
  | element :: elements => element.names ++ namesOfElements elements

def namesOfProperties : List PatternProperty → List Name
  | [] => []
  | property :: properties => namesOfProperty property ++ namesOfProperties properties

def namesOfProperty : PatternProperty → List Name
  | .keyValue _ value => value.names
  | .shorthand _ n _ => [n]
  | .rest _ inner => inner.names

end

def namesOfDeclarators (declarators : List Declarator) : List Name :=
  declarators.flatMap fun | .mk target _ => target.names

def VariableKind.declare (kind : VariableKind) (n : Name) : Part :=
  if kind = .var then .hoist n else .declare n

mutual

def Expr.parts : Expr → List Part
  | .name _ n => [.reference n]
  | .array _ items _ => partsOfItems items
  | .object _ properties _ => partsOfProperties properties
  | .function _ (some n) f => [.scope false (.declare n :: f.parts)]
  | .function _ none f => f.parts
  | .classDef _ n c => [.scope false (n.toList.map Part.declare ++ c.parts)]
  | .arrow _ f => f.parts
  | .template _ holes => partsOfExprs holes
  | .tagged _ tag holes => tag.parts ++ partsOfExprs holes
  | .unary _ e => e.parts
  | .update _ e => e.parts
  | .binary _ _ left right => left.parts ++ right.parts
  | .assign _ _ target value => target.names.map Part.reference ++ target.parts ++ value.parts
  | .conditional _ test yes no => test.parts ++ yes.parts ++ no.parts
  | .member _ _ e => e.parts
  | .index _ _ e key => e.parts ++ key.parts
  | .call _ _ callee items => callee.parts ++ partsOfItems items
  | .construct _ _ callee items => callee.parts ++ partsOfItems items
  | .sequence _ es => partsOfExprs es
  | .yield _ (some e) => e.parts
  | .yield _ none => []
  | .await _ e => e.parts
  | .paren _ e => e.parts
  | .cast _ _ e => e.parts
  | .literal _ _ => []
  | .this _ => []
  | .super _ => []
  | .importer _ => []
  | .metaProperty _ => []
  | .privateName _ => []
  | .invalid _ => []

def partsOfExprs : List Expr → List Part
  | [] => []
  | e :: es => e.parts ++ partsOfExprs es

def partsOfItem : Item → List Part
  | .hole => []
  | .plain e => e.parts
  | .spread _ e => e.parts

def partsOfItems : List Item → List Part
  | [] => []
  | item :: items => partsOfItem item ++ partsOfItems items

def Key.parts : Key → List Part
  | .computed _ e => e.parts
  | .name _ _ => []
  | .string _ _ => []
  | .number _ => []
  | .privateName _ _ => []

def partsOfProperty : Property → List Part
  | .shorthand _ n => [.reference n]
  | .keyValue key value => key.parts ++ value.parts
  | .withDefault _ _ value => value.parts
  | .method _ key f => key.parts ++ f.parts
  | .spread _ e => e.parts

def partsOfProperties : List Property → List Part
  | [] => []
  | property :: properties => partsOfProperty property ++ partsOfProperties properties

/-- The outline of the expressions in a pattern. What its names mean depends on where it stands. -/
def Pattern.parts : Pattern → List Part
  | .name _ _ => []
  | .hole => []
  | .invalid _ => []
  | .array _ elements => partsOfPatterns elements
  | .object _ properties => partsOfPatternProperties properties
  | .withDefault _ left value => left.parts ++ value.parts
  | .rest _ inner => inner.parts
  | .target e => e.parts

def partsOfPatterns : List Pattern → List Part
  | [] => []
  | p :: ps => p.parts ++ partsOfPatterns ps

def partsOfPatternProperty : PatternProperty → List Part
  | .keyValue key value => key.parts ++ value.parts
  | .shorthand _ _ (some e) => e.parts
  | .shorthand _ _ none => []
  | .rest _ inner => inner.parts

def partsOfPatternProperties : List PatternProperty → List Part
  | [] => []
  | property :: properties =>
    partsOfPatternProperty property ++ partsOfPatternProperties properties

/-- A function is one scope, with the scope of its body inside. -/
def Function.parts : Function → List Part
  | .mk parameters body =>
    [.scope true ((namesOfElements parameters).map Part.declare ++ partsOfPatterns parameters ++
      body.parts)]

def Body.parts : Body → List Part
  | .block statements => [.scope false (partsOfStmts statements)]
  | .expr e => e.parts
  | .absent => []

def Class.parts : Class → List Part
  | .mk superClass? implemented members =>
    partsOfOption superClass? ++ partsOfExprs implemented ++ partsOfMembers members

def partsOfOption : Option Expr → List Part
  | some e => e.parts
  | none => []

def partsOfMember : Member → List Part
  | .constructor f => f.parts
  | .method key f => key.parts ++ f.parts
  | .field key value? => key.parts ++ partsOfOption value?
  | .staticBlock statements => [.scope true [.scope false (partsOfStmts statements)]]
  | .signature => []

def partsOfMembers : List Member → List Part
  | [] => []
  | member :: members => partsOfMember member ++ partsOfMembers members

/-- The expressions of declarations of variables. -/
def partsOfDeclarators : List Declarator → List Part
  | [] => []
  | .mk target value? :: declarators =>
    target.parts ++ partsOfOption value? ++ partsOfDeclarators declarators

def partsOfCases : List Case → List Part
  | [] => []
  | .mk test? statements :: cases =>
    partsOfOption test? ++ partsOfStmts statements ++ partsOfCases cases

def Handler.parts : Handler → List Part
  | .mk parameter statements =>
    [.scope false (parameter.names.map Part.declare ++ parameter.parts ++
      [.scope false (partsOfStmts statements)])]

def LoopHead.parts : LoopHead → List Part
  | .declaration kind declarators =>
    (namesOfDeclarators declarators).map kind.declare ++ partsOfDeclarators declarators
  | .resources declarators =>
    (namesOfDeclarators declarators).map Part.declare ++ partsOfDeclarators declarators
  | .target pattern => pattern.names.map Part.reference ++ pattern.parts

def Stmt.parts : Stmt → List Part
  | .empty => []
  | .jump => []
  | .types => []
  | .block statements => [.scope false (partsOfStmts statements)]
  | .expr e => e.parts
  | .branch test yes no => test.parts ++ yes.parts ++ no.parts
  | .result value? => partsOfOption value?
  | .throw e => e.parts
  | .labeled _ _ _ inner => inner.parts
  | .withObject e body => e.parts ++ body.parts
  | .switch e cases => e.parts ++ partsOfCases cases
  | .attempt body (some handler) last =>
    .scope false (partsOfStmts body) :: handler.parts ++ [.scope false (partsOfStmts last)]
  | .attempt body none last =>
    [.scope false (partsOfStmts body), .scope false (partsOfStmts last)]
  | .loop test body => test.parts ++ body.parts
  | .countLoop start test? update? body =>
    [.scope false (start.parts ++ partsOfOption test? ++ partsOfOption update? ++ body.parts)]
  | .valueLoop head values body => [.scope false (head.parts ++ values.parts ++ body.parts)]
  | .variables kind declarators =>
    (namesOfDeclarators declarators).map kind.declare ++ partsOfDeclarators declarators
  | .resources declarators =>
    (namesOfDeclarators declarators).map Part.declare ++ partsOfDeclarators declarators
  | .function n f => .declare n :: f.parts
  | .classDef n c => .declare n :: c.parts
  | .enumeration n _ => [.declare n]
  | .container n _ => n.toList.map Part.declare
  | .importNames locals => locals.map Part.declare
  | .importAlias n => [.declare n]
  | .exportNames values types => values.map Part.reference ++ types.map Part.reference
  | .exportDeclaration declaration => declaration.parts
  | .exportDefault e => e.parts

def partsOfStmts : List Stmt → List Part
  | [] => []
  | s :: ss => s.parts ++ partsOfStmts ss

end

/-- The names a module refers to and does not declare. -/
def globals (items : List Stmt) : List Name :=
  (Part.scope true (partsOfStmts items)).free

/-- The same names in the order of their characters, each once. -/
def sortedGlobals (items : List Stmt) : List Name :=
  (globals items).eraseDups.mergeSort fun a b => !decide (b < a)

/-- Whether a name is one that a module does not declare but refers to. -/
def isGlobal (items : List Stmt) (n : Name) : Bool := (globals items).contains n

end ComponentBuild.Script
