import ComponentBuild.Script.Scope

namespace ComponentBuild.Script

mutual

/-- The names that a statement declares by `var`, for the function or module around it. -/
def Stmt.varNames : Stmt → List Name
  | .block statements => varNamesOf statements
  | .branch _ yes no => yes.varNames ++ no.varNames
  | .labeled _ _ _ inner => inner.varNames
  | .withObject _ body => body.varNames
  | .switch _ cases => varNamesOfCases cases
  | .attempt body (some handler) last => varNamesOf body ++ (handler.varNames ++ varNamesOf last)
  | .attempt body none last => varNamesOf body ++ varNamesOf last
  | .loop _ body => body.varNames
  | .countLoop start _ _ body => start.varNames ++ body.varNames
  | .valueLoop head _ body => head.varNames ++ body.varNames
  | .variables kind declarators => if kind = .var then namesOfDeclarators declarators else []
  | .exportDeclaration declaration => declaration.varNames
  | _ => []

def varNamesOf : List Stmt → List Name
  | [] => []
  | s :: ss => s.varNames ++ varNamesOf ss

def varNamesOfCases : List Case → List Name
  | [] => []
  | .mk _ statements :: cases => varNamesOf statements ++ varNamesOfCases cases

def Handler.varNames : Handler → List Name
  | .mk _ statements => varNamesOf statements

def LoopHead.varNames : LoopHead → List Name
  | .declaration kind declarators => if kind = .var then namesOfDeclarators declarators else []
  | _ => []

end

def Body.varNames : Body → List Name
  | .block statements => varNamesOf statements
  | _ => []

/-- The name of a function or a class that is exported without a name for it. -/
def Expr.declaredName? : Expr → Option Name
  | .function _ name? _ => name?
  | .classDef _ name? _ => name?
  | _ => none

/-- The names that a statement declares for the block around it. -/
def Stmt.lexicalNames : Stmt → List Name
  | .branch _ yes no => yes.lexicalNames ++ no.lexicalNames
  | .labeled _ _ _ inner => inner.lexicalNames
  | .withObject _ body => body.lexicalNames
  | .loop _ body => body.lexicalNames
  | .variables kind declarators => if kind = .var then [] else namesOfDeclarators declarators
  | .resources declarators => namesOfDeclarators declarators
  | .function n _ => [n]
  | .classDef n _ => [n]
  | .enumeration n _ => [n]
  | .container name? _ => name?.toList
  | .importNames locals => locals
  | .importAlias n => [n]
  | .exportDeclaration declaration => declaration.lexicalNames
  | .exportDefault e => e.declaredName?.toList
  | _ => []

def lexicalNamesOf (statements : List Stmt) : List Name := statements.flatMap Stmt.lexicalNames

/-- The cases of a switch are one block. -/
def lexicalNamesOfCases (cases : List Case) : List Name :=
  cases.flatMap fun | .mk _ statements => lexicalNamesOf statements

def LoopHead.lexicalNames : LoopHead → List Name
  | .declaration kind declarators => if kind = .var then [] else namesOfDeclarators declarators
  | .resources declarators => namesOfDeclarators declarators
  | .target _ => []

/-- Where a name matters. -/
inductive Place where
  /-- A reference to a value, with what the scopes around it declare, the inmost first. -/
  | use (n : Name) (scopes : List (List Name))
  /-- A name of which a construct leaves it unsettled whether it is bound there. -/
  | unsettled (n : Name)

/-- The name of a use that no scope binds. -/
def Place.unbound? : Place → Option Name
  | .use n scopes => if scopes.any (·.contains n) then none else some n
  | .unsettled _ => none

/-- The names in doubt where it is unsettled whether the uses at some places count. -/
def doubts (places : List Place) : List Place :=
  places.filterMap fun
    | .use n scopes => (Place.use n scopes).unbound?.map Place.unsettled
    | .unsettled n => some (.unsettled n)

def usesOf (scopes : List (List Name)) (names : List Name) : List Place :=
  names.map fun n => .use n scopes

section

-- Whether the parameters of a function see the `var`s of its body.
variable (shared : Bool)

mutual

def Expr.places (scopes : List (List Name)) : Expr → List Place
  | .name _ n => [.use n scopes]
  | .array _ items _ => placesOfItems scopes items
  | .object _ properties _ => placesOfProperties scopes properties
  | .function _ (some n) f => f.places ([n] :: scopes)
  | .function _ none f => f.places scopes
  | .classDef _ name? c => c.places (name?.toList :: scopes)
  | .arrow _ f => f.places scopes
  | .template _ holes => placesOfExprs scopes holes
  | .tagged _ tag holes => tag.places scopes ++ placesOfExprs scopes holes
  | .unary _ e => e.places scopes
  | .update _ e => e.places scopes
  | .binary _ _ left right => left.places scopes ++ right.places scopes
  | .assign _ _ target value =>
    usesOf scopes target.names ++ target.places scopes ++ value.places scopes
  | .conditional _ test yes no => test.places scopes ++ yes.places scopes ++ no.places scopes
  | .member _ _ e => e.places scopes
  | .index _ _ e key => e.places scopes ++ key.places scopes
  | .call _ _ callee items => callee.places scopes ++ placesOfItems scopes items
  | .construct _ _ callee items => callee.places scopes ++ placesOfItems scopes items
  | .sequence _ es => placesOfExprs scopes es
  | .yield _ value? => placesOfOption scopes value?
  | .await _ e => e.places scopes
  | .paren _ e => e.places scopes
  | .cast _ _ e => e.places scopes
  | .literal _ _ => []
  | .this _ => []
  | .super _ => []
  | .importer _ => []
  | .metaProperty _ => []
  | .privateName _ => []
  | .invalid _ => []

def placesOfExprs (scopes : List (List Name)) : List Expr → List Place
  | [] => []
  | e :: es => e.places scopes ++ placesOfExprs scopes es

def placesOfOption (scopes : List (List Name)) : Option Expr → List Place
  | none => []
  | some e => e.places scopes

def placesOfItem (scopes : List (List Name)) : Item → List Place
  | .hole => []
  | .plain e => e.places scopes
  | .spread _ e => e.places scopes

def placesOfItems (scopes : List (List Name)) : List Item → List Place
  | [] => []
  | item :: items => placesOfItem scopes item ++ placesOfItems scopes items

def Key.places (scopes : List (List Name)) : Key → List Place
  | .computed _ e => e.places scopes
  | .name _ _ => []
  | .string _ _ => []
  | .number _ => []
  | .privateName _ _ => []

def placesOfProperty (scopes : List (List Name)) : Property → List Place
  | .shorthand _ n => [.use n scopes]
  | .keyValue key value => key.places scopes ++ value.places scopes
  | .withDefault _ _ value => value.places scopes
  | .method _ key f => key.places scopes ++ f.places scopes
  | .spread _ e => e.places scopes

def placesOfProperties (scopes : List (List Name)) : List Property → List Place
  | [] => []
  | property :: properties =>
    placesOfProperty scopes property ++ placesOfProperties scopes properties

/-- The uses in the expressions of a pattern. Its own names are told where it stands. -/
def Pattern.places (scopes : List (List Name)) : Pattern → List Place
  | .name _ _ => []
  | .hole => []
  | .invalid _ => []
  | .array _ elements => placesOfPatterns scopes elements
  | .object _ properties => placesOfPatternProperties scopes properties
  | .withDefault _ left value => left.places scopes ++ value.places scopes
  | .rest _ inner => inner.places scopes
  | .target e => e.places scopes

def placesOfPatterns (scopes : List (List Name)) : List Pattern → List Place
  | [] => []
  | p :: ps => p.places scopes ++ placesOfPatterns scopes ps

def placesOfPatternProperty (scopes : List (List Name)) : PatternProperty → List Place
  | .keyValue key value => key.places scopes ++ value.places scopes
  | .shorthand _ _ value? => placesOfOption scopes value?
  | .rest _ inner => inner.places scopes

def placesOfPatternProperties (scopes : List (List Name)) : List PatternProperty → List Place
  | [] => []
  | property :: properties =>
    placesOfPatternProperty scopes property ++ placesOfPatternProperties scopes properties

/-- The body sees its `var`s and the parameters. -/
def Function.places (scopes : List (List Name)) : Function → List Place
  | .mk parameters body =>
    let names := namesOfElements parameters
    let seen := if shared then names ++ body.varNames else names
    placesOfPatterns (seen :: scopes) parameters ++
      body.places (body.varNames :: names :: scopes)

def Body.places (scopes : List (List Name)) : Body → List Place
  | .block statements => placesOfStmts (lexicalNamesOf statements :: scopes) statements
  | .expr e => e.places scopes
  | .absent => []

/-- What a class implements is a type. That it is written like an expression leaves its names
unsettled. -/
def Class.places (scopes : List (List Name)) : Class → List Place
  | .mk superClass? implemented members =>
    placesOfOption scopes superClass? ++ doubts (placesOfExprs scopes implemented) ++
      placesOfMembers scopes members

def placesOfMember (scopes : List (List Name)) : Member → List Place
  | .constructor f => f.places scopes
  | .method key f => key.places scopes ++ f.places scopes
  | .field key value? => key.places scopes ++ placesOfOption scopes value?
  | .staticBlock statements =>
    placesOfStmts (lexicalNamesOf statements :: varNamesOf statements :: scopes) statements
  | .signature => []

def placesOfMembers (scopes : List (List Name)) : List Member → List Place
  | [] => []
  | member :: members => placesOfMember scopes member ++ placesOfMembers scopes members

def placesOfDeclarators (scopes : List (List Name)) : List Declarator → List Place
  | [] => []
  | .mk target value? :: declarators =>
    target.places scopes ++ placesOfOption scopes value? ++ placesOfDeclarators scopes declarators

def placesOfCases (scopes : List (List Name)) : List Case → List Place
  | [] => []
  | .mk test? statements :: cases =>
    placesOfOption scopes test? ++ placesOfStmts scopes statements ++ placesOfCases scopes cases

def Handler.places (scopes : List (List Name)) : Handler → List Place
  | .mk parameter statements =>
    parameter.places (parameter.names :: scopes) ++
      placesOfStmts (lexicalNamesOf statements :: parameter.names :: scopes) statements

def LoopHead.places (scopes : List (List Name)) : LoopHead → List Place
  | .declaration _ declarators => placesOfDeclarators scopes declarators
  | .resources declarators => placesOfDeclarators scopes declarators
  | .target pattern => usesOf scopes pattern.names ++ pattern.places scopes

/-- A name is unsettled if the block of a switch declares it, if a default export does, if it is
given out as a type, and if it is used in an enumeration or a namespace. -/
def Stmt.places (scopes : List (List Name)) : Stmt → List Place
  | .empty => []
  | .jump => []
  | .types => []
  | .block statements => placesOfStmts (lexicalNamesOf statements :: scopes) statements
  | .expr e => e.places scopes
  | .branch test yes no => test.places scopes ++ yes.places scopes ++ no.places scopes
  | .result value? => placesOfOption scopes value?
  | .throw e => e.places scopes
  | .labeled _ _ _ inner => inner.places scopes
  | .withObject e body => e.places scopes ++ body.places scopes
  | .switch e cases =>
    e.places scopes ++ placesOfCases (lexicalNamesOfCases cases :: scopes) cases ++
      (lexicalNamesOfCases cases).map Place.unsettled
  | .attempt body (some handler) last =>
    placesOfStmts (lexicalNamesOf body :: scopes) body ++ (handler.places scopes ++
      placesOfStmts (lexicalNamesOf last :: scopes) last)
  | .attempt body none last =>
    placesOfStmts (lexicalNamesOf body :: scopes) body ++
      placesOfStmts (lexicalNamesOf last :: scopes) last
  | .loop test body => test.places scopes ++ body.places scopes
  | .countLoop start test? update? body =>
    let inner := (start.lexicalNames ++ body.lexicalNames) :: scopes
    start.places inner ++ placesOfOption inner test? ++ placesOfOption inner update? ++
      body.places inner
  | .valueLoop head values body =>
    let inner := (head.lexicalNames ++ body.lexicalNames) :: scopes
    head.places inner ++ values.places inner ++ body.places inner
  | .variables _ declarators => placesOfDeclarators scopes declarators
  | .resources declarators => placesOfDeclarators scopes declarators
  | .function _ f => f.places scopes
  | .classDef _ c => c.places scopes
  | .enumeration _ values =>
    placesOfExprs scopes values ++ doubts (placesOfExprs scopes values)
  | .container _ statements =>
    let inner := lexicalNamesOf statements :: varNamesOf statements :: scopes
    placesOfStmts inner statements ++ doubts (placesOfStmts inner statements)
  | .importNames _ => []
  | .importAlias _ => []
  | .exportNames values types => usesOf scopes values ++ doubts (usesOf scopes types)
  | .exportDeclaration declaration => declaration.places scopes
  | .exportDefault e => e.places scopes ++ e.declaredName?.toList.map Place.unsettled

def placesOfStmts (scopes : List (List Name)) : List Stmt → List Place
  | [] => []
  | s :: ss => s.places scopes ++ placesOfStmts scopes ss

end

/-- The places in the items of a module. -/
def modulePlaces (items : List Stmt) : List Place :=
  placesOfStmts shared [lexicalNamesOf items, varNamesOf items] items

/-- The names that a module uses and binds nowhere around the use. -/
def unboundNames (items : List Stmt) : List Name :=
  (modulePlaces shared items).filterMap Place.unbound?

end

def unsettledNames (items : List Stmt) : List Name :=
  (modulePlaces true items).filterMap fun
    | .use _ _ => none
    | .unsettled n => some n

end ComponentBuild.Script
