import ComponentBuild.Script.Parser.Type

namespace ComponentBuild.Script

namespace Grammar

variable (g : Grammar)

/-- The context of a body. An arrow function has the `this` of what is around it. -/
def bodyContext (isAsync isGenerator arrow : Bool) (c : Context) : Context :=
  { c with
    topLevel := false, inAsync := isAsync, inGenerator := isGenerator, inFunction := true
    inStaticBlock := false, breakAllowed := false, continueAllowed := false
    ownThis := c.ownThis || !arrow }

/-- Runs the parser of a body, which sees no labels from outside. -/
def inBody {α : Type} (isAsync isGenerator arrow : Bool) (p : P α) : P α := do
  let labels := (← get).labels
  if (← context).ambient && (← isTypescript) && (← isMark .lbrace) then reportHere .ambientBody
  modify fun s => { s with labels := [] }
  let a ← within (bodyContext isAsync isGenerator arrow) p
  modify fun s => { s with labels }
  return a

/-- Where the directive for strict code stands, if the statements start with it. -/
def strictDirective? : List Stmt → Option Nat
  | .expr (.literal start text) :: statements =>
    if text == "\"use strict\"".toList || text == "'use strict'".toList then some start
    else if text.head? == some '\x22' || text.head? == some '\x27' then strictDirective? statements
    else none
  | _ => none

def checkDirective (simple : Bool) (statements : List Stmt) : P Unit := do
  match strictDirective? statements with
  | some start => if !simple then report .useStrictHere start
  | none => pure ()

/-- The statements of a body. With types a declaration may do without. -/
def blockBody (isAsync isGenerator simple : Bool) : P Body :=
  inBody isAsync isGenerator false do
    if (← isTypescript) && !(← isMark .lbrace) then
      if ← eatStatementEnd then return .absent
    let statements ← within (fun c => { c with inOperator := true }) g.block
    checkDirective simple statements
    return .block statements

def arrowBody (isAsync simple : Bool) : P Body :=
  inBody isAsync false true do
    if ← isMark .lbrace then
      let statements ← g.block
      checkDirective simple statements
      return .block statements
    return .expr (← g.assignment)

def allNames (parameters : List Pattern) : Bool := parameters.all Pattern.isName

/-- Parameters of a function without a body have no defaults. -/
def checkDefaults (parameters : List Pattern) : P Unit := do
  for p in parameters do
    match p with
    | .withDefault start _ _ => report .parameterInitializer start
    | _ => pure ()

/-- A function from its parameters on, which are read by the given parser. -/
def functionTail (isAsync isGenerator : Bool) (parameters : P (List Pattern)) : P Function :=
  within (fun c => { c with inAsync := isAsync, inGenerator := isGenerator }) do
    g.optionalTypeParameters false true
    expectMark .lparen
    let found ← within (fun c => { c with inParameters := true, inFunction := false }) parameters
    expectMark .rparen
    if (← isTypescript) && (← isMark .colon) then g.resultType .colon
    let body ← g.blockBody isAsync isGenerator (allNames found)
    if body matches .absent then checkDefaults found
    return .mk found body

/-- A function that is neither a method nor an arrow function, from the word `function` on: its
name, and whether it can be stopped on its way. -/
def functionFrom (isAsync : Bool) (name : (isGenerator : Bool) → P (Option Name)) :
    P (Option Name × Bool × Function) := do
  expectWord .function
  let isGenerator ← eatMark .star
  let n ← name isGenerator
  let f ← within (fun c => { c with superAllowed := false, inClassField := false })
    (g.functionTail isAsync isGenerator g.parameters)
  return (n, isGenerator || isAsync, f)

/-- A declaration of a function: whether it can be stopped on its way, too. -/
def functionDeclaration (isAsync : Bool) : P (Bool × Stmt) := do
  let (n, stops, f) ← g.functionFrom isAsync fun _ => do return some (← bindingIdent false).2
  return (stops, .function (n.getD []) f)

def functionExpression (start : Nat) (isAsync : Bool) : P Expr := do
  let (n, _, f) ← g.functionFrom isAsync fun isGenerator =>
    within (fun c => { c with inAsync := isAsync, inGenerator := isGenerator })
      (optionalBindingIdent false)
  match f with
  | .mk _ .absent => unexpected "\x7b"
  | _ => return .function start n f

def defaultFunction (start : Nat) (isAsync : Bool) : P Expr := do
  let (n, _, f) ← g.functionFrom isAsync fun _ => optionalBindingIdent false
  return .function start n f

inductive MethodKind where
  | ordinary
  | getter
  | setter
  deriving DecidableEq

/-- Parameters besides `this`, which only has a type. -/
def withoutThis (parameters : List Pattern) : List Pattern :=
  parameters.filter fun
    | .name _ n => n != Word.this.chars
    | _ => true

/-- The parameters of a method. A fault in their number shows at the key. -/
def methodParameters (kind : MethodKind) (keyStart : Nat) : P (List Pattern) := do
  let found ← g.parameters
  match kind with
  | .ordinary => pure ()
  | .getter => if !(withoutThis found).isEmpty then report .getterParameters keyStart
  | .setter =>
    if (withoutThis found).length != 1 then report .setterParameter keyStart
    match found with
    | .rest start _ :: _ => report .restInSetter start
    | _ => pure ()
  return found

def method (kind : MethodKind) (keyStart : Nat) (isAsync isGenerator : Bool) : P Function :=
  within (fun c => { c with superAllowed := true, inClassField := false })
    (g.functionTail isAsync isGenerator (g.methodParameters kind keyStart))

def genericAsyncArrow (start : Nat) : P (Option Expr) := do
  unless ← isMark .less do return none
  let head ← attempt do
    discard <| g.typeParameters false false
    expectMark .lparen
    let found ← g.parameters
    expectMark .rparen
    if ← isMark .colon then g.resultType .colon
    expectMark .arrow
    return some found
  match head with
  | none => return none
  | some found =>
    within (fun c => { c with inAsync := true, inGenerator := false }) do
      return some (.arrow start (.mk found (← g.arrowBody true (allNames found))))

end Grammar

end ComponentBuild.Script
