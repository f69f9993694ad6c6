import ComponentBuild.Script.Parser.Expression

namespace ComponentBuild.Script

namespace Grammar

variable (g : Grammar)

/-- Reports the properties with defaults an expression shows. -/
def verify (e : Expr) : P Unit := do
  let strays := (← get).strayDefaults
  for start in (strays.filter (e.start ≤ ·)).reverse do report .assignmentProperty start
  modify fun s => { s with strayDefaults := strays.filter (· < e.start) }

/-- The statements up to a closing brace, each read by the given parser. -/
def statementsIn (statement : P Stmt) : P (List Stmt) := do
  let statements ← many do
    if ← isEnd then
      reportHere (.expected "\x7d" (← currentKind).describe)
      return none
    if ← isMark .rbrace then return none
    return some (← statement)
  discard <| eatMark .rbrace
  return statements

def blockStatements : P (List Stmt) := do
  expectMark .lbrace
  within (fun c => { c with topLevel := false }) (statementsIn (g.statement true false))

/-- The first value of a variable, where one can or has to be. -/
def firstValue (inLoop : Bool) (kind : VariableKind) (start : Nat) (target : Pattern) :
    P (Option Expr) := do
  if inLoop && ((← isWord .«in») || (← isWord .of)) then return none
  if ← eatMark .assign then
    let value ← g.assignment
    verify value
    return some value
  if (← context).ambient then return none
  if kind == .constant && !inLoop then report .constInitializer start
  else unless target.isName do fail .patternInitializer start
  return none

/-- A variable with its first value, and whether it has a type. -/
def declarator (inLoop : Bool) (kind : VariableKind) : P (Declarator × Bool) := do
  let start ← offset
  let target ← g.binding (kind != .var)
  if (← isTypescript) && target.isName then discard <| eatMark .bang
  let typed ← g.typeAnnotation
  return (.mk target (← g.firstValue inLoop kind start target), typed)

/-- Declarators up to the end of their list. `introduced` is where the word in front ends. -/
def declarators {α : Type} (introduced : Span) (declarator : P α) : P (List α) :=
  repeatFrom [] fun found => do
    if (← isMark .semicolon) || (← isEnd) then
      let before ← previousSpan
      report .trailingComma (if before == introduced then before.stop else before.start)
      return .done found.reverse
    let found := (← declarator) :: found
    return if ← eatMark .comma then .again found else .done found.reverse

/-- Leaves what follows a declaration, up to where it could end. -/
def skipToStatementEnd : P Unit :=
  repeatFrom () fun _ => do
    if ← eatStatementEnd then return .done ()
    bump
    return .again ()

/-- Whether a loop leaves its variable out. -/
def lacksVariable : P Bool := do
  unless (← isTypescript) && ((← isWord .«in») || (← isWord .of)) do return false
  let found ← settle <| lookAhead do
    bump
    discard <| g.assignment
    expectMark .rparen
  match found with
  | .ok _ => return true
  | .error _ => return false

/-- The variables a word such as `let` declares, from that word on. -/
def variableList (inLoop : Bool) : P (VariableKind × List (Declarator × Bool)) := do
  let kind :=
    match ← currentKind with
    | .word .const => VariableKind.constant
    | .word .«let» => .lexical
    | _ => .var
  bump
  let introduced ← previousSpan
  if inLoop && (← g.lacksVariable) then
    report .emptyDeclarationList introduced.stop
    return (kind, [])
  let declarator := g.declarator inLoop kind
  let found ← declarators introduced <|
    if kind != .var || !inLoop then within (fun c => { c with inOperator := true }) declarator
    else declarator
  unless inLoop do
    unless ← eatStatementEnd do
      reportHere .expectedSemicolon
      discard <| settle g.expression
      skipToStatementEnd
  return (kind, found)

def variableStatement : P Stmt := do
  let (kind, found) ← g.variableList false
  return .variables kind (found.map Prod.fst)

/-- Whether `let` declares variables, by the token behind it. -/
def letDeclares : P Bool := do
  match (← peek).kind with
  | .mark .lbrace | .mark .lbracket | .ident => return true
  | .word w => return !w.isReserved
  | _ => return false

/-- Variables disposed of at the end of their block, if the word `using` declares any. -/
def resourceStatement (start : Nat) : P (Option Stmt) := do
  let next ← peek
  if next.afterBreak || !next.kind.isVariable then return none
  bump
  let introduced ← previousSpan
  let found ← declarators introduced (Prod.fst <$> g.declarator false .var)
  unless ← isTypescript do report .usingDisabled start
  for d in found do
    match d with
    | .mk target value? =>
      unless target.isName do report .usingPattern start
      unless value?.isSome do report .usingInitializer start
  expectStatementEnd
  return some (.resources found)

/-- The head of a loop: its first statement, or what it goes through. -/
inductive Head where
  | count (start : Stmt) (test? update? : Option Expr)
  | values (head : LoopHead) (values : Expr) (isOf : Bool)

/-- The values of a loop behind what they are assigned to. -/
def valuesHead (head : LoopHead) : P Head := do
  let isOf ← isWord .of
  bump
  let values ← if isOf then g.fullAssignment else g.fullExpression
  return .values head values isOf

def countHead (start : Stmt) : P Head := do
  let test? ←
    if ← eatMark .semicolon then pure none
    else
      let test ← g.fullExpression
      discard <| eatMark .semicolon
      pure (some test)
  let update? ← if ← isMark .rparen then pure none else some <$> g.fullExpression
  return .count start test? update?

def isLoopWord : P Bool := return (← isWord .of) || (← isWord .«in»)

/-- One variable, and without a value or a type, takes the values of a loop. -/
def checkLoopVariables : List (Declarator × Bool) → P Unit
  | [(.mk target value?, typed)] => do
    if value?.isSome then report .loopVariableInitializer target.start
    if typed && (← isTypescript) then report .loopVariableType target.start
  | found => do
    for (d, _) in found.drop 1 do
      match d with
      | .mk target _ => report .tooManyLoopVariables target.start

def expressionHead : P Head := do
  let start ← offset
  let first ← within (fun c => { c with inOperator := false }) g.expression
  let usesWord : Expr → Bool
    | .name _ n => n == Word.«using».chars
    | .await _ (.name _ n) => n == Word.«using».chars
    | _ => false
  if (← isTypescript) && usesWord first && !(← isWord .of) &&
      ((← peekIsWord .of) || (← peekIsWord .«in»)) then
    let (at_, n) ← bindingIdent false
    if ← isWord .«in» then report .usingIn start
    return ← g.valuesHead (.resources [.mk (.name at_ n) none])
  if ← isLoopWord then
    let isIn ← isWord .«in»
    let target ← first.toTarget
    match target with
    | .name _ _ | .target _ => pure ()
    | p => if (← isTypescript) && isIn then report .loopTargetPattern p.start
    return ← g.valuesHead (.target target)
  expectMark .semicolon
  verify first
  g.countHead (.expr first)

def loopHead : P Head := do
  let declares ←
    if (← isWord .const) || (← isWord .var) then pure true
    else if ← isWord .«let» then letDeclares
    else pure false
  if declares then
    let (kind, found) ← g.variableList true
    if ← isLoopWord then
      checkLoopVariables found
      return ← g.valuesHead (.declaration kind (found.map Prod.fst))
    expectMark .semicolon
    return ← g.countHead (.variables kind (found.map Prod.fst))
  if ← eatMark .semicolon then return ← g.countHead .empty
  g.expressionHead

def loopBody : P Stmt :=
  within (fun c => { c with breakAllowed := true, continueAllowed := true }) (g.statement false false)

def forStatement : P Stmt := do
  bump
  let awaitStart ← offset
  let awaits ← eatWord .await
  expectMark .lparen
  let head ← within (fun c => { c with loopHead := true, awaitLoopHead := awaits }) g.loopHead
  expectMark .rparen
  let body ← g.loopBody
  match head with
  | .count start test? update? =>
    if awaits then fail .awaitForLoop awaitStart
    return .countLoop start test? update? body
  | .values head values isOf =>
    if awaits && !isOf then fail .awaitForLoop awaitStart
    return .valueLoop head values body

def parenthesized : P Expr := do
  expectMark .lparen
  let e ← g.fullExpression
  expectMark .rparen
  return e

def whileStatement : P Stmt := do
  bump
  let test ← g.parenthesized
  return .loop test (← g.loopBody)

def doStatement : P Stmt := do
  bump
  let body ← g.loopBody
  expectWord .«while»
  let test ← g.parenthesized
  discard eatStatementEnd
  return .loop test body

/-- A choice. Behind `else if` the choice further out takes the next `else`. -/
def ifChain : P Stmt := do
  bump
  let test ← within (fun c => { c with elseTaken := false }) g.parenthesized
  let yes ← within (fun c => { c with elseTaken := false }) (g.statement false false)
  if (← context).elseTaken then return .branch test yes .empty
  let rest ← repeatFrom [] fun found => do
    unless ← eatWord .«else» do return .done found.reverse
    if ← isWord .«if» then
      let next ← within (fun c => { c with elseTaken := true }) g.ifStatement
      return .again (next :: found)
    let last ← within (fun c => { c with elseTaken := false }) (g.statement false false)
    return .done (last :: found).reverse
  return .branch test yes (rest.foldr joined .empty)
where
  joined (part last : Stmt) : Stmt :=
    match part with
    | .branch test yes .empty => .branch test yes last
    | part => part

def switchStatement : P Stmt := do
  bump
  let value ← g.parenthesized
  expectMark .lbrace
  let cases ← within (fun c => { c with breakAllowed := true }) <|
    repeatFrom ([], false) fun (cases, hasDefault) => do
      let isCase ← isWord .case
      unless isCase || (← isWord .«default») do return .done cases.reverse
      bump
      let test? ←
        if isCase then some <$> g.fullExpression
        else if hasDefault then failHere .multipleDefaults
        else pure none
      expectMark .colon
      let statements ← within (fun c => { c with topLevel := false }) <| many do
        if (← isWord .case) || (← isWord .«default») || (← isMark .rbrace) || (← isEnd) then
          return none
        return some (← g.statement true false)
      return .again (.mk test? statements :: cases, hasDefault || !isCase)
  expectMark .rbrace
  return .switch value cases

def jumpStatement : P Stmt := do
  let start ← offset
  let isBreak ← isWord .«break»
  bump
  let label? ←
    if ← eatStatementEnd then pure none
    else
      let (_, n) ← ident
      expectStatementEnd
      pure (some n)
  let c ← context
  let unknown := label?.any (!(← get).labels.contains ·)
  if isBreak then
    if unknown then report .breakTarget start
    else if !c.breakAllowed then report .breakOutside start
  else if !c.continueAllowed then report .continueTarget start
  else if unknown then report .jumpAcrossFunction start
  return .jump

def returnStatement : P Stmt := do
  let start ← offset
  bump
  let value? ← if ← isStatementEnd then pure none else some <$> g.fullExpression
  expectStatementEnd
  unless (← context).inFunction do report .returnNotAllowed start
  return .result value?

def throwStatement : P Stmt := do
  bump
  if ← afterBreak then failHere .breakInThrow
  let value ← g.fullExpression
  expectStatementEnd
  return .throw value

def withStatement : P Stmt := do
  if ← isTypescript then reportHere .withUnsupported
  reportHere .withInStrict
  bump
  let whole ← g.parenthesized
  return .withObject whole (← within (fun c => { c with inFunction := true })
    (g.statement false false))

def catchClause : P (Option Handler) := do
  unless ← eatWord .«catch» do return none
  let parameter ←
    if ← eatMark .lparen then
      let p ← g.binding false
      discard <| g.typeAnnotation
      expectMark .rparen
      pure p
    else pure .hole
  return some (.mk parameter (← g.block))

def finallyBlock : P (Option (List Stmt)) := do
  unless ← eatWord .«finally» do return none
  return some (← g.block)

def tryStatement : P Stmt := do
  bump
  let body ← g.block
  let start ← offset
  let handler? ← g.catchClause
  let last? ← g.finallyBlock
  if handler?.isNone && last?.isNone then report .expectedSemicolon start
  return .attempt body handler? (last?.getD [])

/-- What belongs behind `try`, without it. -/
def strayHandler : P Stmt := do
  reportHere .expectedSemicolon
  discard <| settle g.catchClause
  discard <| settle g.finallyBlock
  return .expr (.invalid (← offset))

def labeledStatement (start : Nat) (label : Name) : P Stmt :=
  within (fun c => { c with breakAllowed := true }) do
    let labels := (← get).labels
    modify fun s => { s with labels := labels ++ [label] }
    let bodyStart ← offset
    let inner ←
      if ← isWord .function then
        let (stops, f) ← g.functionDeclaration false
        report .labelledFunction bodyStart
        if stops then report .labelledGenerator bodyStart
        pure f
      else g.statement false false
    if labels.contains label then report (.duplicateLabel label) start
    modify fun s => { s with labels := s.labels.erase label }
    let stop := (← previousSpan).stop
    return .labeled ⟨start, stop⟩ ⟨bodyStart, stop⟩ label inner

def containerBlock : P (List Stmt) := do
  expectMark .lbrace
  within (fun c => { c with topLevel := false }) (statementsIn (g.statement true true))

/-- A namespace from its name on. Further names behind dots are inside of the first one. -/
def namespaceDeclaration : P Stmt := do
  let (_, n) ← identName
  let inner ← many do
    if ← eatMark .dot then return some (← identName).2 else return none
  let statements ← g.containerBlock
  return .container (some n) (inner.foldr (fun n body => [.container (some n) body]) statements)

/-- A module that is named by a string, or the global scope. -/
def ambientModule : P Stmt := do
  if ← isWord .global then bump
  else
    match ← currentKind with
    | .string => bump
    | _ => unexpected "global or a string literal"
  if ← isMark .lbrace then return .container none (← g.containerBlock)
  expectStatementEnd
  return .container none []

/-- The declaration that a word starts; `behind` if the word is still the current token. -/
def typedDeclaration (word : Name) (behind : Bool) : P (Option Stmt) := do
  let leave : P Unit := if behind then bump else pure ()
  match Word.ofChars? word with
  | some .«abstract» =>
    unless behind || ((← isWord .«class») && !(← afterBreak)) do return none
    leave
    return some (← g.classDeclaration)
  | some .enum =>
    unless behind || (← isVariable) do return none
    leave
    return some (← g.enumDeclaration)
  | some .interface =>
    unless behind || (← isVariable) do return none
    leave
    return some (← g.interfaceDeclaration)
  | some .«module» =>
    if ← afterBreak then return none
    leave
    if ← isKind .string then return some (← g.ambientModule)
    unless behind || (← isVariable) do return none
    return some (← g.namespaceDeclaration)
  | some .«namespace» =>
    unless behind || (← isVariable) do return none
    leave
    return some (← g.namespaceDeclaration)
  | some .type =>
    unless behind || (!(← afterBreak) && (← isVariable)) do return none
    leave
    return some (← g.aliasDeclaration)
  | _ => return none

/-- A declaration of what exists elsewhere, behind the word `declare` at `start`. -/
def ambientDeclaration (start : Nat) : P (Option Stmt) := do
  if (← context).ambient then report .declareTwice start
  within (fun c => { c with ambient := true }) do
    match ← currentKind with
    | .word .function => return some (← g.functionDeclaration false).2
    | .word .«class» => return some (← g.classDeclaration)
    | .word .const =>
      if ← peekIsWord .enum then
        bump
        bump
        return some (← g.enumDeclaration)
      return some (← g.variableStatement)
    | .word .var | .word .«let» => return some (← g.variableStatement)
    | .word .global => return some (← g.ambientModule)
    | kind =>
      if kind.isWord then g.typedDeclaration (← current).text true else return none

/-- The declaration that an expression with one name starts. -/
def declarationBehind (start : Nat) (n : Name) : P (Option Stmt) := do
  unless ← isTypescript do return none
  if n == Word.declare.chars then g.ambientDeclaration start
  else if n == Word.global.chars then
    if ← isMark .lbrace then return some (.container (some n) (← g.containerBlock)) else return none
  else g.typedDeclaration n false

def expressionStatement : P Stmt := do
  let e ← g.fullExpression
  match e with
  | .name start n =>
    if ← eatMark .colon then return ← g.labeledStatement start n
    if n == Word.interface.chars && (← afterBreak) then
      report (.strictIdent n) start
      discard eatStatementEnd
      return .expr e
    match ← g.declarationBehind start n with
    | some declaration => return declaration
    | none => pure ()
    let modifies := [Word.«public», .static, .«abstract»].any (·.chars == n)
    if ← eatWordIf ((← isTypescript) && modifies) .interface then
      report .interfaceName start
      return ← g.interfaceDeclaration
  | _ => verify e
  if ← eatStatementEnd then return .expr e
  if ← isOperator then
    reportHere .expectedSemicolon
    return .expr (← g.binaryFrom e)
  failHere .expectedStatementEnd

/-- A declaration of types that a word starts if a name follows on its line. -/
def typeStatement? : P (Option Stmt) := do
  unless ← isTypescript do return none
  let next ← peek
  if next.afterBreak || !next.kind.isVariable then return none
  match ← currentKind with
  | .word .interface =>
    bump
    return some (← g.interfaceDeclaration)
  | .word .type =>
    bump
    return some (← g.aliasDeclaration)
  | .word .enum =>
    bump
    return some (← g.enumDeclaration)
  | _ => return none

def wordStatement? (declarations : Bool) (w : Word) : P (Option Stmt) := do
  match w with
  | .const =>
    if (← isTypescript) && (← peekIsWord .enum) then
      bump
      bump
      return some (← g.enumDeclaration)
    if declarations then some <$> g.variableStatement else return none
  | .«break» | .«continue» => some <$> jumpStatement
  | .debugger =>
    bump
    expectStatementEnd
    return some .empty
  | .«do» => some <$> g.doStatement
  | .«for» => some <$> g.forStatement
  | .function =>
    unless declarations do reportHere .declarationNotAllowed
    return some (← g.functionDeclaration false).2
  | .«class» =>
    unless declarations do reportHere .declarationNotAllowed
    some <$> g.classDeclaration
  | .«if» => some <$> g.ifStatement
  | .«return» => some <$> g.returnStatement
  | .switch => some <$> g.switchStatement
  | .throw => some <$> g.throwStatement
  | .«catch» | .«finally» => some <$> g.strayHandler
  | .«try» => some <$> g.tryStatement
  | .«with» => some <$> g.withStatement
  | .«while» => some <$> g.whileStatement
  | .var => some <$> g.variableStatement
  | .«let» => if declarations && (← letDeclares) then some <$> g.variableStatement else return none
  | .await =>
    unless (declarations || (← context).topLevel) && (← peekIsWord .«using») do return none
    let start ← offset
    attemptResource start
  | .«using» => if declarations then g.resourceStatement (← offset) else return none
  | .async =>
    let next ← peek
    unless next.kind == .word .function && !next.afterBreak do return none
    bump
    return some (← g.functionDeclaration true).2
  | _ => return none
where
  /-- `await using`, unless `using` turns out to be a name. -/
  attemptResource (start : Nat) : P (Option Stmt) := do
    let s ← get
    bump
    match ← g.resourceStatement start with
    | some statement => return some statement
    | none =>
      set s
      return none

def plainStatement (declarations : Bool) : P Stmt :=
  within (fun c => { c with colonExpected := false }) do
    match ← currentKind with
    | .word w =>
      match ← g.wordStatement? declarations w with
      | some statement => return statement
      | none => pure ()
      match ← g.typeStatement? with
      | some statement => return statement
      | none => g.expressionStatement
    | .mark .lbrace => return .block (← g.block)
    | .mark .semicolon =>
      bump
      return .empty
    | _ => g.expressionStatement

end Grammar

end ComponentBuild.Script
