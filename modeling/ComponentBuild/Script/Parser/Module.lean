import ComponentBuild.Script.Parser.Statement

namespace ComponentBuild.Script

namespace Grammar

variable (g : Grammar)

/-- The name of what a module gives out: whether it is a string, where it stands, its characters. -/
def exportedName : P (Bool × Nat × Name) := do
  let token ← current
  if token.kind == .string then
    bump
    return (true, token.start, (token.text.drop 1).dropLast)
  unless token.kind.isWord do unexpected "identifier or string"
  let (start, n) ← identName
  return (false, start, n)

def importAttributes : P Unit := do
  if (← isTypescript) && !(← afterBreak) && ((← isWord .assert) || (← isWord .«with»)) then
    bump
    unless ← isMark .lbrace do failHere (.expected "\x7b" (← currentKind).describe)
    discard <| g.objectLiteral

def fromClause : P Unit := do
  expectWord .«from»
  unless ← isKind .string do unexpected "a string literal"
  bump
  g.importAttributes

/-- What an import of a type is called here, behind the word `type`. Nothing if that word was the
name of what is imported. -/
def typeSpecifier (typeOnly : Bool) (typeStart : Nat) : P (Option Name) := do
  unless (← isTypescript) && (← isAnyWord) do return none
  let misplaced : P Unit := if typeOnly then report .typeImportModifier typeStart else pure ()
  let (at_, n) ← identName
  if n != Word.as.chars then
    misplaced
    if ← eatWord .as then return some (← bindingIdent false).2
    if isReservedName n then fail .reservedImport at_
    return some n
  unless ← isAnyWord do
    misplaced
    return some n
  let (_, second) ← bindingIdent false
  if second == Word.as.chars && (← isAnyWord) then
    let (_, third) ← bindingIdent false
    misplaced
    return some third
  return some second

/-- One of the names that are imported in braces: what it is called here. -/
def importSpecifier (typeOnly : Bool) : P Name := do
  let (isString, start, n) ← exportedName
  if isString then
    if ← eatWord .as then return (← bindingIdent false).2
    fail (.importedString n) start
  if n == Word.type.chars then
    match ← typeSpecifier typeOnly start with
    | some n => return n
    | none => pure ()
  if ← eatWord .as then return (← bindingIdent false).2
  if isReservedName n then fail .reservedImport start
  return n

def specifiers {α : Type} (specifier : P α) : P (List α) := do
  let found ← repeatFrom [] fun found => do
    if ← isMark .rbrace then return .done found.reverse
    let found := (← specifier) :: found
    if ← isMark .rbrace then return .done found.reverse
    expectMark .comma
    return .again found
  expectMark .rbrace
  return found

/-- What another name stands for: a name with dots, or a module that is required. -/
def aliased : P Unit := do
  if (← isWord .require) && (← peekIsMark .lparen) then
    bump
    bump
    unless ← isKind .string do unexpected "a string literal"
    bump
    expectMark .rparen
  else dottedName false

def importAlias (n : Name) : P Stmt := do
  expectMark .assign
  aliased
  expectStatementEnd
  return .importAlias n

/-- When a module that is imported runs. -/
inductive ImportPhase where
  | evaluation
  | source
  | deferred
  deriving DecidableEq

/-- What stands between `import` and the other names: one name, or a word about the whole import.
An alias ends the import. -/
inductive ImportHead where
  | names (typeOnly : Bool) (phase : ImportPhase) (first? : Option Name)
  | whole (declaration : Stmt)

def importBinding : P Name := do
  return (← within (fun c => { c with inAsync := false, inGenerator := false })
    (bindingIdent false)).2

def startsNames : P Bool := return (← isMark .lbrace) || (← isMark .star)

/-- The word `type` in front of a name, and that name. -/
def typedImport (n : Name) : P (Bool × Name) := do
  if ← isVariable then
    if !(← isWord .«from») || (← peekIsWord .«from») then return (true, ← importBinding)
    if ← peekIsMark .assign then return (true, (← identName).2)
  return (false, n)

def importHead : P ImportHead := do
  unless ← isVariable do return .names false .evaluation none
  let n ← importBinding
  let isType := (← isTypescript) && n == Word.type.chars
  if isType && (← startsNames) then return .names true .evaluation none
  let (typeOnly, n) ← if isType then typedImport n else pure (false, n)
  if (← isTypescript) && (← isMark .assign) then return .whole (← importAlias n)
  let phase? :=
    if n == "source".toList then some ImportPhase.source
    else if n == "defer".toList then some .deferred
    else none
  let (phase, n) ←
    match phase? with
    | none => pure (ImportPhase.evaluation, n)
    | some phase =>
      if ← startsNames then return .names typeOnly phase none
      if ((← isVariable) && !(← isWord .«from»)) || (← peekIsWord .«from») then
        pure (phase, ← importBinding)
      else pure (.evaluation, n)
  unless ← isWord .«from» do expectMark .comma
  return .names typeOnly phase (some n)

/-- An import from the word on. In front of a dot or a parenthesis the word starts an
expression. -/
def importItem : P Stmt := do
  if (← peekIsMark .dot) || (← peekIsMark .lparen) then
    let e ← g.expression
    discard eatStatementEnd
    return .expr e
  bump
  if ← eatKind .string then
    g.importAttributes
    discard eatStatementEnd
    return .importNames []
  match ← importHead with
  | .whole declaration => return declaration
  | .names typeOnly phase first? =>
    let others ←
      if ← eatMarkIf (phase != .source) .star then
        expectWord .as
        pure [← importBinding]
      else if ← eatMarkIf (phase == .evaluation) .lbrace then
        specifiers (importSpecifier typeOnly)
      else pure []
    g.fromClause
    expectStatementEnd
    return .importNames (first?.toList ++ others)

structure ExportSpecifier where
  isString : Bool
  start : Nat
  name : Name
  typeOnly : Bool

/-- The type that is given out behind the word `type`. Nothing if that word was the name. -/
def typeExport (typeOnly : Bool) (typeStart : Nat) : P (Option ExportSpecifier) := do
  unless (← isTypescript) && (← isAnyWord) do return none
  let misplaced : P Unit := if typeOnly then report .typeExportModifier typeStart else pure ()
  let (start, n) ← identName
  let found : ExportSpecifier := ⟨false, start, n, true⟩
  if n != Word.as.chars then
    misplaced
    if ← eatWord .as then discard exportedName
    return some found
  unless ← isAnyWord do
    misplaced
    return some found
  let (_, second) ← identName
  if second == Word.as.chars && (← isAnyWord) then
    discard identName
    misplaced
    return some found
  return some ⟨false, typeStart, Word.type.chars, false⟩

def exportSpecifier (typeOnly : Bool) : P ExportSpecifier := do
  let (isString, start, n) ← exportedName
  if !isString && n == Word.type.chars then
    match ← typeExport typeOnly start with
    | some found => return found
    | none => pure ()
  if ← eatWord .as then discard exportedName
  return ⟨isString, start, n, typeOnly⟩

/-- Without another module the names are those of variables here. -/
def checkExports (found : List ExportSpecifier) : P Unit := do
  for s in found do
    if s.isString then report .exportedString s.start
    else if isReservedName s.name then report (.exportNeedsFrom s.name) s.start

/-- Names that are given out, in braces or all of another module. -/
def exportNames (typeOnly : Bool) : P Stmt := do
  if ← eatMark .star then
    if ← eatWord .as then discard exportedName
    g.fromClause
    expectStatementEnd
    return .exportNames [] []
  expectMark .lbrace
  let found ← specifiers (exportSpecifier typeOnly)
  if ← isWord .«from» then
    g.fromClause
    expectStatementEnd
    return .exportNames [] []
  checkExports found
  discard eatStatementEnd
  return .exportNames ((found.filter (!·.typeOnly)).map (·.name))
    ((found.filter (·.typeOnly)).map (·.name))

def exportDefault : P Stmt := do
  if ← isTypescript then
    if (← isWord .«abstract») && (← peekIsWord .«class») && (← peekOnLine) then
      bump
      return .exportDefault (← g.classExpression (← offset))
    if (← isWord .«abstract») && (← peekIsWord .interface) then
      reportHere .abstractHere
      bump
    if ← eatWord .interface then return ← g.interfaceDeclaration
  let start ← offset
  if ← isWord .«class» then return .exportDefault (← g.classExpression start)
  if (← isWord .async) && (← peekIsWord .function) && (← peekOnLine) then
    bump
    return .exportDefault (← g.defaultFunction start true)
  if ← isWord .function then return .exportDefault (← g.defaultFunction start false)
  let e ← g.fullAssignment
  expectStatementEnd
  return .exportDefault e

/-- What can only be given out with types. -/
def typedExport : P (Option Stmt) := do
  unless ← isTypescript do return none
  let start ← offset
  if ← eatWord .declare then
    match ← g.ambientDeclaration start with
    | some declaration => return some (.exportDeclaration declaration)
    | none => pure ()
  let token ← current
  if token.kind.isWord then
    match ← attempt (g.typedDeclaration token.text true) with
    | some declaration => return some (.exportDeclaration declaration)
    | none => pure ()
  if ← eatWord .«import» then
    if (← isWord .type) && (← peek).kind.isVariable then bump
    return some (← importAlias (← identName).2)
  if ← eatMark .assign then
    let e ← g.expression
    expectStatementEnd
    return some (.exportDefault e)
  if ← eatWord .as then
    expectWord .«namespace»
    discard <| ident
    expectStatementEnd
    return some .types
  return none

def exportedDeclaration : P (Option Stmt) := do
  match ← currentKind with
  | .word .«class» => return some (← g.classDeclaration)
  | .word .function => return some (← g.functionDeclaration false).2
  | .word .async =>
    unless (← peekIsWord .function) && (← peekOnLine) do return none
    bump
    return some (← g.functionDeclaration true).2
  | .word .const =>
    if (← isTypescript) && (← peekIsWord .enum) then
      bump
      bump
      return some (← g.enumDeclaration)
    return some (← g.variableStatement)
  | .word .var => return some (← g.variableStatement)
  | .word .«let» => if ← letDeclares then return some (← g.variableStatement) else return none
  | _ => return none

/-- An export from the word on. -/
def exportItem : P Stmt := do
  bump
  if ← isEnd then failHere .unexpectedEnd
  match ← g.typedExport with
  | some item => return item
  | none => pure ()
  let typeOnly ← eatWordIf (← isTypescript) .type
  if typeOnly then return ← g.exportNames true
  if ← eatWord .«default» then return ← g.exportDefault
  match ← g.exportedDeclaration with
  | some declaration => return .exportDeclaration declaration
  | none => g.exportNames false

/-- A statement; an item of a module, if told so. -/
def anyStatement (declarations item : Bool) : P Stmt := do
  let imports ← isWord .«import»
  if imports || (← isWord .«export») then
    if item then
      if imports then g.importItem else g.exportItem
    else
      unless imports && ((← peekIsMark .lparen) || (← peekIsMark .dot)) do
        failHere .importExportNested
      let e ← g.expression
      discard eatStatementEnd
      return .expr e
  else if item then within (fun c => { c with topLevel := true }) (g.plainStatement declarations)
  else g.plainStatement declarations

end Grammar

/-- The parsers with at most `n` levels of nesting. -/
def grammar : Nat → Grammar
  | 0 => .empty
  | n + 1 =>
    { expression := fun s => (grammar n).sequence s
      assignment := fun s => (grammar n).assignmentExpression s
      unary := fun s => (grammar n).unaryExpression s
      leftHand := fun s => (grammar n).leftHandSide s
      member := fun s => (grammar n).memberExpression s
      subscripts := fun e noCall noIndex s => (grammar n).subscriptsOf e noCall noIndex s
      binding := fun noLet s => (grammar n).bindingPattern noLet s
      type := fun s => (grammar n).wholeType s
      plainType := fun s => (grammar n).unconditionalType s
      typeOperator := fun s => (grammar n).operatorType s
      statement := fun declarations item s => (grammar n).anyStatement declarations item s
      block := fun s => (grammar n).blockStatements s
      ifStatement := fun s => (grammar n).ifChain s }

end ComponentBuild.Script
