import ComponentBuild.Script.Parser.Primary

namespace ComponentBuild.Script

namespace Grammar

variable (g : Grammar)

def isTemplate : P Bool := do
  match ← currentKind with
  | .template _ _ => return true
  | _ => return false

def template (strict : Bool) : P (List Expr) := templateOf g.fullExpression strict

def arguments (imports : Bool) : P (List Item) :=
  within (fun c => { c with colonExpected := false }) do
    let start ← offset
    expectMark .lparen
    let items ← repeatFrom ([], true) fun (items, first) => do
      if ← isMark .rparen then return .done items.reverse
      unless first do expectMark .comma
      if !first && (← isMark .rparen) then
        if imports && !(← isTypescript) then fail .trailingCommaInImport start
        return .done items.reverse
      let item ← within (fun c => { c with inOperator := true }) g.spreadOrPlain
      return .again (item :: items, false)
    expectMark .rparen
    return items

/-- Whether a property of `super` can be read here. -/
def checkSuper (start : Nat) (chained noCall : Bool) : P Unit := do
  if !(← context).superAllowed && !(← isTypescript) then fail .invalidSuper start
  if chained then fail (if noCall then .invalidSuperCall else .invalidSuper) start

/-- An expression with types for it, in front of what can take them. -/
def instantiated (e : Expr) : P Expr := do
  unless ← isTypescript do return e
  if ← g.instantiation then return .cast e.start .instantiation e
  return e

def tagged (tag : Expr) : P Expr := do
  let holes ← g.template false
  if tag.isChain then report .taggedOptionalChain tag.start
  return .tagged tag.start tag holes

/-- What types in angle brackets make of the expression in front of them, if they are any. -/
def typedSubscript (callee : Expr) (noCall : Bool) : P (Option Expr) := do
  unless (← isTypescript) && (← isOpener) do return none
  attempt do
    if !noCall && isAsyncWord callee && !(← afterBreak) then
      match ← g.genericAsyncArrow callee.start with
      | some whole => return some whole
      | none => pure ()
    g.typeArguments
    if !noCall && (← isMark .lparen) then
      let items ← g.arguments false
      return some (.call callee.start callee.isChain callee items)
    if ← isTemplate then return some (← g.tagged callee)
    unexpected "( or \x60"
where
  isAsyncWord : Expr → Bool
    | .name _ n => n == Word.async.chars
    | _ => false

/-- One step behind an expression, if there is one. -/
def subscript (callee : Expr) (noCall noIndex : Bool) : P (Turn Expr Expr) := do
  let start := callee.start
  if (← isTypescript) && !(← afterBreak) && (← isMark .bang) then
    bump
    match callee with
    | .super _ => failHere (.nonNullNotAllowed "super")
    | .importer _ => failHere (.nonNullNotAllowed "import")
    | e => return .again (.cast start .nonNull e)
  let special := callee matches .super _ || callee matches .importer _
  if !special then
    match ← g.typedSubscript callee noCall with
    | some e => return if e.isArrow then .done e else .again e
    | none => pure ()
  if (callee matches .cast _ .instantiation _) && ((← isMark .dot) || (← isMark .questionDot)) then
    reportHere .instantiationAccess
  let optional ← eatMark .questionDot
  let chained := optional || callee.withoutNonNull.isChain
  if !noIndex && (← isMark .lbracket) then
    bump
    let key ← g.fullExpression
    expectMark .rbracket
    match callee with
    | .super at_ =>
      checkSuper at_ optional noCall
      return .again (.index start false callee key)
    | _ => return .again (.index start chained callee key)
  if (optional || !noCall) && (← isMark .lparen) then
    let items ← g.arguments (callee matches .importer _)
    if chained && special then failHere .superCallOptional
    return .again (.call start chained callee items)
  if ← (if optional then pure true else eatMark .dot) then
    if ← isMark .hash then discard <| privateName else discard <| identName
    match callee with
    | .super at_ =>
      checkSuper at_ optional noCall
      return .again (.member start false callee)
    | .importer _ => unexpected "meta"
    | _ => return .again (← g.instantiated (.member start chained callee))
  match callee with
  | .super _ => failHere (if noCall then .invalidSuperCall else .invalidSuper)
  | .importer _ => failHere .importNotAllowed
  | e =>
    if ← isTemplate then return .again (← g.tagged e)
    return .done e

def subscriptsOf (callee : Expr) (noCall noIndex : Bool) : P Expr :=
  repeatFrom callee fun e => g.subscript e noCall noIndex

def importExpression (start : Nat) (noCall : Bool) : P Expr := do
  if ← eatMark .dot then
    let (_, n) ← identName
    if n == "meta".toList then g.subscriptsOf (.metaProperty start) noCall false
    else if n == "defer".toList || n == "source".toList then
      g.subscriptsOf (.importer start) noCall false
    else unexpected "meta"
  else g.subscriptsOf (.importer start) noCall false

def regularExpression (start : Nat) : P Expr := do
  let s ← get
  let found := regexp start (s.token.text.drop 1 ++ s.rest)
  set { s with token := { s.token with stop := found.stop }, rest := found.rest }
  bump
  match found.outcome with
  | .error e => throw e
  | .ok faults =>
    for e in faults do reportError e
    return .literal start []

/-- What follows the word `async` if it is no name. -/
def asyncExpression (start : Nat) (canBeArrow : Bool) : P (Option Expr) := do
  let next ← peek
  if next.kind == .word .function && !next.afterBreak then
    bump
    return some (← g.functionExpression start true)
  if canBeArrow && next.kind == .mark .less then
    let whole? ← attempt do
      bump
      g.genericAsyncArrow start
    match whole? with
    | some whole => return some whole
    | none => pure ()
  if canBeArrow && next.kind == .mark .lparen && !next.afterBreak then
    bump
    return some (← g.parenOrArrow canBeArrow (some start))
  return none

/-- A name, or an arrow function with one parameter. -/
def nameOrArrow (canBeArrow : Bool) : P Expr := do
  let (start, n) ← ident
  if canBeArrow && n == Word.async.chars && !(← afterBreak) && (← isVariable) then
    let c ← context
    if c.loopHead && (← isWord .of) && !(← peekIsMark .arrow) then
      unless c.awaitLoopHead do report .asyncOf (← previousSpan).start
      return .name start n
    let (at_, parameter) ← bindingIdent false
    if (← isTypescript) && parameter == Word.as.chars && !(← isMark .arrow) then
      g.type
      return .cast start .asType (.name start n)
    expectMark .arrow
    return .arrow start (.mk [.name at_ parameter] (← g.arrowBody true true))
  if ← eatMarkIf (canBeArrow && !(← afterBreak)) .arrow then
    if isStrictlyReserved n then report .evalArguments start
    return .arrow start (.mk [.name start n] (← g.arrowBody false true))
  return .name start n

def primary : P Expr := do
  let token ← current
  let start := token.start
  let canBeArrow := (← get).arrowStart? == some start
  let inner (c : Context) : Context := { c with colonExpected := false }
  match token.kind with
  | .string | .number | .bigint =>
    bump
    return .literal start token.text
  | .template _ _ => return .template start (← g.template true)
  | .mark .lparen => g.parenOrArrow canBeArrow none
  | .mark .lbracket => within inner g.arrayLiteral
  | .mark .lbrace => g.objectLiteral
  | .mark .slash | .mark .slashAssign => regularExpression start
  | .mark .hash =>
    discard <| privateName
    return .privateName start
  | .word w =>
    if w == .«this» then
      bump
      return .this start
    if w == .function then return ← g.functionExpression start false
    if w == .«class» then return ← g.classExpression start
    if w == .«null» || w == .trueWord || w == .falseWord then
      bump
      return .literal start []
    if w == .async then
      match ← g.asyncExpression start canBeArrow with
      | some e => return e
      | none => pure ()
    if !w.isTaken then g.nameOrArrow canBeArrow else failHere .expectedExpression
  | .ident => g.nameOrArrow canBeArrow
  | .invalid e =>
    bump
    throw e
  | _ => failHere .expectedExpression

/-- An array or a function keeps the properties with defaults inside of it to itself: one is only
at fault where an expression shows it. -/
def guarded : P Expr := do
  let before := (← get).strayDefaults
  let e ← g.primary
  match e with
  | .array _ _ _ | .function _ _ _ | .arrow _ _ =>
    modify fun s => { s with strayDefaults := before }
  | _ => pure ()
  return e

def instantiationFrom (start : Nat) : P Expr := do
  if ← eatMark .dot then
    unless ← eatWord .target do unexpected "target"
    let c ← context
    unless c.ownThis || c.inParameters || c.inClass do report .invalidNewTarget start
    return ← g.subscriptsOf (.metaProperty start) true false
  let callee ← g.member
  if callee.isArrow then return callee
  if callee.isChain then fail .newOptionalChain callee.start
  match callee with
  | .member _ _ whole => if whole.isChain then fail .newOptionalChain whole.start
  | _ => pure ()
  if (← isTypescript) && (← isOpener) then
    discard <| attempt do
      g.typeArguments
      if ← isMark .lparen then return some () else return none
  if ← isMark .lparen then
    let items ← g.arguments false
    g.subscriptsOf (.construct start false callee items) true false
  else return .construct start true callee []

def memberExpression : P Expr := do
  let start ← offset
  if ← eatWord .«new» then return ← g.instantiationFrom start
  if ← eatWord .super then return ← g.subscriptsOf (.super start) true false
  if ← eatWord .«import» then return ← g.importExpression start true
  let e ← g.guarded
  if e.isArrow then return e
  g.subscriptsOf (← g.instantiated e) true false

def leftHandSide : P Expr := do
  let start ← offset
  if ← eatWord .super then return ← g.subscriptsOf (.super start) false false
  if ← eatWord .«import» then return ← g.importExpression start false
  let callee ← g.member
  if callee.isArrow then return callee
  let typed ←
    if (← isTypescript) && (← isOpener) then
      attempt do
        g.typeArguments
        if ← isMark .lparen then return some () else return none
    else pure none
  match callee with
  | .construct _ true _ _ =>
    if typed.isSome then failHere (.expected "(" (← currentKind).describe)
    return callee
  | _ =>
    if ← isMark .lparen then
      let items ← g.arguments false
      g.subscriptsOf (.call start callee.withoutNonNull.isChain callee items) false false
    else return callee

def awaitExpression (start : Nat) : P Expr := do
  if ← isMark .star then failHere .awaitStar
  let c ← context
  if !c.inAsync && ((← isStatementEnd) || (← isMark .rparen) || (← isMark .rbracket) ||
      (← isMark .comma)) then
    report .awaitIdent start
    return .name start Word.await.chars
  if c.inFunction && !c.inAsync then report .awaitInFunction start
  if c.inParameters && !c.inFunction then report .awaitInParameter start
  return .await start (← g.unary)

/-- The operand of an operator in front. A fault in it is collected. -/
def operand : P Expr := do
  let start ← offset
  match ← settle g.unary with
  | .ok e => return e
  | .error e =>
    reportError e
    return .invalid (start - 1)

def checkDeleted (e : Expr) : P Unit := do
  match e with
  | .name start _ => report .deleteIdent start
  | _ => pure ()
  if ← isTypescript then
    match e.withoutParens with
    | .member _ _ _ | .index _ _ _ _ => pure ()
    | e => report .deleteOperand e.start

def typeAssertion (start : Nat) : P Expr := do
  if ← eatWord .const then
    expectCloser
    return .cast start .asConst (← g.unary)
  g.type
  expectCloser
  return .cast start .assertion (← g.unary)

def updateFrom (e : Expr) : P Expr := do
  if ← afterBreak then return e
  if (← isMark .increment) || (← isMark .decrement) then
    checkTarget false e
    bump
    return .update e.start e
  return e

def unaryExpression : P Expr := do
  let token ← current
  let start := token.start
  match token.kind with
  | .mark .increment | .mark .decrement =>
    bump
    let e ← g.unary
    checkTarget false e
    return .update start e
  | .word .delete =>
    bump
    let e ← g.operand
    checkDeleted e
    return .unary start e
  | .word .void | .word .typeof | .mark .plus | .mark .minus | .mark .tilde | .mark .bang =>
    bump
    return .unary start (← g.operand)
  | .word .await =>
    bump
    g.awaitExpression start
  | .mark .less =>
    if ← isTypescript then
      bump
      g.typeAssertion start
    else failHere .expectedExpression
  | _ =>
    let e ← g.leftHandSide
    if e.isArrow then return e
    updateFrom e

def yieldTakes : P Bool := do
  if ← isStatementEnd then return false
  match ← currentKind with
  | .mark m =>
    return [Mark.lparen, .lbrace, .lbracket, .plus, .minus, .increment, .decrement, .bang, .tilde,
      .hash, .at_, .slash, .slashAssign, .less, .star].contains m
  | .word w => return w != .«in» && w != .of && w != .instanceof
  | _ => return true

def yieldExpression : P Expr := do
  let start ← offset
  bump
  let c ← context
  if c.inParameters && !c.inFunction then fail .yieldInParameter start
  if ← yieldTakes then
    discard <| eatMark .star
    return .yield start (some (← g.assignment))
  return .yield start none

def genericArrow : P (Option Expr) := do
  unless (← isTypescript) && (← isMark .less) && (← peek).kind.isWord do return none
  within (fun c => { c with colonExpected := false }) do
    attempt do
      discard <| g.typeParameters false true
      let e ← g.assignment
      if e.isArrow then return some e
      unexpected "("

def isStoredTarget : Expr → Bool
  | .conditional _ _ _ _ | .binary _ _ _ _ | .unary _ _ | .update _ _ => false
  | _ => true

def assignmentExpression : P Expr := do
  match ← g.genericArrow with
  | some e => return e
  | none => pure ()
  if (← context).inGenerator && (← isWord .yield) then return ← g.yieldExpression
  let token ← current
  match token.kind with
  | .invalid e =>
    bump
    throw e
  | kind =>
    let canBeArrow := kind.isVariable || kind == .mark .lparen || kind == .word .«let»
    modify fun s => { s with arrowStart? := if canBeArrow then some token.start else none }
    let test ← g.binary
    if test.isArrow then return test
    if ← eatMark .question then return ← g.conditionalFrom token.start test
    if isStoredTarget test then g.assignmentFrom token.start test else return test

def sequence : P Expr := do
  let first ← g.assignment
  if ← isMark .comma then
    let others ← many do
      if ← eatMark .comma then return some (← g.assignment) else return none
    return .sequence first.start (first :: others)
  return first

end Grammar

end ComponentBuild.Script
