import ComponentBuild.Script.Parser.Class
import ComponentBuild.Script.Parser.Cover

namespace ComponentBuild.Script

namespace Grammar

variable (g : Grammar)

/-- An argument of a call or an element of an array. -/
def spreadOrPlain : P Item := do
  let start ← offset
  if ← eatMark .ellipsis then return .spread start (← g.assignment)
  return .plain (← g.assignment)

def arrayLiteral : P Expr := do
  let start ← offset
  bump
  let (items, comma?) ← repeatFrom ([], none) fun (items, comma?) => do
    if ← isMark .rbracket then return .done (items.reverse, comma?)
    if ← eatMark .comma then return .again (.hole :: items, none)
    let item ← within (fun c => { c with inOperator := true }) g.spreadOrPlain
    if ← isMark .rbracket then return .again (item :: items, none)
    expectMark .comma
    let comma := (← previousSpan).start
    return .again (item :: items, if ← isMark .rbracket then some comma else none)
  expectMark .rbracket
  return .array start items comma?

def objectMethod (start : Nat) (key : Key) (kind : MethodKind) (isAsync isGenerator : Bool) :
    P Property := do
  return .method start key (← g.method kind key.start isAsync isGenerator)

/-- What a property whose key can only be that of a value or of a method lacks. -/
def lacksValue : P Property := do
  if ← isTypescript then
    unexpected "... , *,  (, [, :, , ?, =, an identifier, public, protected, private, readonly, <."
  else unexpected "... , *,  (, [, :, , ?, = or an identifier"

/-- Whether a property can go on at the current token, behind its key. -/
def continuesProperty (key : Key) : P Bool := do
  match ← currentKind with
  | .mark m =>
    return [Mark.lparen, .lbracket, .colon, .comma, .question, .assign, .star, .less].contains m ||
      (m == .rbrace && key.name?.isSome)
  | .string | .number => return true
  | kind => return kind.isWord

/-- A property behind a key that is an identifier. -/
def namedProperty (start at_ : Nat) (n : Name) (modifiers? : Option Nat) : P Property := do
  if ← eatMark .question then report .optionalObjectMember (← previousSpan).start
  if (← isMark .assign) || (← isMark .comma) || (← isMark .rbrace) then
    if isReservedName n then report .reservedShorthand at_
    if ← eatMark .assign then
      let value ← g.fullAssignment
      modify fun s => { s with strayDefaults := start :: s.strayDefaults }
      return .withDefault start n value
    return .shorthand start n
  let reads := n == Word.get.chars
  let isAsync := n == Word.async.chars
  unless reads || isAsync || n == Word.set.chars do return ← lacksValue
  match modifiers? with
  | some modifiers => report .asyncModifier modifiers
  | none => pure ()
  let isGenerator ← eatMarkIf isAsync .star
  let key ← g.propertyKey
  let kind := if reads then MethodKind.getter else if isAsync then .ordinary else .setter
  g.objectMethod start key kind isAsync isGenerator

def objectProperty : P Property := do
  let start ← offset
  if ← eatMark .ellipsis then return .spread start (← g.fullAssignment)
  if ← eatMark .star then
    let key ← g.propertyKey
    return ← g.objectMethod start key .ordinary false true
  let modified ← eatModifier
  let modifiers := (← previousSpan).start
  let key ← g.propertyKey
  if (← isTypescript) && !(← continuesProperty key) then
    let at_ ← offset
    report .expectedSemicolon at_
    return .keyValue key (.invalid at_)
  if ← eatMark .colon then return .keyValue key (← g.fullAssignment)
  if ← isMethodStart then return ← g.objectMethod start key .ordinary false false
  match key with
  | .name at_ n => g.namedProperty start at_ n (if modified then some modifiers else none)
  | _ => unexpected "identifier"

def objectLiteral : P Expr := do
  let start ← offset
  let (properties, comma?) ← braced g.objectProperty
  return .object start properties comma?

def operator? : P (Option (Operator × Nat)) := do
  match ← currentKind with
  | .mark m =>
    let kind :=
      match m with
      | .logicalAnd => Operator.both
      | .logicalOr => .either
      | .nullish => .nullish
      | _ => .other
    return m.precedence?.map (kind, ·)
  | .word .«in» => return if (← context).inOperator then some (.other, 7) else none
  | .word .instanceof => return some (.other, 7)
  | _ => return none

def isOperator : P Bool := return (← operator?).isSome

def isLogical : Operator → Bool
  | .both | .either => true
  | _ => false

/-- Takes the operators that bind stronger than `least`, with their right operands. -/
def binaryRest : Nat → Nat → Expr → P Expr
  | 0, _, _ => failHere .nestedTooDeep
  | fuel + 1, least, left => do
    if (← isTypescript) && least < 7 && !(← afterBreak) then
      if ← isWord .as then
        if ← peekIsWord .const then
          bump
          bump
          return ← binaryRest fuel least (.cast left.start .asConst left)
        bump
        g.type
        return ← binaryRest fuel least (.cast left.start .asType left)
      if ← isWord .satisfies then
        bump
        g.type
        return ← binaryRest fuel least (.cast left.start .satisfies left)
    match ← operator? with
    | none => return left
    | some (kind, strength) =>
      if strength ≤ least then return left
      let power := strength = 11
      bump
      match left with
      | .unary _ _ | .await _ _ => if power then failHere .unaryInPower
      | _ => pure ()
      let first ← g.unary
      let right ← binaryRest fuel (if power then strength - 1 else strength) first
      match kind, left, right with
      | .nullish, .binary start k _ _, _ => if isLogical k then report .mixedNullish start
      | _, _, _ => pure ()
      match kind, right with
      | .nullish, .binary start k _ _ => if isLogical k then report .mixedNullish start
      | _, _ => pure ()
      if isLogical kind then
        match left with
        | .binary _ .nullish _ _ => report .mixedNullish left.start
        | _ => pure ()
      binaryRest fuel least (.binary left.start kind left right)

def binaryFrom (left : Expr) : P Expr := do
  g.binaryRest (2 * (← get).bound) 0 left

def binary : P Expr := do
  match ← settle g.unary with
  | .ok left => if left.isArrow then return left else g.binaryFrom left
  | .error e =>
    if (← isEnd) || !(← isOperator) then throw e
    reportHere .expectedExpression
    g.binaryFrom (.invalid e.offset)

/-- Goes on behind an expression that may be assigned to. -/
def assignmentFrom (start : Nat) (left : Expr) : P Expr := do
  match ← currentKind with
  | .mark m =>
    unless m.isAssign do return left
    let target ←
      if m == .assign then
        let target ← left.toTarget
        match target with
        | .target e => unless e.isTarget do fail .invalidAssignTarget e.start
        | _ => pure ()
        pure target
      else
        unless left.isAssignable do
          report (if ← isTypescript then .assignTarget else .notSimpleTarget) left.start
        match left with
        | .name at_ n =>
          if (← isTypescript) && isStrictlyReserved n then report .argumentsUse at_
          pure (.name at_ n)
        | e =>
          unless e.isTarget do fail .invalidAssignTarget e.start
          pure (.target e)
    bump
    return .assign start (m == .assign) target (← g.assignment)
  | _ => return left

def conditionalFrom (start : Nat) (test : Expr) : P Expr := do
  let yes ← within
    (fun c => { c with inConditional := true, colonExpected := true, inOperator := true })
    g.assignment
  expectMark .colon
  let no ← within (fun c => { c with inConditional := true, colonExpected := false }) g.assignment
  return .conditional start test yes no

/-- Whether the question mark behind a parameter says that it can be left out. -/
def isOptionalMark : P Bool := do
  match (← peek).kind with
  | .mark .comma | .mark .assign | .mark .rparen | .mark .colon => return true
  | _ => return false

/-- An expression or a parameter in parentheses, before it is known which. -/
def parenExpression (start : Nat) : P Item := do
  let spreads ← isMark .ellipsis
  if (← isTypescript) && ((← isVariable) || (spreads && (← peek).kind.isVariable)) then
    if spreads then
      bump
      return .spread start (← g.binary)
    return .plain (← g.assignmentFrom start (← g.binary))
  within (fun c => { c with inOperator := true }) g.spreadOrPlain

/-- Reads an item of parentheses as a parameter, with its type and its default. -/
def parenParameter (optional : Bool) (item : Item) : P Pattern := do
  let pattern ←
    match item with
    | .plain e => e.toPattern false
    | .spread start e => Pattern.rest start <$> e.toPattern false
    | .hole => pure .hole
  discard <| g.typeAnnotation
  if optional then pure ()
  if ← eatMark .assign then return .withDefault pattern.start pattern (← g.assignment)
  return pattern

def parenItem : P ParenItem := do
  let start ← offset
  modify fun s => { s with arrowStart? := some start }
  let modified ← eatModifier
  let item ← g.parenExpression (← offset)
  let spreads := item matches .spread _ _
  let (item, optional) ←
    if (← isTypescript) && (← isMark .question) then
      if ← isOptionalMark then
        bump
        if spreads then report .restParameterOptional (← previousSpan).start
        match item with
        | .plain (.name _ _) | .spread _ (.name _ _) => pure ()
        | _ => fail .optionalPattern item.start
        pure (item, true)
      else
        match item with
        | .plain test =>
          bump
          pure (.plain (← g.conditionalFrom test.start test), false)
        | _ => pure (item, false)
    else pure (item, false)
  if optional || ((← isTypescript) && (← isMark .colon)) then
    let pattern ← g.parenParameter optional item
    if modified then report .parameterProperty start
    return .pattern pattern
  if modified then report .parameterProperty start
  return .item item

/-- What parentheses hold, and where a comma ends it. -/
def parenItems : P (List ParenItem × Option Nat) :=
  within (fun c => { c with colonExpected := false }) do
    expectMark .lparen
    let found ← repeatFrom ([], none) fun (items, comma?) => do
      if ← isMark .rparen then return .done (items.reverse, comma?)
      let item ← g.parenItem
      if ← isMark .rparen then return .again (item :: items, none)
      expectMark .comma
      let comma := (← previousSpan).start
      return .again (item :: items, if ← isMark .rparen then some comma else none)
    expectMark .rparen
    return found

/-- An arrow function behind its arrow. -/
def arrowFrom (start : Nat) (isAsync : Bool) (comma? : Option Nat) (items : List ParenItem) :
    P Expr := do
  let found ← parenParameters comma? items
  return .arrow start (.mk found (← g.arrowBody isAsync (allNames found)))

/-- A block is no operand: goes on behind one if an operator follows all the same. -/
def afterArrow (whole : Expr) : P Expr := do
  match whole with
  | .arrow _ (.mk _ (.block _)) =>
    if ← isOperator then
      reportHere .expectedSemicolon
      let joined ← g.binaryFrom whole
      unless ← isStatementEnd do reportHere .expectedSemicolon
      return joined
    return whole
  | _ => return whole

/-- An object in parentheses that is no pattern has no properties with defaults. -/
def checkDefaultsInParens (items : List ParenItem) : P Unit := do
  for item in items do
    match item with
    | .item (.plain (.object _ properties _)) | .item (.spread _ (.object _ properties _)) =>
      for p in properties do
        match p with
        | .withDefault start _ _ => report .assignmentProperty start
        | _ => pure ()
    | _ => pure ()

/-- The items of parentheses that are no parameters. -/
def itemsOfParens : List ParenItem → P (List Item)
  | [] => return []
  | .item i :: items => return i :: (← itemsOfParens items)
  | .pattern p :: _ => fail .notExpression p.start

/-- The expressions in parentheses, none of which is spread. -/
def partsOfParens : List Item → P (List Expr)
  | [] => return []
  | .plain e :: items => return e :: (← partsOfParens items)
  | .spread _ e :: _ => fail .spreadInParen e.start
  | .hole :: items => partsOfParens items

/-- An expression in parentheses or an arrow function; behind the word `async` also a call of what
that names. -/
def parenOrArrow (canBeArrow : Bool) (async? : Option Nat) : P Expr := do
  let start := async?.getD (← offset)
  let isAsync := async?.isSome
  let (items, comma?) ← within (fun c => { c with inOperator := true }) g.parenItems
  let hasPattern := items.any (fun i => i matches .pattern _)
  let colonExpected := (← context).colonExpected
  if (← isTypescript) && (← context).inConditional && (← isMark .colon) then
    let whole? ← attempt do
      g.resultType .colon
      expectMark .arrow
      let whole ← g.arrowFrom start isAsync comma? items
      if colonExpected && !(← isMark .colon) then unexpected "fail"
      return some whole
    match whole? with
    | some whole => return whole
    | none => pure ()
  let typed ←
    if !colonExpected && (← isTypescript) && (← isMark .colon) then
      attempt do
        g.resultType .colon
        if ← isMark .arrow then return some () else return none
    else pure none
  if hasPattern || typed.isSome || (← isMark .arrow) then
    if ← afterBreak then fail .breakBeforeArrow start
    unless canBeArrow do fail .arrowNotAllowed start
    expectMark .arrow
    return ← g.afterArrow (← g.arrowFrom start isAsync comma? items)
  checkDefaultsInParens items
  let items ← itemsOfParens items
  match async? with
  | some at_ => return .call at_ false (.name at_ Word.async.chars) items
  | none =>
    if items.isEmpty then fail .emptyParen start
    match ← partsOfParens items with
    | [e] => return .paren start e
    | parts => return .paren start (.sequence ((parts.head?.map Expr.start).getD start) parts)

end Grammar

end ComponentBuild.Script
