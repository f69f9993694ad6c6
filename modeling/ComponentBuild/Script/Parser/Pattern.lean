import ComponentBuild.Script.Parser.Grammar

namespace ComponentBuild.Script

namespace Grammar

variable (g : Grammar)

/-- The expressions behind a key in brackets that only one can have. -/
def moreKeys (first : Expr) : P Expr := do
  if (← isTypescript) && (← isMark .comma) then
    let others ← many do
      if ← eatMark .comma then return some (← g.fullAssignment) else return none
    report .commaInComputedKey first.start
    return .sequence first.start (first :: others)
  return first

def propertyKey : P Key := do
  let token ← current
  match token.kind with
  | .string =>
    bump
    return .string token.start token.text
  | .number | .bigint =>
    bump
    return .number token.start
  | .mark .lbracket =>
    bump
    let value ← g.moreKeys (← g.fullAssignment)
    expectMark .rbracket
    return .computed token.start value
  | kind =>
    if kind.isWord then
      bump
      return .name token.start token.text
    unexpected "identifier, string literal, numeric literal or [ for the computed key"

/-- Whether a modifier can only be one if another word follows. -/
def modifierFollows : P Bool := do
  match (← peek).kind with
  | .mark .lbrace | .mark .lbracket => return true
  | kind => return kind.isWord

/-- A word can be a modifier if what follows it on its line can have one. -/
def canFollowModifier : P Bool := do
  let next ← peek
  if next.afterBreak then return false
  match next.kind with
  | .mark .lbracket | .mark .lbrace | .mark .star | .mark .ellipsis | .mark .hash => return true
  | .string | .number | .bigint => return true
  | kind => return kind.isWord

def modifier (allowed : List Word) (stopAtStaticBlock : Bool) : P (Option Word) := do
  unless ← isTypescript do return none
  match ← currentKind with
  | .word w =>
    unless allowed.contains w do return none
    if stopAtStaticBlock && w == .static && (← peekIsMark .lbrace) then return none
    if ← canFollowModifier then
      bump
      return some w
    return none
  | .endOfText => failHere .unexpectedEnd
  | .invalid e =>
    bump
    throw e
  | _ => return none

/-- Takes a modifier that only parameters of constructors have. -/
def eatModifier : P Bool := do
  unless ← isTypescript do return false
  let allowed := [Word.«public», .«protected», .«private», .readonly]
  match ← currentKind with
  | .word w =>
    if allowed.contains w && (← modifierFollows) then
      discard <| modifier allowed false
      return true
    return false
  | _ => return false

def withDefault (start : Nat) (left : Pattern) : P Pattern := do
  if ← eatMark .assign then
    let value ← g.fullAssignment
    if (← context).ambient then report .parameterInitializer start
    return .withDefault start left value
  return left

def bindingElement : P Pattern := do
  let start ← offset
  g.withDefault start (← g.binding false)

/-- A question mark that only a declaration of what exists elsewhere can have. -/
def eatAmbientOptional : P Unit := do
  if (← context).ambient then discard <| eatMark .question

def arrayBinding : P Pattern := do
  let start ← offset
  bump
  let elements ← repeatFrom ([], none) fun (elements, rest?) => do
    if (← isMark .rbracket) || (← isEnd) then return .done elements.reverse
    if ← eatMark .comma then return .again (.hole :: elements, rest?)
    match rest? with
    | some rest => report .restNotLast rest
    | none => pure ()
    let at_ ← offset
    let isRest ← eatMark .ellipsis
    let element ←
      if isRest then Pattern.rest at_ <$> g.binding false
      else g.bindingElement
    unless ← isMark .rbracket do
      expectMark .comma
      if isRest && (← isMark .rbracket) then report .restComma (← previousSpan).start
    return .again (element :: elements, if isRest then some at_ else rest?)
  expectMark .rbracket
  eatAmbientOptional
  return .array start elements

def bindingProperty : P PatternProperty := do
  let start ← offset
  if ← eatMark .ellipsis then return .rest start (← g.binding false)
  let key ← g.propertyKey
  if ← eatMark .colon then return .keyValue key (← g.bindingElement)
  match key with
  | .name at_ n =>
    if ← eatMark .assign then return .shorthand at_ n (some (← g.fullAssignment))
    if isReservedName n then report .reservedShorthand at_
    return .shorthand at_ n none
  | _ => unexpected "an identifier"

/-- The properties of an object or of a pattern for one, and where a comma ends them. -/
def braced {α : Type} (item : P α) : P (List α × Option Nat) :=
  within (fun c => { c with colonExpected := false }) do
    expectMark .lbrace
    repeatFrom ([], none) fun (items, comma?) => do
      if ← eatMark .rbrace then return .done (items.reverse, comma?)
      let found ← item
      if ← isMark .rbrace then return .again (found :: items, none)
      expectMark .comma
      let comma := (← previousSpan).start
      return .again (found :: items, if ← isMark .rbrace then some comma else none)

/-- A rest is the last property, and binds one name. -/
def checkRests (comma? : Option Nat) : List PatternProperty → P Unit
  | [] => return
  | [.rest start inner] =>
    if inner.isName then
      match comma? with
      | some comma => report .restComma comma
      | none => return
    else fail .restNeedsIdentifier start
  | [_] => return
  | .rest start _ :: properties => do
    report .restNotLast start
    checkRests comma? properties
  | _ :: properties => checkRests comma? properties

def objectBinding : P Pattern := do
  let start ← offset
  let (properties, comma?) ← braced g.bindingProperty
  checkRests comma? properties
  eatAmbientOptional
  return .object start properties

def bindingPattern (noLet : Bool) : P Pattern := do
  match ← currentKind with
  | .mark .lbracket => g.arrayBinding
  | .mark .lbrace => g.objectBinding
  | .invalid e =>
    bump
    throw e
  | kind =>
    if kind.isWord then
      let (start, n) ← bindingIdent noLet
      return .name start n
    unexpected "yield, an identifier, [ or \x7b"

def restParameter (start : Nat) : P Pattern := do
  let inner ← g.binding false
  let inner ←
    if ← eatMark .assign then
      let value ← g.assignment
      report .restParameterInitializer inner.start
      pure (Pattern.withDefault inner.start inner value)
    else pure inner
  discard <| g.typeAnnotation
  if ← eatTypeMark .question then
    report .restParameterOptional (← previousSpan).start
  return .rest start inner

def parameter : P Pattern := do
  let start ← offset
  let modified ← eatModifier
  let left ← g.binding false
  let optional ← eatTypeMark .question
  if optional && !(← context).ambient then
    match left with
    | .name _ _ | .array _ _ | .object _ _ => pure ()
    | _ => fail .optionalPattern (← previousSpan).start
  discard <| g.typeAnnotation
  let whole ←
    if ← eatMark .assign then
      if optional then report .optionalInitializer left.start
      let value ← g.assignment
      if (← context).ambient then report .parameterInitializer start
      pure (Pattern.withDefault left.start left value)
    else pure left
  if modified then report .parameterProperty start
  return whole

/-- Parameters up to the closing parenthesis, each read by the given parser. A rest parameter ends
them. -/
def parametersOf {α : Type} (ofRest : Pattern → α) (parameter : P α) : P (List α) :=
  repeatFrom ([], none) fun (found, rest?) => do
    if (← isMark .rparen) || (← isEnd) then return .done found.reverse
    match rest? with
    | some rest => report .restParameterLast rest
    | none => pure ()
    let start ← offset
    let isRest ← eatMark .ellipsis
    let next ← if isRest then ofRest <$> g.restParameter start else parameter
    unless (← isMark .rparen) || (← isEnd) do
      expectMark .comma
      if isRest && (← isMark .rparen) then report .restComma (← previousSpan).start
    return .again (next :: found, if isRest then some start else none)

def parameters : P (List Pattern) := g.parametersOf id g.parameter

end Grammar

end ComponentBuild.Script
