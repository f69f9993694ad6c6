import ComponentBuild.Script.Parser.Pattern

namespace ComponentBuild.Script

namespace Grammar

variable (g : Grammar)

/-- What a list in a type ends with. -/
inductive ListEnd where
  | closer
  | mark (m : Mark)
  | heritage
  deriving DecidableEq

def isListEnd : ListEnd → P Bool
  | .closer => isCloser
  | .mark m => isMark m
  | .heritage => do
    return (← isMark .lbrace) || (← isWord .implements) || (← isWord .«extends»)

/-- Elements with commas between them, and at the end if one likes. -/
def commaList {α : Type} (stop : ListEnd) (element : P α) : P (List α) :=
  repeatFrom [] fun found => do
    if ← isListEnd stop then return .done found.reverse
    let found := (← element) :: found
    if ← eatMark .comma then return .again found
    if ← isListEnd stop then return .done found.reverse
    expectMark .comma
    return .again found

def typeArguments : P Unit := do
  expectOpener
  discard <| commaList .closer g.type
  expectCloser

/-- Types in angle brackets where they can only be operands of comparisons otherwise. They are
taken if what follows cannot go on with a comparison, and is no call. -/
def instantiation : P Bool := do
  unless ← isOpener do return false
  let found ← attempt do
    g.typeArguments
    let token ← current
    match token.kind with
    | .mark m =>
      if [Mark.less, .greater, .shiftRight, .greaterEqual, .plus, .minus, .lparen].contains m then
        return none
      else if token.afterBreak || m.precedence?.isSome || !startsExpression m then return some ()
      else return none
    | .template _ _ => return none
    | .word w => return if token.afterBreak || !startsWithWord w then some () else none
    | .endOfText => return some ()
    | _ => return if token.afterBreak then some () else none
  return found.isSome
where
  startsExpression (m : Mark) : Bool :=
    [Mark.lparen, .lbrace, .lbracket, .plus, .minus, .increment, .decrement, .bang, .tilde, .hash,
      .at_, .slash, .slashAssign, .less].contains m
  startsWithWord (w : Word) : Bool :=
    !([Word.«in», .instanceof, .case, .«catch», .«else», .«extends», .«finally», .«default», .«with»,
      .as, .satisfies].contains w)

/-- The modifiers of a parameter for types. -/
def typeParameterModifiers (inOut const : Bool) : P Unit :=
  repeatFrom (false, false) fun (isIn, isOut) => do
    let allowed := [Word.«public», .«protected», .«private», .readonly, .«abstract», .const, .override,
      .«in», .out]
    match ← modifier allowed false with
    | none => return .done ()
    | some w =>
      let start := (← previousSpan).start
      if w == .const then
        unless const do report (.constOnTypeOnly w.text) start
        return .again (isIn, isOut)
      else if w == .«in» then
        if !inOut then report (.modifierOnTypeOnly w.text) start
        else if isIn then report (.modifierSeen w.text) start
        else if isOut then report (.modifierOrder "in" "out") start
        return .again (true, isOut)
      else if w == .out then
        if !inOut then report (.modifierOnTypeOnly w.text) start
        else if isOut then report (.modifierSeen w.text) start
        return .again (isIn, true)
      report (.modifierOnParameter w.text) start
      return .again (isIn, isOut)

def typeParameter (inOut const : Bool) : P Nat := do
  let start ← offset
  typeParameterModifiers inOut const
  discard <| identName
  if ← eatWord .«extends» then g.type
  if ← eatMark .assign then g.type
  return start

/-- Parameters for types in angle brackets: where they start. -/
def typeParameters (inOut const : Bool) : P (List Nat) := do
  unless ← isMark .less do unexpected "< (jsx tag start)"
  bump
  let starts ← commaList .closer (g.typeParameter inOut const)
  expectCloser
  return starts

def optionalTypeParameters (inOut const : Bool) : P Unit := do
  if (← isTypescript) && (← isMark .less) then discard <| g.typeParameters inOut const

/-- The type behind a mark, or a statement about a parameter such as `x is T`. -/
def resultType (mark : Mark) : P Unit := do
  expectMark mark
  let asserts := (← isWord .asserts) && (← peek).kind.isVariable
  if asserts then bump
  let tells := (← isVariable) && (← peekIsWord .«is») && (← peekOnLine)
  if asserts || tells then
    discard <| identName
    if tells then
      bump
      g.type
  else g.type

/-- The parameters of a signature behind the opening parenthesis. None has a default. -/
def signatureParameters : P (List Pattern) := do
  let found ← g.parameters
  for p in found do
    match p with
    | .name _ _ | .array _ _ | .object _ _ | .rest _ _ => pure ()
    | _ =>
      unexpected
        "an identifier, [ for an array pattern, \x7b for an object patter or ... for a rest pattern"
  expectMark .rparen
  return found

/-- A type of functions; `constructs` for one behind `new`. -/
def functionType (constructs : Bool) : P Unit := do
  if constructs then
    discard <| eatWord .«abstract»
    expectWord .«new»
  g.optionalTypeParameters false true
  expectMark .lparen
  discard <| g.signatureParameters
  g.resultType .arrow

/-- A name with dots; the words behind them may be reserved, if told so. -/
def dottedName (reserved : Bool) : P Unit := do
  discard <| identName
  repeatFrom () fun _ => do
    unless ← eatMark .dot do return .done ()
    let start ← offset
    if !(← isMark .hash) && !(← isAnyWord) then
      report .expectedIdentifier start
      return .done ()
    if reserved then discard <| identName else discard <| ident
    return .again ()

def typeReference : P Unit := do
  let start ← offset
  let modified ← eatModifier
  dottedName true
  if !(← afterBreak) && (← isOpener) then g.typeArguments
  if modified then report .parameterProperty start

def memberEnd : P Unit := do
  unless ← eatMark .comma do expectStatementEnd

def typeKey : P Unit := do
  if ← eatMark .lbracket then
    discard <| g.assignment
    expectMark .rbracket
  else
    match ← currentKind with
    | .string | .number | .bigint => bump
    | .mark .hash =>
      let (start, _) ← privateName
      report .privateInInterface start
    | _ => discard <| identName

/-- A signature for all keys of a type, if one starts here. -/
def indexSignature : P Bool := do
  unless ← isMark .lbracket do return false
  let found ← lookAhead do
    bump
    unless ← isAnyWord do return false
    bump
    return (← isMark .colon) || (← isMark .comma)
  unless found do return false
  bump
  let (start, _) ← identName
  if ← eatMark .comma then report .indexSignatureParameter start else expectMark .colon
  g.type
  expectMark .rbracket
  discard <| g.typeAnnotation
  memberEnd
  return true

def signature : P Unit := do
  g.optionalTypeParameters false true
  expectMark .lparen
  discard <| g.signatureParameters
  if ← isMark .colon then g.resultType .colon
  memberEnd

def accessorSignature : P Unit := do
  let reads ← eatWord .get
  unless reads do expectWord .set
  g.typeKey
  expectMark .lparen
  if reads then
    expectMark .rparen
    discard <| g.typeAnnotation
  else
    let found ← g.signatureParameters
    if found.isEmpty then failHere .setterSignatureParameter
  memberEnd

def typeMember : P Unit := do
  if (← isMark .lparen) || (← isMark .less) then g.signature
  else if (← isWord .«new») && ((← peekIsMark .lparen) || (← peekIsMark .less)) then
    bump
    g.signature
  else
    let readonly := (← modifier [.readonly] false).isSome
    if ← g.indexSignature then return
    let accessor ← attempt do
      if readonly then failHere .readonlyAccessor
      g.accessorSignature
      return some ()
    if accessor.isSome then return
    g.typeKey
    discard <| eatMark .question
    if (← isMark .lparen) || (← isMark .less) then
      if readonly then failHere .readonlyMethod
      g.signature
    else
      discard <| g.typeAnnotation
      memberEnd

def typeMembers : P Unit := do
  expectMark .lbrace
  discard <| many do
    if ← isMark .rbrace then return none
    g.typeMember
    return some ()
  expectMark .rbrace

/-- Whether braces hold a rule for keys, and no members. -/
def isMappedType : P Bool := lookAhead do
  bump
  if ← eatSign then return ← isWord .readonly
  discard <| eatWord .readonly
  unless ← eatMark .lbracket do return false
  unless ← isVariable do return false
  bump
  isWord .«in»

def mappedType : P Unit := do
  expectMark .lbrace
  if ← eatSign then expectWord .readonly
  else discard <| eatWord .readonly
  expectMark .lbracket
  discard <| identName
  unless ← eatWord .«in» do unexpected "in"
  g.type
  if ← eatWord .as then g.type
  expectMark .rbracket
  if ← eatSign then expectMark .question
  else discard <| eatMark .question
  discard <| g.typeAnnotation
  expectStatementEnd
  expectMark .rbrace

inductive TupleElement where
  | required
  | optional
  | rest
  deriving DecidableEq

def tupleElement : P TupleElement := do
  discard <| attempt do
    discard <| eatMark .ellipsis
    discard <| identName
    discard <| eatMark .question
    expectMark .colon
    return some ()
  if ← eatMark .ellipsis then
    g.type
    return .rest
  g.type
  return if ← eatMark .question then .optional else .required

def tupleType : P Unit := do
  let start ← offset
  expectMark .lbracket
  let elements ← commaList (.mark .rbracket) g.tupleElement
  expectMark .rbracket
  if (elements.dropWhile (· != .optional)).contains .required then fail .requiredAfterOptional start

/-- The text of a template behind a hole, whose brace is the current token: whether the template
ends. -/
def templateMiddle : P (Bool × Option SyntaxError) := do
  unless ← isMark .rbrace do expectMark .rbrace
  let s ← get
  let piece := templateRest s.token.start none 0 s.token.stop s.rest
  match piece.kind with
  | .template whole bad? =>
    set { s with
      token := { s.token with kind := piece.kind, stop := piece.stop }
      rest := piece.rest }
    bump
    return (whole, bad?)
  | .invalid e => throw e
  | _ => failHere .unterminatedTemplate

/-- The holes of a template, whose first text is the current token. A `strict` template has no bad
escape. -/
def templateOf {α : Type} (hole : P α) (strict : Bool) : P (List α) := do
  match ← currentKind with
  | .template whole bad? =>
    bump
    check bad?
    if whole then return []
    repeatFrom [] fun found => do
      let found := (← hole) :: found
      let (whole, bad?) ← templateMiddle
      check bad?
      return if whole then .done found.reverse else .again found
  | _ => failHere .expectedExpression
where
  check (bad? : Option SyntaxError) : P Unit := do
    match bad? with
    | some e => if strict then throw e
    | none => pure ()

def importType : P Unit := do
  bump
  expectMark .lparen
  match ← currentKind with
  | .string => bump
  | .invalid e =>
    bump
    throw e
  | _ =>
    reportHere .stringLiteralExpected
    bump
  if ← eatMark .comma then
    unless ← isMark .rparen do
      discard <| g.assignment
      discard <| eatMark .comma
  expectMark .rparen
  if ← eatMark .dot then dottedName false
  if ← isOpener then g.typeArguments

def queryType : P Unit := do
  bump
  if ← isWord .«import» then g.importType else dottedName true
  if !(← afterBreak) && (← isOpener) then g.typeArguments

/-- The words that are types of their own. -/
def isKeywordType (w : Word) : Bool :=
  [Word.void, .«null», .any, .boolean, .bigint, .never, .number, .object, .string, .symbol, .unknown,
    .undefined, .intrinsic].contains w

def thisType : P Unit := do
  bump
  if !(← afterBreak) && (← isWord .«is») then
    bump
    g.type

/-- A type without brackets behind it. -/
def simpleType : P Unit := do
  let token ← current
  match token.kind with
  | .string | .number | .bigint => bump
  | .template _ _ => discard <| templateOf g.type true
  | .ident => g.typeReference
  | .word w =>
    if w == .«import» then g.importType
    else if w == .«this» then g.thisType
    else if w == .typeof then g.queryType
    else if w == .trueWord || w == .falseWord then bump
    else if w == .asserts && (← peekIsWord .«this») then
      bump
      bump
      if ← eatWord .«is» then g.type
    else if isKeywordType w && !(← peekIsMark .dot) then bump
    else if isKeywordType w || !w.isReserved || w == .«break» then g.typeReference
    else unexpected wanted
  | .mark .minus =>
    bump
    match ← currentKind with
    | .number | .bigint => bump
    | _ => unexpected "numeric literal or bigint literal"
  | .mark .lbrace => if ← isMappedType then g.mappedType else g.typeMembers
  | .mark .lbracket => g.tupleType
  | .mark .lparen =>
    bump
    g.type
    expectMark .rparen
  | _ => unexpected wanted
where
  wanted : String :=
    "an identifier, void, yield, null, await, break, a string literal, a numeric literal, true, false, \x60, -, import, this, typeof, \x7b, [, ("

def arrayType : P Unit := do
  g.simpleType
  repeatFrom () fun _ => do
    if (← afterBreak) || !(← isMark .lbracket) then return .done ()
    bump
    unless ← eatMark .rbracket do
      g.type
      expectMark .rbracket
    return .again ()

def inferType : P Unit := do
  bump
  discard <| identName
  discard <| attempt do
    expectWord .«extends»
    g.plainType
    if (← context).plainTypesOnly || !(← isMark .question) then return some () else return none

/-- A type with the operators in front of it. -/
def operatorType : P Unit := do
  match ← currentKind with
  | .word .keyof | .word .unique | .word .readonly =>
    bump
    g.typeOperator
  | .word .infer => g.inferType
  | .endOfText => failHere .unexpectedEnd
  | .invalid e =>
    bump
    throw e
  | _ => g.arrayType

/-- Types joined by a mark, which may stand in front of the first too. -/
def joinedType (mark : Mark) (part : P Unit) : P Unit := do
  discard <| eatMark mark
  part
  repeatFrom () fun _ => do
    if ← eatMark mark then
      part
      return .again ()
    return .done ()

/-- Whether a parenthesis starts the parameters of a function type. -/
def startsFunctionType : P Bool := do
  if ← isMark .less then return true
  unless ← isMark .lparen do return false
  match ← settle (lookAhead startsParameters) with
  | .ok found => return found
  | .error _ => return false
where
  startsParameters : P Bool := do
    bump
    if (← isMark .rparen) || (← isMark .ellipsis) then return true
    discard <| eatModifier
    let skipped ←
      if ← isAnyWord then
        bump
        pure true
      else if (← isMark .lbrace) || (← isMark .lbracket) then
        match ← settle (g.binding false) with
        | .ok _ => pure true
        | .error _ => pure false
      else pure false
    unless skipped do return false
    match ← currentKind with
    | .mark .colon | .mark .comma | .mark .assign | .mark .question => return true
    | .mark .rparen => return ← peekIsMark .arrow
    | _ => return false

def unconditionalType : P Unit := do
  if ← g.startsFunctionType then g.functionType false
  else if ((← isWord .«abstract») && (← peekIsWord .«new»)) || (← isWord .«new») then
    g.functionType true
  else joinedType .or (joinedType .and g.typeOperator)

def wholeType : P Unit :=
  within (fun c => { c with plainTypesOnly := false }) do
    g.plainType
    if ← eatWordIf (!(← afterBreak)) .«extends» then
      within (fun c => { c with plainTypesOnly := true }) g.plainType
      expectMark .question
      g.type
      expectMark .colon
      g.type

/-- What a declaration extends or implements. -/
def heritageElement : P Expr := do
  let (start, n) ← identName
  let whole ← g.subscripts (.name start n) true true
  match whole with
  | .name _ _ | .member _ _ _ | .cast _ .instantiation _ => pure ()
  | _ => report .heritageName start
  match whole with
  | .cast _ .instantiation inner => return inner
  | _ =>
    if ← isOpener then g.typeArguments
    return whole

def heritage : P (List Expr) := commaList .heritage g.heritageElement

/-- Names that no interface and no class can have. -/
def isTypeName (n : Name) : Bool :=
  match Word.ofChars? n with
  | some w => isKeywordType w && w != .undefined
  | none => false

def interfaceDeclaration : P Stmt := do
  let (start, n) ← identName
  if isTypeName n then report .interfaceName start
  g.optionalTypeParameters true false
  if ← eatWord .«extends» then discard <| g.heritage
  if ← isWord .«extends» then
    reportHere .extendsSeen
    repeatFrom () fun _ => do
      if (← isEnd) || (← isMark .lbrace) then return .done ()
      bump
      return .again ()
  if ← isWord .implements then reportHere .interfaceImplements
  g.typeMembers
  return .types

def aliasDeclaration : P Stmt := do
  discard <| identName
  g.optionalTypeParameters true false
  unless ← eatMark .assign do unexpected "="
  g.type
  expectStatementEnd
  return .types

def enumMember : P (Option Expr) := do
  let start ← offset
  match ← currentKind with
  | .string => bump
  | .number =>
    bump
    report .numericEnumMember start
  | .mark .lbracket =>
    bump
    discard <| g.expression
    report .computedEnumMember start
    expectMark .rbracket
  | _ => discard <| identName
  if ← eatMark .assign then return some (← g.assignment)
  unless (← isMark .comma) || (← isMark .rbrace) do
    let at_ ← offset
    bump
    modify fun s => { s with token := { s.token with kind := .mark .comma } }
    report .expectedSemicolon at_
  return none

def enumDeclaration : P Stmt := do
  let (_, n) ← identName
  expectMark .lbrace
  let values ← commaList (.mark .rbrace) g.enumMember
  expectMark .rbrace
  return .enumeration n (values.filterMap id)

end Grammar

end ComponentBuild.Script
