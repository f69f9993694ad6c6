import ComponentBuild.Script.Parser.Function

namespace ComponentBuild.Script

namespace Grammar

variable (g : Grammar)

/-- What stands in front of the key of a member. -/
structure Modifiers where
  start : Nat
  declare? : Option Nat := none
  accessible : Bool := false
  static? : Option Nat := none
  isStatic : Bool := false
  accessor : Bool := false
  isAbstract : Bool := false
  isOverride : Bool := false
  readonly? : Option Nat := none
  /-- Where the last word stands that only modifies with types. -/
  last? : Option Nat := none

def isMethodStart : P Bool := do
  return (← isMark .lparen) || ((← isTypescript) && (← isMark .less))

/-- Whether what follows a key makes it a field. A line break does, if told so. -/
def isFieldEnd (breakEnds : Bool) : P Bool := do
  if (← isTypescript) && ((← isMark .bang) || (← isMark .colon)) then return true
  if (← isMark .assign) || (← isMark .rbrace) then return true
  if breakEnds then isStatementEnd else isMark .semicolon

def isConstructorKey : Key → Bool
  | .name _ n => n == Word.constructor.chars
  | .string _ text => (text.drop 1).dropLast == Word.constructor.chars
  | _ => false

def memberKey : P Key := do
  if ← isMark .hash then
    let (start, n) ← privateName
    if n == Word.constructor.chars then report .privateConstructor start
    return .privateName start n
  g.propertyKey

def accessModifier : P Bool := do
  match ← modifier [.«public», .«protected», .«private», .«in», .out] false with
  | some w =>
    if w == .«in» || w == .out then
      report (.modifierOnTypeOnly w.text) (← previousSpan).start
      return false
    return true
  | none => return false

def methodMember (m : Modifiers) (key : Key) (kind : MethodKind) (keyStart : Nat)
    (isAsync isGenerator : Bool) : P Member := do
  let f ← g.method kind keyStart isAsync isGenerator
  if key.isPrivate then
    if m.accessible then report .privateAccessibility m.start
  else if m.isAbstract then
    match f with
    | .mk _ .absent => pure ()
    | _ => report .abstractBody m.start
  return .method key f

def fieldMember (m : Modifiers) (key : Key) (isOptional : Bool) : P Member := do
  if isConstructorKey key then fail .constructorProperty key.start
  if key.isPrivate then
    if m.declare?.isSome then report (.privateModifier "declare") key.start
    if m.isAbstract then report (.privateModifier "abstract") key.start
  if (← isTypescript) && !isOptional then discard <| eatMark .bang
  discard <| g.typeAnnotation
  within (fun c => { c with inOperator := true, inClassField := true }) do
    let value? ← if ← eatMark .assign then some <$> g.assignment else pure none
    unless ← eatStatementEnd do reportHere .expectedSemicolon
    unless m.accessor do
      if key.isPrivate then
        if m.accessible then report .privateAccessibility m.start
      else if m.isAbstract && value?.isSome then report .abstractInitializer m.start
    return .field key value?

/-- A parameter of a constructor, and where it starts if it is a property too. -/
def constructorParameter : P (Pattern × Option Nat) := do
  let start ← offset
  let isProperty ←
    if ← isTypescript then
      let accessible ← accessModifier
      let isOverride := (← modifier [.override] false).isSome
      let readonly := (← modifier [.readonly] false).isSome
      pure (accessible || isOverride || readonly)
    else pure false
  let p ← g.parameter
  if isProperty then
    match p with
    | .name _ _ | .withDefault _ _ _ => return (p, some start)
    | _ => fail .parameterPropertyPattern p.start
  return (p, none)

/-- Types have no parameters on a constructor. -/
def constructorTypeParameters : P Unit := do
  if (← isTypescript) && (← isMark .less) then
    let start ← offset
    if ← peekIsMark .greater then
      bump
      let closer ← offset
      bump
      report .emptyTypeParameters start
      report .constructorTypeParameters closer
    else
      for at_ in ← g.typeParameters false true do
        report .constructorTypeParameters at_

def constructorMember (m : Modifiers) : P Member := do
  if (← isTypescript) && m.isOverride then report (.modifierOnConstructor "override") m.start
  g.constructorTypeParameters
  expectMark .lparen
  let found ← within (fun c => { c with inParameters := true, inFunction := false })
    (g.parametersOf (·, none) g.constructorParameter)
  expectMark .rparen
  if ← eatTypeMark .colon then
    let start ← offset
    g.type
    report .constructorType start
  let parameters := found.map Prod.fst
  let body ← within (fun c => { c with superAllowed := true, inClassField := false })
    (g.blockBody false false (allNames parameters))
  if body matches .absent then
    for start in found.filterMap Prod.snd do report .parameterProperty start
    if ← isTypescript then checkDefaults parameters
  match m.static? with
  | some start => report (.modifierOnConstructor "static") start
  | none => pure ()
  match m.last? with
  | some start => if m.isAbstract then report .abstractHere start
  | none => pure ()
  return .constructor (.mk parameters body)

/-- A word that could be a modifier, if it turns out to be the key. -/
def wordMember? (m : Modifiers) (key : Key) (breakEnds : Bool) : P (Option Member) := do
  if ← isMethodStart then
    return some (← g.methodMember m key .ordinary key.start false false)
  if (← isFieldEnd breakEnds) || ((← isTypescript) && (← isMark .question)) then
    let isOptional ← eatTypeMark .question
    if isOptional && (← isMethodStart) then
      return some (← g.methodMember m key .ordinary key.start false false)
    return some (← g.fieldMember m key isOptional)
  return none

/-- The modifiers that only exist with types, in any order. -/
def typedModifiers (m : Modifiers) : P Modifiers :=
  repeatFrom m fun m => do
    match ← modifier [.«abstract», .readonly, .override, .static] true with
    | none => return .done m
    | some w =>
      let start := (← previousSpan).start
      let m := { m with last? := some start }
      if w == .«abstract» then
        if m.isAbstract then report (.modifierSeen "abstract") start
        else if m.isOverride then report (.modifierOrder "abstract" "override") start
        return .again { m with isAbstract := true }
      else if w == .override then
        if m.isOverride then report (.modifierSeen "override") start
        else if m.readonly?.isSome then report (.modifierOrder "override" "readonly") start
        else if m.declare?.isSome then report (.modifierConflict "override" "declare") start
        else if !(← context).hasSuperClass then report .overrideWithoutExtends start
        return .again { m with isOverride := true }
      else if w == .readonly then
        if m.readonly?.isSome then
          report (.modifierSeen "readonly") start
          return .again m
        return .again { m with readonly? := some start }
      else
        if m.isOverride then report (.modifierOrder "static" "override") start
        return .again { m with isStatic := true }

def staticBlock : P Member := do
  return .staticBlock (← within (fun c => { c with inStaticBlock := true, inClassField := true })
    g.block)

def keyedMember (m : Modifiers) : P Member := do
  let key ←
    match m.readonly? with
    | some start =>
      if (← isMark .bang) || (← isMark .colon) || (← isMark .assign) || (← isMark .rbrace) then
        pure (Key.name start Word.readonly.chars)
      else g.memberKey
    | none => g.memberKey
  let isOptional ← eatTypeMark .question
  if ← isMethodStart then
    match m.declare? with
    | some start => report .declareOnMember start
    | none => pure ()
    if m.readonly?.isSome then fail .readonlyMethod m.start
    if isConstructorKey key then return ← g.constructorMember m
    return ← g.methodMember m key .ordinary key.start false false
  let starOnNextLine := (← afterBreak) && (← isMark .star)
  let reads := key.name? == some Word.get.chars
  let accessor := (reads || key.name? == some Word.set.chars) && !(← isFieldEnd false) &&
    !starOnNextLine
  if !accessor && (← isFieldEnd true) then return ← g.fieldMember m key isOptional
  if key.name? == some Word.async.chars && !(← afterBreak) then
    if (← modifier [.override] false).isSome then
      report (.modifierOrder "override" "async") (← previousSpan).start
    let isGenerator ← eatMark .star
    let key ← g.memberKey
    if isConstructorKey key then fail .asyncConstructor key.start
    if m.readonly?.isSome then fail .readonlyMethod m.start
    if ← isTypescript then discard <| eatMark .question
    return ← g.methodMember m key .ordinary key.start true isGenerator
  if accessor then
    let keyStart := key.start
    let key ← g.memberKey
    if m.readonly?.isSome then report .readonlyAccessor keyStart
    if isConstructorKey key then report .constructorAccessor keyStart
    let kind := if reads then MethodKind.getter else MethodKind.setter
    return ← g.methodMember m key kind keyStart false false
  unexpected "* for generator, private key, identifier or async"

def modifiedMember (m : Modifiers) : P Member := do
  let m ← typedModifiers m
  let accessorStart ← offset
  let accessor ←
    eatWordIf (!m.accessor && (← isTypescript)) .accessor
  if accessor then
    match ← g.wordMember? m (.name accessorStart Word.accessor.chars) false with
    | some found => return found
    | none => pure ()
  let m := { m with accessor := m.accessor || accessor }
  if m.isStatic && (← isMark .lbrace) then
    match m.declare? with
    | some start => report .modifierHere start
    | none => pure ()
    if m.accessible then reportHere .modifierHere
    return ← g.staticBlock
  if (← isWord .static) && (← peekIsMark .lbrace) then
    for start in m.last?.toList ++ m.static?.toList do report .modifierHere start
    bump
    return ← g.staticBlock
  if (← isTypescript) && !m.isAbstract && !m.isOverride && !m.accessible then
    if ← g.indexSignature then return .signature
  if ← eatMark .star then
    let key ← g.memberKey
    if m.readonly?.isSome then report .readonlyMethod m.start
    if isConstructorKey key then report .generatorConstructor m.start
    return ← g.methodMember m key .ordinary key.start false true
  g.keyedMember m

def classMember : P Member := do
  let m : Modifiers := { start := ← offset }
  let declareStart ← offset
  let declare ← eatWordIf (← isTypescript) .declare
  let accessible ← if ← isTypescript then accessModifier else pure false
  let m := { m with accessible }
  let again ← offset
  let late ← eatWordIf (!declare && (← isTypescript)) .declare
  let declareStart := if late then again else declareStart
  if declare || late then
    match ← g.wordMember? m (.name declareStart Word.declare.chars) true with
    | some found => return found
    | none => pure ()
  let m := { m with declare? := if declare || late then some declareStart else none }
  let staticStart ← offset
  if ← eatWord .static then
    match ← g.wordMember? m (.name staticStart Word.static.chars) false with
    | some found => return found
    | none => g.modifiedMember { m with static? := some staticStart, isStatic := true }
  else g.modifiedMember m

def classMembers : P (List Member) :=
  repeatFrom ([], false) fun (found, constructed) => do
    if (← isEnd) || (← isMark .rbrace) then return .done found.reverse
    if ← eatMark .semicolon then return .again (found, constructed)
    let start ← offset
    let next ← within (fun c => { c with superAllowed := true }) g.classMember
    let constructs :=
      match next with
      | .constructor (.mk _ .absent) => false
      | .constructor _ => true
      | _ => false
    if constructs && constructed && !(← context).ambient then report .duplicateConstructor start
    return .again (next :: found, constructed || (constructs && !(← context).ambient))

def superClass : P Expr := do
  match ← g.leftHand with
  | .cast _ .instantiation inner => return inner
  | whole =>
    if (← isTypescript) && (← isOpener) then g.typeArguments
    return whole

def classHeritage : P (Option Expr × List Expr) := do
  let super? ←
    if ← eatWord .«extends» then
      let first ← g.superClass
      if ← eatTypeMark .comma then
        for other in ← g.heritage do report .extendsSingle other.start
      pure (some first)
    else pure none
  if ← eatWord .«extends» then
    report .extendsSeen (← previousSpan).start
    discard <| g.superClass
  unless ← isTypescript do return (super?, [])
  let implemented ← if ← eatWord .implements then g.heritage else pure []
  if ← eatWord .implements then
    report .implementsSeen (← previousSpan).start
    discard <| g.heritage
  if ← eatWord .«extends» then
    report .extendsFirst (← previousSpan).start
    let late ← g.superClass
    return (some (super?.getD late), implemented)
  return (super?, implemented)

/-- A class from the word `class` on. -/
def classFrom (named : Bool) : P (Option Name × Class) :=
  within (fun c => { c with inClass := true }) do
    expectWord .«class»
    let nameStart ← offset
    let n ← if named then pure (some (← bindingIdent true).2) else optionalBindingIdent true
    if (← isTypescript) && n.any isTypeName then report .className nameStart
    g.optionalTypeParameters true true
    let (super?, implemented) ← g.classHeritage
    expectMark .lbrace
    let members ← within (fun c => { c with hasSuperClass := super?.isSome }) g.classMembers
    if ← isEnd then reportHere (.expected "\x7d" (← currentKind).describe)
    else expectMark .rbrace
    return (n, .mk super? implemented members)

def classDeclaration : P Stmt := do
  let (n, c) ← g.classFrom true
  return .classDef (n.getD []) c

def classExpression (start : Nat) : P Expr := do
  let (n, c) ← g.classFrom false
  return .classDef start n c

end Grammar

end ComponentBuild.Script
