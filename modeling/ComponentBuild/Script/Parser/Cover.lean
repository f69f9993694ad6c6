import ComponentBuild.Script.Parser.State

namespace ComponentBuild.Script

/-- Whether a value can be assigned to the expression itself, not to parts of a value. -/
def Expr.isAssignable : Expr → Bool
  | .name _ n => !isStrictlyReserved n
  | .paren _ e => e.isAssignable
  | .member _ chained whole => !chained && !whole.isChain && isAssignableObject whole
  | .index _ chained whole _ => !chained && !whole.isChain && isAssignableObject whole
  | .cast _ kind e => kind != .asConst && e.isAssignable
  | _ => false
where
  /-- Of a property of a property the inner one has to be assignable too. -/
  isAssignableObject : Expr → Bool
    | .member _ chained whole => !chained && !whole.isChain && isAssignableObject whole
    | .index _ chained whole _ => !chained && !whole.isChain && isAssignableObject whole
    | _ => true

/-- Reports an expression in front of an assignment or an update that cannot be assigned to. -/
def checkTarget (denyCall : Bool) (e : Expr) : P Unit := do
  if ← isTypescript then
    match e with
    | .name start n =>
      if isStrictlyReserved n then report .argumentsUse start
    | e =>
      if !e.isAssignable && denied e then report .assignTarget e.start
  else if !e.isAssignable then report .assignTarget e.start
where
  denied : Expr → Bool
    | .literal _ _ => false
    | .binary _ _ _ _ => false
    | .call _ false _ _ => denyCall
    | .paren _ e => denied e
    | _ => true

/-- A property with a default is in a pattern after all. -/
def placeDefault (start : Nat) : P Unit :=
  modify fun s => { s with strayDefaults := s.strayDefaults.filter (· != start) }

/-- Whether an expression can stand in a pattern that assigns, as it is. -/
def Expr.isElement : Expr → Bool
  | .name _ _ | .member _ false _ | .index _ false _ _ | .call _ false _ _ | .construct _ _ _ _
  | .literal _ _ | .function _ _ _ | .classDef _ _ _ | .paren _ _ | .template _ _ | .cast _ _ _ =>
    true
  | _ => false

mutual

/-- Reads an expression as a pattern, of one that assigns or of one that binds names. -/
def Expr.toPattern (assigning : Bool) : Expr → P Pattern
  | .invalid start => return .invalid start
  | .name start n => do
    if assigning && isStrictlyReserved n then report .notSimpleTarget start
    return .name start n
  | .assign start true target value => return .withDefault start target value
  | .object start properties trailingComma? => do
    return .object start (← propertiesToPattern assigning trailingComma? properties)
  | .array start items trailingComma? => do
    return .array start (← itemsToPattern assigning trailingComma? items)
  | e => do
    if assigning && e.isElement then
      unless e.isAssignable do report .notSimpleTarget e.start
      return .target e
    report .notPattern e.start
    return .invalid e.start

def propertiesToPattern (assigning : Bool) (trailingComma? : Option Nat) :
    List Property → P (List PatternProperty)
  | [] => return []
  | property :: properties => do
    let first ← propertyToPattern assigning (properties.isEmpty) trailingComma? property
    return first :: (← propertiesToPattern assigning trailingComma? properties)

def propertyToPattern (assigning last : Bool) (trailingComma? : Option Nat) :
    Property → P PatternProperty
  | .shorthand start n => return .shorthand start n none
  | .keyValue key value => return .keyValue key (← value.toPattern assigning)
  | .withDefault start n value => do
    placeDefault start
    return .shorthand start n (some value)
  | .method start _ _ => fail .notPattern start
  | .spread start e => do
    if !last then report .restNotLast start
    else
      match trailingComma? with
      | some comma => report .restComma comma
      | none => pure ()
    if assigning then
      let inner ← e.toPattern true
      match inner with
      | .withDefault _ _ _ => report .restParameterInitializer start
      | _ => pure ()
      return .rest start inner
    else
      match e with
      | .name s n => return .rest start (.name s n)
      | _ =>
        report .restNeedsIdentifier start
        return .rest start (.invalid start)

def itemsToPattern (assigning : Bool) (trailingComma? : Option Nat) : List Item → P (List Pattern)
  | [] => return []
  | item :: items => do
    let last := items.isEmpty
    match item with
    | .hole =>
      if items.all (fun i => i matches .hole) then return []
      return .hole :: (← itemsToPattern assigning trailingComma? items)
    | .plain e =>
      let first ← e.toPattern assigning
      return first :: (← itemsToPattern assigning trailingComma? items)
    | .spread start e =>
      if last then
        if e matches .assign _ _ _ _ then report .restParameterInitializer start
        match trailingComma? with
        | some comma => report .restComma comma
        | none => pure ()
        return [.rest start (← e.toPattern assigning)]
      report .restNotLast e.start
      itemsToPattern assigning trailingComma? items

end

/-- Whether something that is no pattern can stand in front of an assignment. -/
def Expr.isTarget : Expr → Bool
  | .name _ _ | .member _ _ _ | .index _ _ _ _ | .call _ true _ _ | .paren _ _ => true
  | .cast _ kind _ => kind != .asConst
  | _ => false

/-- What stands in front of `=`, or is assigned to by a loop. -/
def Expr.toTarget (e : Expr) : P Pattern := do
  match e with
  | .invalid start => return .invalid start
  | .object _ _ _ => e.toPattern true
  | .array _ _ _ => e.toPattern true
  | .name start n =>
    checkTarget true e
    return .name start n
  | e =>
    checkTarget true e
    return .target e

mutual

/-- The offsets of names that no parameter can have. -/
def Pattern.reservedNames : Pattern → List Nat
  | .name start n => if isStrictlyReserved n then [start] else []
  | .array _ elements => reservedInElements elements
  | .object _ properties => reservedInProperties properties
  | .withDefault _ left _ => left.reservedNames
  | .rest _ inner => inner.reservedNames
  | _ => []

def reservedInElements : List Pattern → List Nat
  | [] => []
  | element :: elements => element.reservedNames ++ reservedInElements elements

def reservedInProperties : List PatternProperty → List Nat
  | [] => []
  | property :: properties => reservedInProperty property ++ reservedInProperties properties

def reservedInProperty : PatternProperty → List Nat
  | .keyValue _ value => value.reservedNames
  | .shorthand start n _ => if isStrictlyReserved n then [start] else []
  | .rest _ inner => inner.reservedNames

end

/-- A parameter of an arrow function, as it was parsed. -/
inductive ParenItem where
  | item (i : Item)
  | pattern (p : Pattern)

def ParenItem.start : ParenItem → Nat
  | .item i => i.start
  | .pattern p => p.start

/-- Reads the contents of parentheses as parameters. -/
def parenParameters (trailingComma? : Option Nat) (items : List ParenItem) : P (List Pattern) := do
  let parameters ← parameters items
  for start in parameters.flatMap Pattern.reservedNames do
    report .evalArguments start
  return parameters
where
  restComma : P Unit := do
    match trailingComma? with
    | some comma => report .restComma comma
    | none => pure ()
  parameters : List ParenItem → P (List Pattern)
    | [] => return []
    | [.item (.spread start e)] => do
      if e matches .assign _ _ _ _ then report .restParameterInitializer start
      restComma
      return [.rest start (← e.toPattern false)]
    | [.pattern (.rest start inner)] => do
      restComma
      return [.rest start inner]
    | .item (.spread start _) :: items => do
      report .restParameterLast start
      parameters items
    | .pattern (.rest start _) :: items => do
      report .restParameterLast start
      parameters items
    | .item (.plain e) :: items => do
      let first ← e.toPattern false
      return first :: (← parameters items)
    | .item .hole :: items => parameters items
    | .pattern p :: items => do
      return p :: (← parameters items)

end ComponentBuild.Script
