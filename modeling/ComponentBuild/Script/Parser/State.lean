import ComponentBuild.Script.Lexer
import ComponentBuild.Script.Tree

namespace ComponentBuild.Script

/-- What surrounds the place that is parsed. -/
structure Context where
  topLevel : Bool := true
  inAsync : Bool := false
  inGenerator : Bool := false
  inFunction : Bool := false
  inParameters : Bool := false
  inStaticBlock : Bool := false
  inClass : Bool := false
  inClassField : Bool := false
  /-- Inside a function that has its own `this`. -/
  ownThis : Bool := false
  superAllowed : Bool := false
  hasSuperClass : Bool := false
  breakAllowed : Bool := false
  continueAllowed : Bool := false
  /-- The word `in` is an operator. -/
  inOperator : Bool := false
  inConditional : Bool := false
  /-- A colon ends the expression. -/
  colonExpected : Bool := false
  /-- In a declaration of what exists elsewhere. -/
  ambient : Bool := false
  /-- An `else` belongs to a statement further out. -/
  elseTaken : Bool := false
  loopHead : Bool := false
  awaitLoopHead : Bool := false
  /-- A question mark does not go on with the type. -/
  plainTypesOnly : Bool := false

structure State where
  token : Token
  rest : List Char
  /-- Where the token before stands. -/
  previous : Span
  context : Context
  faults : List SyntaxError
  labels : List Name
  /-- Where a property with a default stands that has not turned out to be in a pattern. -/
  strayDefaults : List Nat
  /-- The offset an arrow function could start at. -/
  arrowStart? : Option Nat
  /-- Faults are not collected, since the parse may be given up. -/
  muted : Bool
  typescript : Bool
  /-- More than the number of tokens that are left. -/
  bound : Nat

abbrev P := EStateM SyntaxError State

/-- Types, and some faults, only exist in one of the two languages. -/
def isTypescript : P Bool := return (← get).typescript

def current : P Token := return (← get).token

def currentKind : P TokenKind := return (← get).token.kind

def offset : P Nat := return (← get).token.start

def previousSpan : P Span := return (← get).previous

def context : P Context := return (← get).context

def afterBreak : P Bool := return (← get).token.afterBreak

def bump : P Unit :=
  modify fun s =>
    let lexed := nextToken s.typescript false s.token.stop s.rest
    { s with
      token := lexed.token
      rest := lexed.rest
      previous := ⟨s.token.start, s.token.stop⟩
      faults := if s.muted then s.faults else lexed.faults.reverse ++ s.faults }

def peek : P Token := do
  let s ← get
  return (nextToken s.typescript false s.token.stop s.rest).token

/-- Puts another token in the place of the current one, in front of the text from `stop` on. -/
def splitToken (m : Mark) : P Unit :=
  modify fun s =>
    { s with
      token := { s.token with kind := .mark m, stop := s.token.start + m.chars.length, text := m.chars }
      rest := s.token.text.drop m.chars.length ++ s.rest }

def collect (e : SyntaxError) : P Unit :=
  modify fun s => { s with faults := e :: s.faults }

/-- Collects the fault of a current token that is none, and leaves it behind. -/
def leaveInvalid : P Unit := do
  match ← currentKind with
  | .invalid e => bump; collect e
  | _ => return

/-- Collects a fault and goes on. -/
def report (fault : Fault) (offset : Nat) : P Unit := do
  unless (← get).muted do
    leaveInvalid
    collect ⟨fault, offset⟩

def reportError (e : SyntaxError) : P Unit := report e.fault e.offset

def fail {α : Type} (fault : Fault) (offset : Nat) : P α := do
  leaveInvalid
  throw ⟨fault, offset⟩

def failHere {α : Type} (fault : Fault) : P α := do
  fail fault (← offset)

def reportHere (fault : Fault) : P Unit := do
  report fault (← offset)

def unexpected {α : Type} (wanted : String) : P α := do
  failHere (.unexpected (← currentKind).describe wanted)

/-- Runs a parser in a changed context. -/
def within {α : Type} (change : Context → Context) (p : P α) : P α := fun s =>
  match p { s with context := change s.context } with
  | .ok a t => .ok a { t with context := s.context }
  | .error e t => .error e { t with context := s.context }

/-- Tries what only types can be; the state is as before if it comes to nothing. -/
def attempt {α : Type} (p : P (Option α)) : P (Option α) := fun s =>
  if s.typescript then
    match p { s with muted := true } with
    | .ok (some a) t => .ok (some a) { t with muted := s.muted, context := s.context }
    | .ok none _ => .ok none s
    | .error _ _ => .ok none s
  else .ok none s

/-- The answer of a parser that leaves the state as it was. -/
def lookAhead {α : Type} (p : P α) : P α := fun s =>
  match p { s with muted := true } with
  | .ok a _ => .ok a s
  | .error e _ => .error e s

/-- The value, or nothing where the parse ends; what was read stays read. -/
def settle {α : Type} (p : P α) : P (Except SyntaxError α) := fun s =>
  match p s with
  | .ok a t => .ok (.ok a) t
  | .error e t => .ok (.error e) t

inductive Turn (β α : Type) where
  | again (b : β)
  | done (a : α)

def iterate {β α : Type} (step : β → P (Turn β α)) : Nat → β → P α
  | 0, _ => failHere .nestedTooDeep
  | n + 1, b => do
    match ← step b with
    | .again b => iterate step n b
    | .done a => return a

/-- Repeats a step until it is done. Each turn but the last takes a token, so the bound of the
state is never reached. -/
def repeatFrom {β α : Type} (start : β) (step : β → P (Turn β α)) : P α := do
  iterate step (← get).bound start

def many {α : Type} (p : P (Option α)) : P (List α) :=
  repeatFrom [] fun found => do
    match ← p with
    | some a => return .again (a :: found)
    | none => return .done found.reverse

def isKind (kind : TokenKind) : P Bool := return (← currentKind) == kind

def isMark (m : Mark) : P Bool := isKind (.mark m)

def isWord (w : Word) : P Bool := isKind (.word w)

def isEnd : P Bool := isKind .endOfText

def isAnyWord : P Bool := return (← currentKind).isWord

def eatKind (kind : TokenKind) : P Bool := do
  if ← isKind kind then
    bump
    return true
  return false

def eatMark (m : Mark) : P Bool := eatKind (.mark m)

def eatWord (w : Word) : P Bool := eatKind (.word w)

def eatMarkIf (allowed : Bool) (m : Mark) : P Bool :=
  if allowed then eatMark m else pure false

def eatWordIf (allowed : Bool) (w : Word) : P Bool :=
  if allowed then eatWord w else pure false

/-- Takes a mark that only the typed dialect has at this place. -/
def eatTypeMark (m : Mark) : P Bool := do eatMarkIf (← isTypescript) m

def eatSign : P Bool := do
  if ← eatMark .plus then return true
  eatMark .minus

def expectKind (kind : TokenKind) : P Unit := do
  unless ← eatKind kind do
    failHere (.expected kind.describe (← currentKind).describe)

def expectMark (m : Mark) : P Unit := expectKind (.mark m)

def expectWord (w : Word) : P Unit := expectKind (.word w)

/-- Whether the next token is of a kind and on the same line. -/
def peekIsWord (w : Word) : P Bool := return (← peek).kind == .word w

def peekIsMark (m : Mark) : P Bool := return (← peek).kind == .mark m

def peekOnLine : P Bool := return !(← peek).afterBreak

def isStatementEnd : P Bool := do
  match ← currentKind with
  | .mark .semicolon => return true
  | .mark .rbrace => return true
  | .endOfText => return true
  | _ => afterBreak

def eatStatementEnd : P Bool := do
  if ← eatMark .semicolon then return true
  isStatementEnd

def expectStatementEnd : P Unit := do
  unless ← eatStatementEnd do
    failHere (.expected ";" (← currentKind).describe)

/-- In types a mark that starts with `>` closes a list of types. -/
def isCloser : P Bool := do
  match ← currentKind with
  | .mark m => return m.chars.head? == some '>'
  | _ => return false

def expectCloser : P Unit := do
  if ← isCloser then splitToken .greater
  expectMark .greater

/-- Whether a list of types can start here. -/
def isOpener : P Bool := return (← isMark .less) || (← isMark .shiftLeft)

def expectOpener : P Unit := do
  if ← isMark .shiftLeft then splitToken .less
  expectMark .less

/-- Words that name no variable. -/
def Word.isTaken (w : Word) : Bool :=
  w.isReserved || [Word.implements, .interface, .package, .«private», .«protected», .«public», .yield,
    .await].contains w

def TokenKind.isVariable : TokenKind → Bool
  | .word w => !w.isTaken
  | .ident => true
  | _ => false

/-- Whether the current token names a variable. -/
def isVariable : P Bool := return (← currentKind).isVariable

/-- Words that a shorthand property or an import without another name cannot have. -/
def isReservedName (n : Name) : Bool :=
  match Word.ofChars? n with
  | some w => w.isTaken || w == .«let»
  | none => false

def isStrictlyReserved (n : Name) : Bool := n == "eval".toList || n == "arguments".toList

/-- Any word, as the name of something that is no variable. -/
def identName : P (Nat × Name) := do
  let token ← current
  if token.kind.isWord then
    bump
    return (token.start, token.text)
  failHere .expectedIdent

def ident : P (Nat × Name) := do
  let token ← current
  unless token.kind.isWord do failHere .expectedIdent
  match token.kind with
  | .word w =>
    if [Word.enum, .yield, .«let», .static, .implements, .interface, .package, .«private»,
        .«protected», .«public»].contains w then
      report (.strictIdent token.text) token.start
    match w with
    | .await =>
      if (← context).ambient then bump
      else if (← context).inStaticBlock then failHere .expectedIdent
      else failHere .awaitIdent
    | .«this» => if ← isTypescript then bump else failHere .expectedIdent
    | w => if w.isReserved then failHere .expectedIdent else bump
  | _ =>
    if (← context).inClassField && token.text == "arguments".toList then
      report .argumentsInField token.start
    bump
  return (token.start, token.text)

def bindingIdent (noLet : Bool) : P (Nat × Name) := do
  let token ← current
  if noLet && token.kind == .word .«let» then
    unexpected "let is reserved in const, let, class declaration"
  else if token.kind == .ident then
    bump
    if isStrictlyReserved token.text then report .evalArguments token.start
    return (token.start, token.text)
  else
    let (start, name) ← ident
    let c ← context
    if ((c.inAsync || c.inStaticBlock) && name == Word.await.chars) ||
        (c.inGenerator && name == Word.yield.chars) then
      report .expectedIdent start
    return (start, name)

def optionalBindingIdent (noLet : Bool) : P (Option Name) := do
  if (← isVariable) || ((← isTypescript) && (← isWord .«this»)) then
    return some (← bindingIdent noLet).2
  return none

def privateName : P (Nat × Name) := do
  let start ← offset
  expectMark .hash
  if (← previousSpan).stop != (← offset) then fail .hashSpace start
  let (_, name) ← identName
  return (start, name)

end ComponentBuild.Script
