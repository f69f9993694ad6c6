import ComponentBuild.Script.Parser.Module
import ComponentBuild.Position.LineIndex

namespace ComponentBuild.Script

/-- The two languages of scripts. -/
inductive Dialect where
  | javascript
  | typescript
  deriving DecidableEq, Repr, Inhabited

/-- Why a script has no tree. `line` counts from one. -/
structure ParseError where
  message : String
  line : UInt32
  column : UInt32
  deriving DecidableEq, Repr, Inhabited

namespace ParseError

/-- The message with where it belongs. -/
def display (e : ParseError) : String :=
  e.message ++ " (" ++ toString e.line ++ ":" ++ toString e.column ++ ")"

end ParseError

/-- The text of a script behind a byte order mark. -/
def withoutMark : List Char → List Char
  | '\ufeff' :: cs => cs
  | cs => cs

/-- The first token, behind a line that tells a system how to run the script. -/
def startState (typescript : Bool) (cs : List Char) : State :=
  let line := match cs with
    | '#' :: '!' :: _ => cs.takeWhile (!isLineEnd ·)
    | _ => []
  let lexed := nextToken typescript true (Text.byteLength line) (cs.drop line.length)
  { token := lexed.token
    rest := lexed.rest
    previous := ⟨0, 0⟩
    context := {}
    faults := lexed.faults.reverse
    labels := []
    strayDefaults := []
    arrowStart? := none
    muted := false
    typescript
    bound := cs.length + 2 }

def moduleItems (g : Grammar) : P (List Stmt) :=
  many do
    if ← isEnd then return none
    return some (← g.anyStatement true true)

/-- The items of a module, or its first fault; a fault that ends the parse goes first. -/
def parseChars (typescript : Bool) (cs : List Char) : Except SyntaxError (List Stmt) :=
  match moduleItems (grammar (8 * (cs.length + 8))) (startState typescript cs) with
  | .error e _ => .error e
  | .ok items s =>
    match s.faults.getLast? with
    | some e => .error e
    | none => .ok items

/-- A fault as it is told. Its offset counts from behind the mark but is looked up in the whole
text; one that names no place there is told at the start. -/
def ParseError.ofFault (cs : List Char) (e : SyntaxError) : ParseError :=
  let position := ((LineIndex.ofChars cs).unitLineCol? cs e.offset).getD ⟨0, 0⟩
  { message := e.fault.message, line := position.line + 1, column := position.col }

def parse (dialect : Dialect) (source : String) : Except ParseError (List Stmt) :=
  match parseChars (dialect == .typescript) (withoutMark source.toList) with
  | .ok items => .ok items
  | .error e => .error (.ofFault source.toList e)

end ComponentBuild.Script
