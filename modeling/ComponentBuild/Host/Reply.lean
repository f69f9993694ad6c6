import ComponentBuild.Host.Error
import ComponentBuild.Json.Reader
import ComponentBuild.Position.V3
import ComponentBuild.Tool.Request

namespace ComponentBuild

namespace Json

/-- The fields of a record, by their names in order. Fields that an array leaves out are missing. -/
def recordFields? (names : List String) : Json → Option (List (String × Json))
  | .object fields => some fields
  | .array items => if items.length ≤ names.length then some (names.zip items) else none
  | _ => none

end Json

/-- What a tool made, as it is written in a reply. -/
structure Payload where
  code : String
  /-- The text of a source map. -/
  map? : Option String
  dependencies : List String
  deriving DecidableEq, Repr

/-- A reply of the host. A fatal one tells that the host did not understand. -/
structure Reply where
  id? : Option Nat
  result? : Option Payload
  failure? : Option ToolFailure
  fatal? : Option String
  deriving DecidableEq, Repr

namespace Payload

def ofJson? (v : Json) : Option Payload := do
  let fields ← Json.recordFields? ["code", "map", "dependencies"] v
  let code ← Json.required? fields "code" Json.toText?
  let map? ← Json.optional? fields "map" Json.toText?
  let dependencies ←
    match ← Json.field? fields "dependencies" with
    | none => some []
    | some v => v.toList? Json.toText?
  return { code, map?, dependencies }

/-- The map that a payload carries. -/
def positionMap (p : Payload) : Except ToolError (Option PositionMap) :=
  match p.map? with
  | none => .ok none
  | some text =>
    match PositionMap.ofV3Text text with
    | .ok m => .ok (some m)
    | .error e =>
      .error (.host ("bun returned an unreadable map: invalid source map: " ++ e.message))

/-- The answer to a request. Only tools for sections tell what they read, and instrumented code
has no map. -/
def answer (p : Payload) : Request → ToolAnswer
  | .instrument .. => .ok ⟨p.code, none, []⟩
  | .preprocess .. => do return ⟨p.code, ← p.positionMap, p.dependencies.map Path.mk⟩
  | _ => do return ⟨p.code, ← p.positionMap, []⟩

end Payload

namespace ToolPosition

/-- A position in a reply; there is no line in front of the first. -/
def ofJson? (v : Json) : Option ToolPosition := do
  let fields ← Json.recordFields? ["line", "column"] v
  let line ← Json.required? fields "line" Json.toWord?
  let column ← Json.required? fields "column" Json.toWord?
  return ⟨if line = 0 then 1 else line, column⟩

end ToolPosition

namespace ToolFailure

/-- A failure in a reply. An empty frame is none. -/
def ofJson? (v : Json) : Option ToolFailure := do
  let fields ← Json.recordFields? ["message", "start", "frame"] v
  let message ← Json.required? fields "message" Json.toText?
  let start ← Json.optional? fields "start" ToolPosition.ofJson?
  let frame ← Json.optional? fields "frame" Json.toText?
  return { message, start, frame := frame.filter (· != "") }

end ToolFailure

namespace Reply

def ofJson? (v : Json) : Option Reply := do
  let fields ← Json.recordFields? ["id", "result", "error", "fatal"] v
  if v matches .array [] then none
  let id? ← Json.optional? fields "id" Json.toWord64?
  let result? ← Json.optional? fields "result" Payload.ofJson?
  let failure? ← Json.optional? fields "error" ToolFailure.ofJson?
  let fatal? ← Json.optional? fields "fatal" Json.toText?
  return { id?, result?, failure?, fatal? }

/-- The reply a line holds. -/
def parse? (line : String) : Option Reply := (Json.parse? line.toList).bind ofJson?

/-- What a reply means for the request it belongs to. A failure goes before a result. -/
def answer (reply : Reply) (r : Request) : ToolAnswer :=
  match reply.failure?, reply.result? with
  | some failure, _ => .error (.failed failure)
  | none, some payload => payload.answer r
  | none, none => .error (.host (HostError.protocol "response without result").message)

end Reply

/-- Whether a line tells that the host is ready; nothing if it is no such line. -/
def readyLine? (line : String) : Option Bool := do
  let fields ← Json.recordFields? ["ready"] (← Json.parse? line.toList)
  Json.required? fields "ready" Json.toBool?

end ComponentBuild
