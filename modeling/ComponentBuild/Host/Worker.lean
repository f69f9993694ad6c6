import ComponentBuild.Dialogue
import ComponentBuild.Host.Reply
import ComponentBuild.Json.Writer

namespace ComponentBuild

structure Process where
  id : Nat
  deriving DecidableEq, Repr, Inhabited

/-- What comes when a line of a process is awaited. -/
inductive Received where
  | line (text : String)
  /-- No more lines come: the process ended. -/
  | ended (code : Int) (told : String)
  /-- What came is no text. -/
  | broken (cause : String)
  deriving DecidableEq, Repr, Inhabited

/-- What the pool does with processes. -/
inductive HostStep where
  | start
  | send (p : Process) (line : String)
  | receive (p : Process)

def HostStep.Answer : HostStep → Type
  | start => Except String Process
  | send _ _ => Except String Unit
  | receive _ => Received

/-- A process that is ready, and the number of its next request. -/
structure Worker where
  process : Process
  next : Nat
  deriving DecidableEq, Repr, Inhabited

namespace Worker

/-- A process whose first line has come. -/
def ofReady (p : Process) : Received → Except HostError Worker
  | .ended code told => .error (.ended code told)
  | .broken cause => .error (.protocol ("failed to read bun ready: " ++ cause))
  | .line text =>
    match readyLine? text with
    | none => .error (.unreadable "invalid ready response: <json>")
    | some false => .error (.protocol ("unexpected bun ready response: " ++ text))
    | some true => .ok ⟨p, 1⟩

def requestLine (w : Worker) (r : Request) : String := (r.message w.next).render

def wrongReply (id : Nat) (r : Request) (found : Option Nat) : String :=
  "expected response " ++ toString id ++ " to " ++ r.operation ++ ", got " ++
    (match found with
      | some n => "Some(" ++ toString n ++ ")"
      | none => "None")

/-- The reply to the last request, from the line that came. -/
def readReply (w : Worker) (r : Request) : Received → Except HostError Reply
  | .ended code told => .error (.ended code told)
  | .broken cause => .error (.protocol ("failed to read bun response: " ++ cause))
  | .line text =>
    match Reply.parse? text with
    | none => .error (.unreadable "invalid response: <json>")
    | some reply =>
      match reply.fatal? with
      | some cause => .error (.protocol cause)
      | none =>
        if reply.id? = some w.next then .ok reply
        else .error (.protocol (wrongReply w.next r reply.id?))

def advance (w : Worker) : Worker := { w with next := w.next + 1 }

end Worker

end ComponentBuild
