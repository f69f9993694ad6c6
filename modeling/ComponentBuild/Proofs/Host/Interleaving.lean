import ComponentBuild.Proofs.Host.History
import ComponentBuild.Proofs.Transcript
import Mathlib.Logic.Function.Basic

namespace ComponentBuild

namespace CallStep

/-- What a question and its answer are in the history. -/
def event (c : Nat) : (q : CallStep) → q.Answer → PoolEvent
  | .takeTurn, slot => .turn c slot
  | .enter slot, worker? => .entered c slot worker?
  | .count, _ => .counted c
  | .leave slot w, _ => .left c slot w
  | .abandon slot, _ => .abandoned c slot
  | .host .start, .ok p => .started c p
  | .host .start, .error _ => .notStarted c
  | .host (.send p line), result => .sent c p line result
  | .host (.receive p), x => .received c p x

@[simp] theorem event_call (c : Nat) (q : CallStep) (a : q.Answer) : (q.event c a).call = c := by
  cases q with
  | host step =>
    cases step with
    | start => cases a <;> rfl
    | send | receive => rfl
  | takeTurn | enter | count | leave | abandon => rfl

/-- Whether a call waits at a question. A failed call may wait for what its process leaves behind;
all else is done at once. -/
def waits : CallStep → Bool
  | takeTurn | enter _ | host _ | abandon _ => true
  | count | leave .. => false

/-- The calls that have slots for themselves, behind a question of a call. -/
def holders (c : Nat) : CallStep → (Nat → Option Nat) → Nat → Option Nat
  | enter slot, holders => Function.update holders slot (some c)
  | leave slot _, holders | abandon slot, holders => Function.update holders slot none
  | takeTurn, holders | count, holders | host _, holders => holders

end CallStep

/-- A call that has begun: what it asks for, and what is left of it. -/
structure CallState where
  request : Request
  rest : Dialogue CallStep CallStep.Answer ToolAnswer

/-- A pool with all calls that have begun. A call that was dropped has no state. -/
structure PoolState where
  pool : Pool
  /-- The calls that have slots for themselves. -/
  holders : Nat → Option Nat
  begun : Nat
  calls : Nat → Option CallState
  past : List PoolEvent

namespace PoolState

def ofCount (count : Nat) : PoolState := ⟨.ofCount count, fun _ => none, 0, fun _ => none, []⟩

/-- What can happen next: a call begins, gets an answer to its question, or is dropped. A slot is
entered only while no other call has it, and a process that starts is a new one. -/
inductive Step : PoolState → PoolState → Prop
  | start (s : PoolState) (r : Request) :
      Step s { s with
        begun := s.begun + 1
        calls := Function.update s.calls s.begun (some ⟨r, r.call⟩) }
  | ask {s : PoolState} {c : Nat} {r : Request} {q : CallStep}
      {next : q.Answer → Dialogue CallStep CallStep.Answer ToolAnswer} {a : q.Answer}
      {pool : Pool} {log : List (Exchange HostStep HostStep.Answer)}
      (hc : s.calls c = some ⟨r, .ask q next⟩)
      (hfree : ∀ slot, q = .enter slot → s.holders slot = none)
      (hanswer : (Pool.answer q s.pool).Transcript log (a, pool))
      (hnew : ∀ p, q.event c a = .started c p → ∀ e ∈ s.past, e.process? ≠ some p) :
      Step s { s with
        pool
        holders := q.holders c s.holders
        calls := Function.update s.calls c (some ⟨r, next a⟩)
        past := q.event c a :: s.past }
  | drop {s : PoolState} {c : Nat} {r : Request} {q : CallStep}
      {next : q.Answer → Dialogue CallStep CallStep.Answer ToolAnswer}
      (hc : s.calls c = some ⟨r, .ask q next⟩) (hq : q.waits = true) :
      Step s { s with
        holders := fun slot => if s.holders slot = some c then none else s.holders slot
        calls := Function.update s.calls c none
        past := .dropped c :: s.past }

/-- The states that a pool with a number of slots can come to. -/
inductive Reachable (count : Nat) : PoolState → Prop
  | start : Reachable count (.ofCount count)
  | step {s t : PoolState} (hs : Reachable count s) (h : s.Step t) : Reachable count t

end PoolState

/-- Where a call stands. -/
inductive Phase where
  | beginning
  | queued (slot : Nat)
  | starting (slot : Nat)
  | readying (slot : Nat) (p : Process)
  | counting (slot : Nat) (w : Worker)
  | sending (slot : Nat) (w : Worker)
  | receiving (slot : Nat) (w : Worker)
  | leaving (slot : Nat) (w : Worker) (reply : Reply)
  | abandoning (slot : Nat) (e : HostError)
  | ended (a : ToolAnswer)

namespace Phase

variable {r : Request} {slot : Nat}

/-- What a call goes on with when it has a slot. -/
def entered (slot : Nat) : Option Worker → Phase
  | some w => sending slot w
  | none => starting slot

def started (slot : Nat) : Except String Process → Phase
  | .ok p => readying slot p
  | .error cause => abandoning slot (.notStarted cause)

def ready (slot : Nat) : Except HostError Worker → Phase
  | .ok w => counting slot w
  | .error e => abandoning slot e

def sent (slot : Nat) (w : Worker) : Except String Unit → Phase
  | .ok _ => receiving slot w
  | .error cause => abandoning slot (.protocol ("failed to write to bun stdin: " ++ cause))

def replied (slot : Nat) (w : Worker) : Except HostError Reply → Phase
  | .ok reply => leaving slot w reply
  | .error e => abandoning slot e

/-- The question of a call in a phase, and the phase that each answer leads to. -/
inductive Asks (r : Request) : Phase → (q : CallStep) → (q.Answer → Phase) → Prop
  | beginning : Asks r .beginning .takeTurn queued
  | queued (slot : Nat) : Asks r (.queued slot) (.enter slot) (entered slot)
  | starting (slot : Nat) : Asks r (.starting slot) (.host .start) (started slot)
  | readying (slot : Nat) (p : Process) :
      Asks r (.readying slot p) (.host (.receive p)) fun x => ready slot (Worker.ofReady p x)
  | counting (slot : Nat) (w : Worker) : Asks r (.counting slot w) .count fun _ => .sending slot w
  | sending (slot : Nat) (w : Worker) :
      Asks r (.sending slot w) (.host (.send w.process (w.requestLine r))) (sent slot w)
  | receiving (slot : Nat) (w : Worker) :
      Asks r (.receiving slot w) (.host (.receive w.process)) fun x =>
        replied slot w (w.readReply r x)
  | leaving (slot : Nat) (w : Worker) (reply : Reply) :
      Asks r (.leaving slot w reply) (.leave slot w.advance) fun _ => .ended (reply.answer r)
  | abandoning (slot : Nat) (e : HostError) :
      Asks r (.abandoning slot e) (.abandon slot) fun _ => .ended (.error (.host e.message))

/-- What is left of a call goes through the phases from one on. -/
inductive Goes (r : Request) : Phase → Dialogue CallStep CallStep.Answer ToolAnswer → Prop
  | done (a : ToolAnswer) : Goes r (.ended a) (.done a)
  | ask {ph : Phase} {q : CallStep} {after : q.Answer → Phase}
      {next : q.Answer → Dialogue CallStep CallStep.Answer ToolAnswer}
      (hasks : Asks r ph q after) (h : ∀ a, Goes r (after a) (next a)) : Goes r ph (.ask q next)

/-- What is left of a call that has a slot, from what is left of getting a reply. -/
def rest (r : Request) (slot : Nat) (reply : Call Reply) :
    Dialogue CallStep CallStep.Answer ToolAnswer := do
  let result : Except HostError Reply ←
    (tryCatch reply fun e => do
      Call.abandon slot
      throw e : Call Reply).run
  match result with
  | .ok reply => return reply.answer r
  | .error e => return .error (.host e.message)

/-- What is left of getting a reply, from what came of the exchange. -/
def putBack (slot : Nat) (w : Worker) (result : Except HostError Reply) : Call Reply := do
  let reply ← ExceptT.mk (pure result)
  Call.leave slot w.advance
  return reply

def replyWith (r : Request) (slot : Nat) (w : Worker) : Call Reply := do
  let reply ← Call.exchange w r
  Call.leave slot w.advance
  return reply

/-- What is left of a start, from what came of the first line. -/
def countReady (result : Except HostError Worker) : Call Worker := do
  let w ← ExceptT.mk (pure result)
  Call.count
  return w

theorem goes_throw (e : HostError) : Goes r (.abandoning slot e) (rest r slot (throw e)) :=
  .ask (.abandoning slot e) fun _ => .done _

theorem goes_putBack (w : Worker) (result : Except HostError Reply) :
    Goes r (replied slot w result) (rest r slot (putBack slot w result)) := by
  cases result with
  | ok reply => exact .ask (.leaving slot w reply) fun _ => .done _
  | error e => exact goes_throw e

theorem goes_replyWith (w : Worker) :
    Goes r (.sending slot w) (rest r slot (replyWith r slot w)) := by
  refine .ask (.sending slot w) fun result => ?_
  cases result with
  | ok _ => exact .ask (.receiving slot w) fun x => goes_putBack w (w.readReply r x)
  | error cause => exact goes_throw _

theorem goes_countReady (result : Except HostError Worker) :
    Goes r (ready slot result) (rest r slot (countReady result >>= replyWith r slot)) := by
  cases result with
  | ok w => exact .ask (.counting slot w) fun _ => goes_replyWith w
  | error e => exact goes_throw e

theorem goes_call (r : Request) : Goes r .beginning r.call := by
  refine .ask .beginning fun slot => .ask (.queued slot) fun worker? => ?_
  cases worker? with
  | some w => exact goes_replyWith w
  | none =>
    refine .ask (.starting slot) fun result => ?_
    cases result with
    | ok p => exact .ask (.readying slot p) fun x => goes_countReady (Worker.ofReady p x)
    | error cause => exact goes_throw _

end Phase

end ComponentBuild
