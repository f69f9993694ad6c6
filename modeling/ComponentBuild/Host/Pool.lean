import ComponentBuild.Host.Worker

namespace ComponentBuild

/-- What one call does, each step at once. Others may go on between two steps. -/
inductive CallStep where
  | takeTurn
  /-- Waits for a slot and takes its worker out. -/
  | enter (slot : Nat)
  /-- Counts a worker that is ready. -/
  | count
  /-- Puts a worker back and leaves the slot. -/
  | leave (slot : Nat) (worker : Worker)
  /-- Leaves a slot empty. -/
  | abandon (slot : Nat)
  | host (s : HostStep)

def CallStep.Answer : CallStep → Type
  | takeTurn => Nat
  | enter _ => Option Worker
  | count => Unit
  | leave _ _ => Unit
  | abandon _ => Unit
  | host s => s.Answer

abbrev Call := ExceptT HostError (Dialogue CallStep CallStep.Answer)

namespace Call

def takeTurn : Call Nat := ExceptT.lift (Dialogue.question CallStep.takeTurn)

def enter (slot : Nat) : Call (Option Worker) :=
  ExceptT.lift (Dialogue.question (CallStep.enter slot))

def count : Call Unit := ExceptT.lift (Dialogue.question CallStep.count)

def leave (slot : Nat) (w : Worker) : Call Unit :=
  ExceptT.lift (Dialogue.question (CallStep.leave slot w))

def abandon (slot : Nat) : Call Unit := ExceptT.lift (Dialogue.question (CallStep.abandon slot))

def receive (p : Process) : Call Received :=
  ExceptT.lift (Dialogue.question (CallStep.host (.receive p)))

def startWorker : Call Worker := do
  let started : Except String Process ←
    ExceptT.lift (Dialogue.question (CallStep.host .start))
  match started with
  | .error cause => throw (.notStarted cause)
  | .ok p =>
    let w ← ExceptT.mk (pure (Worker.ofReady p (← receive p)))
    count
    return w

/-- Sends a request and waits for the reply to it. -/
def exchange (w : Worker) (r : Request) : Call Reply := do
  let sent : Except String Unit ←
    ExceptT.lift (Dialogue.question (CallStep.host (.send w.process (w.requestLine r))))
  match sent with
  | .error cause => throw (.protocol ("failed to write to bun stdin: " ++ cause))
  | .ok () => ExceptT.mk (pure (w.readReply r (← receive w.process)))

/-- Gets a reply with the worker of a slot. -/
def replyFrom (slot : Nat) (r : Request) : Call Reply := do
  let w ←
    match ← enter slot with
    | some w => pure w
    | none => startWorker
  let reply ← exchange w r
  leave slot w.advance
  return reply

/-- The reply to a request. A slot whose worker failed is left empty. -/
def reply (r : Request) : Call Reply := do
  let slot ← takeTurn
  tryCatch (replyFrom slot r) fun e => do
    abandon slot
    throw e

end Call

def Request.call (r : Request) : Dialogue CallStep CallStep.Answer ToolAnswer := do
  match ← (Call.reply r).run with
  | .ok reply => return reply.answer r
  | .error e => return .error (.host e.message)

/-- The slots with their workers, the turns taken, and the workers that ever got ready. -/
structure Pool where
  slots : List (Option Worker)
  turns : UInt64
  started : Nat
  deriving DecidableEq, Repr

namespace Pool

/-- A pool has at least one slot. -/
def ofCount (count : Nat) : Pool := ⟨List.replicate (max count 1) none, 0, 0⟩

/-- Answers a call that has the pool for itself. -/
def answer :
    (q : CallStep) → StateT Pool (Dialogue HostStep HostStep.Answer) q.Answer
  | .takeTurn => fun p =>
    pure (p.turns.toNat % p.slots.length, { p with turns := p.turns + 1 })
  | .enter slot => fun p => pure (p.slots[slot]?.join, { p with slots := p.slots.set slot none })
  | .count => fun p => pure ((), { p with started := p.started + 1 })
  | .leave slot w => fun p => pure ((), { p with slots := p.slots.set slot (some w) })
  | .abandon _ => fun p => pure ((), p)
  | .host s => fun p => (Dialogue.question s).bind fun a => pure (a, p)

/-- Runs a tool while no other call goes on. -/
def call (r : Request) : StateT Pool (Dialogue HostStep HostStep.Answer) ToolAnswer :=
  r.call.run answer

end Pool

end ComponentBuild
