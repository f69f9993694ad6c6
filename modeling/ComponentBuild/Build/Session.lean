import ComponentBuild.Build.Affected
import ComponentBuild.Build.Task
import ComponentBuild.Host.Pool

namespace ComponentBuild

/-- What the program asks of the system it runs on. -/
inductive SystemStep where
  | file (q : FileStep)
  | host (launch : Launch) (q : HostStep)
  /-- Asks another program for its version. -/
  | version (program : Path)
  | print (text : String)
  | complain (text : String)

def SystemStep.Answer : SystemStep → Type
  | file q => q.Answer
  | host _ q => q.Answer
  | version _ => Except HostError String
  | print _ => Unit
  | complain _ => Unit

/-- What runs on a system. -/
abbrev Program := Dialogue SystemStep SystemStep.Answer

namespace Program

def print (text : String) : Program Unit := Dialogue.question (SystemStep.print text)

def complain (text : String) : Program Unit := Dialogue.question (SystemStep.complain text)

def files {α : Type} (d : Files α) : Program α :=
  d.translate fun q => Dialogue.question (SystemStep.file q)

end Program

structure Session where
  plan : BuildPlan
  launch : Launch
  pool : Pool
  ledger : Ledger
  /-- Whether the output of earlier builds stays on the screen. -/
  keepsOutput : Bool

namespace Session

def answer : (q : BuildStep) → StateT Session Program q.Answer
  | .file q => fun s => do
    return (← Dialogue.question (SystemStep.file q), s)
  | .tool r => fun s => do
    let (a, pool) ← ((Pool.call r).run s.pool).translate fun q =>
      Dialogue.question (SystemStep.host s.launch q)
    return (a, { s with pool })
  | .ledger q => fun s =>
    let (a, ledger) := Ledger.answer q s.ledger
    pure (a, { s with ledger })
  | .tell text => fun s => do
    Program.complain text
    return ((), s)

/-- Builds documents and tells how it went. -/
def build (documents : List Path) : StateT Session Program Report.Summary := do
  let summary ← (Task.buildAll (← get).plan documents).run answer
  Program.print (summary.text ++ "\n")
  return summary

/-- What moves the cursor to the start of an empty screen. -/
def clearScreen : String := "\x1b[2J\x1b[1;1H"

/-- Builds again what is affected by changes of files. -/
def rebuild (changed : List Path) : StateT Session Program Unit := do
  let s ← get
  let documents ← Program.files (s.plan.project.affectedDocuments s.ledger changed)
  if documents.isEmpty then return
  if !s.keepsOutput then Program.print clearScreen
  Program.print
    ("File changed, rebuilding " ++ toString documents.length ++ " documents...\n\n")
  let _ ← build documents

end Session

end ComponentBuild
