import ComponentBuild.Build.Ledger
import ComponentBuild.Build.Project
import ComponentBuild.Compile.Run
import ComponentBuild.Report.Render

namespace ComponentBuild

/-- What the building of documents asks of its surroundings. -/
inductive BuildStep where
  | file (q : FileStep)
  | tool (r : Request)
  | ledger (q : LedgerStep)
  /-- Shows a text to the author. -/
  | tell (text : String)

def BuildStep.Answer : BuildStep → Type
  | file q => q.Answer
  | tool _ => ToolAnswer
  | ledger q => q.Answer
  | tell _ => Unit

/-- What holds for all documents that are built. -/
structure BuildPlan where
  project : Project
  options : BuildOptions
  /-- Whether reports have colours. -/
  color : Bool
  deriving Repr

abbrev Task := Dialogue BuildStep BuildStep.Answer

namespace Task

def ledger (q : LedgerStep) : Task q.Answer := Dialogue.question (BuildStep.ledger q)

def tell (text : String) : Task Unit := Dialogue.question (BuildStep.tell text)

def files {α : Type} (d : Files α) : Task α :=
  d.translate fun q => Dialogue.question (BuildStep.file q)

/-- What the stages of a document ask. -/
def say : (q : Step) → Task q.Answer
  | .call r => Dialogue.question (BuildStep.tool r)
  | .dependency document file => ledger (.addDependency document file)
  | .error document e => ledger (.addError document e)

def tellErrors (plan : BuildPlan) (document : Path) (source : String) : Task Unit := do
  let errors : List DocumentError ← ledger (.takeErrors document)
  errors.forM fun e => tell (Report.render plan.color document source e ++ "\n")

/-- Builds a document. Whether it could be built; its own faults are told, but nobody is told of
places that do not fit into words. -/
def buildDocument (plan : BuildPlan) (document : Path) : Task (Except BuildError Bool) := do
  let file := plan.project.workspace.join document
  match ← files (Files.read file) with
  | .error e => return .error (.unread file e)
  | .ok source =>
    let _ : Unit ← ledger (.forget document)
    match ← (ComponentBuild.buildDocument plan.options document source).translate say with
    | .error (.internal e) => return .error (.internal document e)
    | .error .overflow => return .ok false
    | .ok none =>
      tellErrors plan document source
      return .ok false
    | .ok (some compiled) =>
      match ← files (plan.project.writeOutput document compiled) with
      | .error e => return .error e
      | .ok _ => return .ok true

/-- How an error that is no document's is shown. -/
def failureText (message : String) : String := "Error: " ++ message ++ "\n"

/-- Builds a document. Whether it could be built; all that goes wrong is told. -/
def attempt (plan : BuildPlan) (document : Path) : Task Bool := do
  match ← buildDocument plan document with
  | .ok built => return built
  | .error e =>
    tell (failureText e.message)
    return false

def buildEach (plan : BuildPlan) : List Path → Task Nat
  | [] => pure 0
  | document :: rest => do
    let built ← attempt plan document
    let failed ← buildEach plan rest
    return if built then failed else failed + 1

def buildAll (plan : BuildPlan) (documents : List Path) : Task Report.Summary := do
  return ⟨documents.length, ← buildEach plan documents⟩

end Task

end ComponentBuild
