import ComponentBuild.Build.Task
import ComponentBuild.Proofs.Transcript
import Mathlib.Logic.Function.Basic

namespace ComponentBuild

/-- Whether a question to the files was answered without an error. -/
def FileStep.succeeded : (q : FileStep) → q.Answer → Bool
  | .read _, .ok _ => true
  | .read _, .error _ => false
  | .write _ _, .ok _ => true
  | .write _ _, .error _ => false
  | .makeFolders _, .ok _ => true
  | .makeFolders _, .error _ => false
  | .exists _, _ | .isFile _, _ | .resolve _, _ | .filesBelow _, _ => true

/-- What tasks share. -/
structure World where
  tree : FileTree
  ledger : Ledger
  /-- What the author was told, the first text first. -/
  told : List String

/-- Answers a question, if the files are in order. -/
def World.answer (tool : Request → ToolAnswer) : (q : BuildStep) → StateT World Option q.Answer
  | .file q => fun w =>
    let (a, tree) := FileTree.answer q w.tree
    if q.succeeded a then some (a, { w with tree }) else none
  | .tool r => fun w => some (tool r, w)
  | .ledger q => fun w =>
    let (a, ledger) := Ledger.answer q w.ledger
    some (a, { w with ledger })
  | .tell text => fun w => some ((), { w with told := w.told ++ [text] })

/-- What is asked of the surroundings and answered in a build. -/
abbrev BuildExchange := Exchange BuildStep BuildStep.Answer

/-- A build that goes on. -/
structure Building where
  world : World
  /-- What is left of the task of each document. -/
  rest : Path → Task Bool
  /-- What was asked and answered by each task, the first exchange first. -/
  past : List (Path × BuildExchange)

namespace Building

def start (plan : BuildPlan) (documents : List Path) (w : World) : Building :=
  ⟨w, fun d => if d ∈ documents then Task.attempt plan d else .done true, []⟩

/-- The task of a document gets its next answer. -/
inductive Step (tool : Request → ToolAnswer) : Building → Building → Prop
  | ask {s : Building} {document : Path} {q : BuildStep} {next : q.Answer → Task Bool}
      {a : q.Answer} {w : World} (hrest : s.rest document = .ask q next)
      (hanswer : World.answer tool q s.world = some (a, w)) :
      Step tool s ⟨w, Function.update s.rest document (next a), s.past ++ [(document, ⟨q, a⟩)]⟩

/-- The states that a build of documents can come to. -/
inductive Reachable (plan : BuildPlan) (tool : Request → ToolAnswer) (documents : List Path)
    (w : World) : Building → Prop
  | start : Reachable plan tool documents w (start plan documents w)
  | step {s t : Building} (hs : Reachable plan tool documents w s) (h : Step tool s t) :
      Reachable plan tool documents w t

/-- What one task has asked. -/
def logOf (s : Building) (document : Path) : List BuildExchange :=
  (s.past.filter (·.1 = document)).map Prod.snd

/-- All tasks have ended. -/
def Complete (s : Building) : Prop := ∀ d, ∃ built, s.rest d = .done built

end Building

end ComponentBuild
