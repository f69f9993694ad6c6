import ComponentBuild.Proofs.Build.Interleaving
import ComponentBuild.Proofs.Build.Output
import ComponentBuild.Proofs.Compile.Protocol

namespace ComponentBuild

/-- A question that concerns one document, in a task that reads this document and writes its
output. -/
def BuildStep.IsOf (plan : BuildPlan) (document : Path) : BuildStep → Prop
  | .file (.read p) => p = plan.project.workspace.join document
  | .file (.write p _) => plan.project.IsOutput document p
  | .file (.makeFolders _) | .tool _ | .tell _ => True
  | .file _ => False
  | .ledger (.addError d _) | .ledger (.takeErrors d) | .ledger (.addDependency d _)
  | .ledger (.forget d) => d = document

/-- What a step of the stages tells is about their own document. -/
def Step.IsOf (document : Path) : Step → Prop
  | .call _ => True
  | .dependency d _ | .error d _ => d = document

instance (q : Step) : Nonempty q.Answer := by
  cases q with
  | call => exact ⟨(.error (.host "") : ToolAnswer)⟩
  | dependency | error => exact ⟨()⟩

theorem ToolCall.isOf_of_mem_exchanges {document : Path} {call : ToolCall}
    {x : Exchange Step Step.Answer} (h : x ∈ call.exchanges document) :
    x.question.IsOf document := by
  rcases List.mem_cons.1 h with rfl | h
  · exact trivial
  · obtain ⟨file, -, rfl⟩ := List.mem_map.1 h
    rfl

theorem buildDocument_all (options : BuildOptions) (document : Path) (source : String) :
    (buildDocument options document source).All (Step.IsOf document) := by
  refine Dialogue.all_of_transcripts (fun q => inferInstance) fun log a h x hx => ?_
  obtain ⟨calls, y, rfl, -⟩ := transcript_buildDocument h
  rcases List.mem_append.1 hx with hx | hx
  · obtain ⟨call, -, hx⟩ := List.mem_flatMap.1 hx
    exact ToolCall.isOf_of_mem_exchanges hx
  · obtain ⟨e, -, rfl⟩ := List.mem_map.1 hx
    rfl

namespace Task

open Dialogue

variable {plan : BuildPlan} {document : Path}

theorem say_all {q : ComponentBuild.Step} (h : q.IsOf document) :
    (say q).All (BuildStep.IsOf plan document) := by
  cases q with
  | call r => exact ⟨trivial, fun _ => trivial⟩
  | dependency d file => exact ⟨h, fun _ => trivial⟩
  | error d e => exact ⟨h, fun _ => trivial⟩

theorem tellEach_all (text : DocumentError → String) (errors : List DocumentError) :
    (errors.forM fun e => tell (text e)).All (BuildStep.IsOf plan document) := by
  induction errors with
  | nil => exact trivial
  | cons e errors ih => exact ⟨trivial, fun _ => ih⟩

theorem tellErrors_all (source : String) :
    (tellErrors plan document source).All (BuildStep.IsOf plan document) :=
  ⟨rfl, fun errors => tellEach_all _ errors⟩

theorem files_bind {α β : Type} (d : Files α) (f : α → Files β) :
    files (d >>= f) = (files d).bind fun a => files (f a) :=
  translate_bind d f

theorem writeFile_all {file : Path} (hfile : plan.project.IsOutput document file)
    (content : String) :
    (files (Project.writeFile file content)).All (BuildStep.IsOf plan document) := by
  refine ⟨trivial, fun made => ?_⟩
  cases made with
  | error e => exact trivial
  | ok =>
    refine ⟨hfile, fun written => ?_⟩
    cases written <;> exact trivial

theorem writeFiles_all {fs : List (Path × String)}
    (h : ∀ file ∈ fs, plan.project.IsOutput document file.1) :
    (files (Project.writeFiles fs)).All (BuildStep.IsOf plan document) := by
  induction fs with
  | nil => exact trivial
  | cons file fs ih =>
    obtain ⟨hfile, hfs⟩ := List.forall_mem_cons.1 h
    rw [Project.writeFiles, files_bind]
    refine (writeFile_all hfile file.2).bind fun result => ?_
    cases result with
    | error e => exact trivial
    | ok => exact ih hfs

theorem writeOutput_all (compiled : Compiled) :
    (files (plan.project.writeOutput document compiled)).All (BuildStep.IsOf plan document) := by
  rw [Project.writeOutput, files_bind]
  refine (writeFiles_all fun _ => Project.isOutput_of_mem).bind fun result => ?_
  cases result <;> exact trivial

theorem buildDocument_all (plan : BuildPlan) (document : Path) :
    (buildDocument plan document).All (BuildStep.IsOf plan document) := by
  refine ⟨rfl, fun read => ?_⟩
  cases read with
  | error e => exact trivial
  | ok source =>
    refine ⟨rfl, fun _ => ?_⟩
    change (((ComponentBuild.buildDocument plan.options document source).translate say).bind
      _).All _
    refine ((ComponentBuild.buildDocument_all _ document source).translate
      fun _ => say_all).bind fun result => ?_
    cases result with
    | error e => cases e <;> exact trivial
    | ok compiled? =>
      cases compiled? with
      | none => exact (tellErrors_all source).bind fun _ => trivial
      | some compiled =>
        refine (writeOutput_all compiled).bind fun written => ?_
        cases written <;> exact trivial

/-- The task of a document asks about this document only. -/
theorem attempt_all (plan : BuildPlan) (document : Path) :
    (attempt plan document).All (BuildStep.IsOf plan document) := by
  refine (buildDocument_all plan document).bind fun result => ?_
  cases result with
  | ok built => exact trivial
  | error e => exact ⟨trivial, fun _ => trivial⟩

end Task

/-- What a task sees of what it shares: the errors that are told of its document, and what it has
asked so far. -/
structure View where
  errors : List DocumentError
  log : List BuildExchange

namespace View

/-- The answer to a question of a task whose document has a text, and the errors behind it. -/
def reply (tool : Request → ToolAnswer) (source : String) (errors : List DocumentError) :
    (q : BuildStep) → q.Answer × List DocumentError
  | .file (.read _) => ((.ok source : Except FileError String), errors)
  | .file (.write _ _) => ((.ok () : Except FileError Unit), errors)
  | .file (.makeFolders _) => ((.ok () : Except FileError Unit), errors)
  | .file (.exists _) => (false, errors)
  | .file (.isFile _) => (false, errors)
  | .file (.resolve _) => ((none : Option Path), errors)
  | .file (.filesBelow _) => (([] : List Path), errors)
  | .tool r => (tool r, errors)
  | .ledger (.addError _ e) => ((), errors ++ [e])
  | .ledger (.takeErrors _) => (errors, [])
  | .ledger (.addDependency _ _) => ((), errors)
  | .ledger (.forget _) => ((), errors)
  | .tell _ => ((), errors)

def next (tool : Request → ToolAnswer) (source : String) (v : View) (q : BuildStep) : View :=
  ⟨(reply tool source v.errors q).2, v.log ++ [⟨q, (reply tool source v.errors q).1⟩]⟩

end View

namespace Task

open Dialogue

variable {tool : Request → ToolAnswer} {source : String} {α β : Type}

/-- The run of a task with nothing but its own view. -/
def alone (tool : Request → ToolAnswer) (source : String) : Task α → View → α × View
  | .done a, v => (a, v)
  | .ask q next, v => alone tool source (next (View.reply tool source v.errors q).1) (v.next tool source q)

theorem alone_bind (t : Task α) (f : α → Task β) (v : View) :
    alone tool source (t.bind f) v =
      alone tool source (f (alone tool source t v).1) (alone tool source t v).2 := by
  induction t generalizing v with
  | done a => rfl
  | ask q next ih => exact ih _ _

variable (tool source) in
/-- What a task has asked is the front of what it asks in the end. -/
theorem alone_log (t : Task α) (v : View) :
    ∃ back, (alone tool source t v).2.log = v.log ++ back := by
  induction t generalizing v with
  | done a => exact ⟨[], (List.append_nil _).symm⟩
  | ask q next ih =>
    obtain ⟨back, hback⟩ := ih (View.reply tool source v.errors q).1 (v.next tool source q)
    exact ⟨⟨q, (View.reply tool source v.errors q).1⟩ :: back,
      hback.trans (List.append_assoc ..)⟩

end Task

namespace BuildExchange

/-- The files that were written, with what was written. -/
def written (log : List BuildExchange) : List (Path × String) :=
  log.filterMap fun x =>
    match x.question with
    | .file (.write p content) => some (p, content)
    | _ => none

def told (log : List BuildExchange) : List String :=
  log.filterMap fun x =>
    match x.question with
    | .tell text => some text
    | _ => none

/-- The errors that were told of the document. -/
def reported (log : List BuildExchange) : List DocumentError :=
  log.filterMap fun x =>
    match x.question with
    | .ledger (.addError _ e) => some e
    | _ => none

@[simp] theorem written_append (a b : List BuildExchange) :
    written (a ++ b) = written a ++ written b := List.filterMap_append

@[simp] theorem told_append (a b : List BuildExchange) : told (a ++ b) = told a ++ told b :=
  List.filterMap_append

@[simp] theorem reported_append (a b : List BuildExchange) :
    reported (a ++ b) = reported a ++ reported b := List.filterMap_append

end BuildExchange

/-- The answers to the stages of a document. -/
def Step.answered (tool : Request → ToolAnswer) : (q : Step) → q.Answer
  | .call r => tool r
  | .dependency _ _ => ()
  | .error _ _ => ()

namespace BuildPlan

/-- What the stages of a document come to. -/
def result (plan : BuildPlan) (tool : Request → ToolAnswer) (document : Path) (source : String) :
    Except Abort (Option Compiled) :=
  Id.run ((buildDocument plan.options document source).run (Step.answered tool))

/-- The files that a document is built into. -/
def outputs (plan : BuildPlan) (tool : Request → ToolAnswer) (document : Path)
    (source : String) : List (Path × String) :=
  match plan.result tool document source with
  | .ok (some compiled) => plan.project.outputs document compiled
  | _ => []

/-- Whether a document can be built. -/
def builds (plan : BuildPlan) (tool : Request → ToolAnswer) (document : Path)
    (source : String) : Bool :=
  match plan.result tool document source with
  | .ok (some _) => true
  | _ => false

/-- What the author is told when the stages break off. Nobody is told of an overflow. -/
def breakdown (plan : BuildPlan) (tool : Request → ToolAnswer) (document : Path)
    (source : String) : List String :=
  match plan.result tool document source with
  | .error (.internal e) => [Task.failureText (BuildError.internal document e).message]
  | _ => []

end BuildPlan

/-- The exchange of a task for one of the stages. -/
def BuildExchange.ofStep : Exchange Step Step.Answer → BuildExchange
  | ⟨.call r, a⟩ => ⟨.tool r, a⟩
  | ⟨.dependency d file, a⟩ => ⟨.ledger (.addDependency d file), a⟩
  | ⟨.error d e, a⟩ => ⟨.ledger (.addError d e), a⟩

namespace Task

open Dialogue BuildExchange

variable {plan : BuildPlan} {tool : Request → ToolAnswer} {document : Path} {source : String}

variable (tool source) in
theorem alone_say {α : Type} (d : Dialogue ComponentBuild.Step ComponentBuild.Step.Answer α)
    (v : View) :
    ∃ log, d.Transcript log (Id.run (d.run (Step.answered tool))) ∧
      alone tool source (d.translate say) v =
        (Id.run (d.run (Step.answered tool)),
          ⟨v.errors ++ reported (log.map ofStep), v.log ++ log.map ofStep⟩) := by
  induction d generalizing v with
  | done a => exact ⟨[], .done a, by simp [alone, Dialogue.translate, Dialogue.run, reported]⟩
  | ask q next ih =>
    cases q with
    | call r =>
      obtain ⟨log, hlog, hrun⟩ := ih (tool r) ⟨v.errors, v.log ++ [⟨.tool r, tool r⟩]⟩
      refine ⟨⟨.call r, tool r⟩ :: log, .ask hlog, hrun.trans (congrArg (Prod.mk _) ?_)⟩
      simp [reported, ofStep]
    | dependency d file =>
      obtain ⟨log, hlog, hrun⟩ :=
        ih () ⟨v.errors, v.log ++ [⟨.ledger (.addDependency d file), ()⟩]⟩
      refine ⟨⟨.dependency d file, ()⟩ :: log, .ask hlog, hrun.trans (congrArg (Prod.mk _) ?_)⟩
      simp [reported, ofStep]
    | error d e =>
      obtain ⟨log, hlog, hrun⟩ :=
        ih () ⟨v.errors ++ [e], v.log ++ [⟨.ledger (.addError d e), ()⟩]⟩
      refine ⟨⟨.error d e, ()⟩ :: log, .ask hlog, hrun.trans (congrArg (Prod.mk _) ?_)⟩
      simp [reported, ofStep]

theorem written_ofStep (log : List (Exchange ComponentBuild.Step ComponentBuild.Step.Answer)) :
    written (log.map ofStep) = [] := by
  refine List.filterMap_eq_nil_iff.2 fun x hx => ?_
  obtain ⟨⟨q, a⟩, -, rfl⟩ := List.mem_map.1 hx
  cases q <;> rfl

theorem told_ofStep (log : List (Exchange ComponentBuild.Step ComponentBuild.Step.Answer)) :
    told (log.map ofStep) = [] := by
  refine List.filterMap_eq_nil_iff.2 fun x hx => ?_
  obtain ⟨⟨q, a⟩, -, rfl⟩ := List.mem_map.1 hx
  cases q <;> rfl

theorem reported_exchanges (document : Path) (calls : List ToolCall) :
    reported ((calls.flatMap (ToolCall.exchanges document)).map ofStep) = [] := by
  refine List.filterMap_eq_nil_iff.2 fun x hx => ?_
  obtain ⟨y, hy, rfl⟩ := List.mem_map.1 hx
  obtain ⟨call, -, hy⟩ := List.mem_flatMap.1 hy
  rcases List.mem_cons.1 hy with rfl | hy
  · rfl
  · obtain ⟨file, -, rfl⟩ := List.mem_map.1 hy
    rfl

/-- The stages write nothing and tell the author nothing; they report an error exactly if they come
to nothing. -/
theorem alone_stages (plan : BuildPlan) (tool : Request → ToolAnswer) (document : Path)
    (source : String) (v : View) :
    ∃ log, alone tool source
        ((ComponentBuild.buildDocument plan.options document source).translate say) v =
          (plan.result tool document source, ⟨v.errors ++ reported log, v.log ++ log⟩) ∧
      written log = [] ∧ told log = [] ∧
      (plan.result tool document source ≠ .ok none → reported log = []) := by
  obtain ⟨log, hlog, hrun⟩ := alone_say tool source
    (ComponentBuild.buildDocument plan.options document source) v
  obtain ⟨calls, x, hcalls, hresult, -⟩ := transcript_buildDocument hlog
  refine ⟨log.map ofStep, hrun, written_ofStep log, told_ofStep log, fun hne => ?_⟩
  have hnone : reportOf x = none := by
    rcases x with (e | e) | compiled
    · exact absurd hresult hne
    · rfl
    · rfl
  rw [hcalls, hnone, Option.toList_none, List.map_nil, List.append_nil]
  exact reported_exchanges document calls

variable (tool source) in
theorem alone_tellEach (text : DocumentError → String) (errors : List DocumentError) (v : View) :
    ∃ log, alone tool source (errors.forM fun e => tell (text e)) v =
        ((), ⟨v.errors, v.log ++ log⟩) ∧
      written log = [] ∧ told log = errors.map text ∧ reported log = [] := by
  induction errors generalizing v with
  | nil => exact ⟨[], by rw [List.append_nil]; rfl, rfl, rfl, rfl⟩
  | cons e errors ih =>
    obtain ⟨log, hrun, hwritten, htold, hreported⟩ := ih ⟨v.errors, v.log ++ [⟨.tell (text e), ()⟩]⟩
    refine ⟨⟨.tell (text e), ()⟩ :: log, hrun.trans ?_, hwritten, ?_, hreported⟩
    · rw [List.append_assoc]
      rfl
    · exact congrArg (text e :: ·) htold

variable (tool source) in
theorem alone_writeFiles (fs : List (Path × String)) (v : View) :
    ∃ log, alone tool source (files (Project.writeFiles fs)) v =
        (.ok (), ⟨v.errors, v.log ++ log⟩) ∧
      written log = fs ∧ told log = [] ∧ reported log = [] := by
  induction fs generalizing v with
  | nil => exact ⟨[], by rw [List.append_nil]; rfl, rfl, rfl, rfl⟩
  | cons file fs ih =>
    obtain ⟨file, content⟩ := file
    have hfile : ∃ front : List BuildExchange,
        alone tool source (files (Project.writeFile file content)) v =
          (.ok (), ⟨v.errors, v.log ++ front⟩) ∧
        written front = [(file, content)] ∧ told front = [] ∧ reported front = [] :=
      ⟨[⟨.file (.makeFolders (file.parent?.getD ⟨""⟩)), (.ok () : Except FileError Unit)⟩,
        ⟨.file (.write file content), (.ok () : Except FileError Unit)⟩],
        congrArg (fun log => (Except.ok (), View.mk v.errors log)) (List.append_assoc ..),
        rfl, rfl, rfl⟩
    obtain ⟨front, hfront, hwritten, htold, hreported⟩ := hfile
    obtain ⟨log, hrun, hwritten', htold', hreported'⟩ := ih ⟨v.errors, v.log ++ front⟩
    refine ⟨front ++ log, ?_, ?_, ?_, ?_⟩
    · rw [Project.writeFiles, files_bind, alone_bind, hfront]
      refine hrun.trans ?_
      rw [List.append_assoc]
    · rw [written_append, hwritten, hwritten']
      rfl
    · rw [told_append, htold, htold']
      rfl
    · rw [reported_append, hreported, hreported']
      rfl

variable (plan tool document source) in
theorem alone_writeOutput (compiled : Compiled) (v : View) :
    ∃ log, (∃ paths, alone tool source (files (plan.project.writeOutput document compiled)) v =
        (.ok paths, ⟨v.errors, v.log ++ log⟩)) ∧
      written log = plan.project.outputs document compiled ∧ told log = [] ∧
      reported log = [] := by
  obtain ⟨log, hrun, h⟩ := alone_writeFiles tool source
    (plan.project.outputs document compiled) v
  refine ⟨log, ?_, h⟩
  rw [Project.writeOutput, files_bind, alone_bind, hrun]
  exact ⟨_, rfl⟩

/-- What the author is told of an error. -/
def errorText (plan : BuildPlan) (document : Path) (source : String) (e : DocumentError) : String :=
  Report.render plan.color document source e ++ "\n"

/-- What the task of a document has done at its end. -/
structure Outcome (plan : BuildPlan) (tool : Request → ToolAnswer) (document : Path)
    (source : String) (built : Bool) (v : View) : Prop where
  errors : v.errors = []
  built : built = plan.builds tool document source
  written : written v.log = plan.outputs tool document source
  /-- Each error that was reported is told once, and nothing else but a breakdown. -/
  told : told v.log =
    (reported v.log).map (errorText plan document source) ++ plan.breakdown tool document source

/-- The reading of a document and all that comes behind it. -/
def firstLog (plan : BuildPlan) (document : Path) (source : String) : List BuildExchange :=
  [⟨.file (.read (plan.project.workspace.join document)), (.ok source : Except FileError String)⟩,
    ⟨.ledger (.forget document), ()⟩]

/-- What becomes of what the stages come to. -/
def settle (plan : BuildPlan) (document : Path) (source : String) :
    Except Abort (Option Compiled) → Task Bool
  | .error (.internal e) => do
    tell (failureText (BuildError.internal document e).message)
    return false
  | .error .overflow => return false
  | .ok none => do
    tellErrors plan document source
    return false
  | .ok (some compiled) => do
    match ← files (plan.project.writeOutput document compiled) with
    | .error e =>
      tell (failureText e.message)
      return false
    | .ok _ => return true

theorem attempt_eq (plan : BuildPlan) (document : Path) :
    attempt plan document =
      (files (Files.read (plan.project.workspace.join document))).bind fun
        | .error e =>
          (tell (failureText (BuildError.unread (plan.project.workspace.join document) e).message)).bind
            fun _ => .done false
        | .ok source => (ledger (.forget document)).bind fun _ =>
          ((ComponentBuild.buildDocument plan.options document source).translate say).bind
            (settle plan document source) := by
  refine (bind_assoc ..).trans (congrArg (Dialogue.bind _) (funext fun read => ?_))
  cases read with
  | error e => rfl
  | ok source =>
    refine (bind_assoc ..).trans (congrArg (Dialogue.bind _) (funext fun _ => ?_))
    refine (bind_assoc ..).trans (congrArg (Dialogue.bind _) (funext fun result => ?_))
    rcases result with (e | _) | (_ | compiled)
    · rfl
    · rfl
    · exact bind_assoc ..
    · refine (bind_assoc ..).trans (congrArg (Dialogue.bind _) (funext fun written => ?_))
      cases written <;> rfl

/-- The stages write nothing and tell the author nothing, so all that is written and told comes
behind them. -/
theorem outcome_of_append {built : Bool} {log back : List BuildExchange}
    (hwritten : written log = []) (htold : told log = [])
    (hbuilt : built = plan.builds tool document source)
    (hwritten' : written back = plan.outputs tool document source)
    (htold' : told back = (reported log ++ reported back).map (errorText plan document source) ++
      plan.breakdown tool document source) :
    Outcome plan tool document source built ⟨[], log ++ back⟩ where
  errors := rfl
  built := hbuilt
  written := by rw [written_append, hwritten, List.nil_append, hwritten']
  told := by rw [told_append, reported_append, htold, List.nil_append, htold']

theorem settle_error {e : Abort} {log : List BuildExchange}
    (hresult : plan.result tool document source = .error e)
    (hwritten : written log = []) (htold : told log = []) (hreported : reported log = []) :
    Outcome plan tool document source
      (alone tool source (settle plan document source (.error e)) ⟨[], log⟩).1
      (alone tool source (settle plan document source (.error e)) ⟨[], log⟩).2 := by
  cases e with
  | internal e =>
    refine outcome_of_append hwritten htold ?_ ?_ ?_
    · simp only [BuildPlan.builds, hresult]
      rfl
    · simp only [BuildPlan.outputs, hresult]
      rfl
    · simp only [BuildPlan.breakdown, hresult, hreported]
      rfl
  | overflow =>
    rw [← List.append_nil log]
    refine outcome_of_append hwritten htold ?_ ?_ ?_
    · simp only [BuildPlan.builds, hresult]
      rfl
    · simp only [BuildPlan.outputs, hresult]
      rfl
    · simp only [BuildPlan.breakdown, hresult, hreported]
      rfl

theorem settle_none {log : List BuildExchange}
    (hresult : plan.result tool document source = .ok none)
    (hwritten : written log = []) (htold : told log = []) :
    Outcome plan tool document source
      (alone tool source (settle plan document source (.ok none)) ⟨reported log, log⟩).1
      (alone tool source (settle plan document source (.ok none)) ⟨reported log, log⟩).2 := by
  let taken : List BuildExchange := [⟨.ledger (.takeErrors document), reported log⟩]
  obtain ⟨back, hrun, hwritten', htold', hreported'⟩ := alone_tellEach tool source
    (errorText plan document source) (reported log) ⟨[], log ++ taken⟩
  have hsettle : alone tool source (settle plan document source (.ok none)) ⟨reported log, log⟩ =
      (false, ⟨[], log ++ (taken ++ back)⟩) := by
    rw [← List.append_assoc]
    change alone tool source
      (((reported log).forM fun e => tell (errorText plan document source e)).bind
        fun _ => .done false) ⟨[], log ++ taken⟩ = _
    rw [alone_bind, hrun]
    rfl
  rw [hsettle]
  refine outcome_of_append hwritten htold ?_ ?_ ?_
  · simp only [BuildPlan.builds, hresult]
  · simp only [BuildPlan.outputs, hresult, written_append, hwritten']
    rfl
  · simp only [BuildPlan.breakdown, hresult, told_append, htold', reported_append, hreported',
      List.append_nil]
    exact congrArg (List.map _) (List.append_nil _).symm

theorem settle_some {compiled : Compiled} {log : List BuildExchange}
    (hresult : plan.result tool document source = .ok (some compiled))
    (hwritten : written log = []) (htold : told log = []) (hreported : reported log = []) :
    Outcome plan tool document source
      (alone tool source (settle plan document source (.ok (some compiled))) ⟨[], log⟩).1
      (alone tool source (settle plan document source (.ok (some compiled))) ⟨[], log⟩).2 := by
  obtain ⟨back, ⟨paths, hrun⟩, hwritten', htold', hreported'⟩ := alone_writeOutput plan tool
    document source compiled ⟨[], log⟩
  have hsettle : alone tool source (settle plan document source (.ok (some compiled))) ⟨[], log⟩ =
      (true, ⟨[], log ++ back⟩) := by
    change alone tool source ((files (plan.project.writeOutput document compiled)).bind _)
      ⟨[], log⟩ = _
    rw [alone_bind, hrun]
    rfl
  rw [hsettle]
  refine outcome_of_append hwritten htold ?_ ?_ ?_
  · simp only [BuildPlan.builds, hresult]
  · simp only [BuildPlan.outputs, hresult, hwritten']
  · simp only [BuildPlan.breakdown, hresult, htold', hreported, hreported']
    rfl

/-- A task ends as the stages of its document do. -/
theorem alone_attempt (plan : BuildPlan) (tool : Request → ToolAnswer) (document : Path)
    (source : String) :
    Outcome plan tool document source (alone tool source (attempt plan document) ⟨[], []⟩).1
      (alone tool source (attempt plan document) ⟨[], []⟩).2 := by
  obtain ⟨log, hrun, hwritten, htold, hreported⟩ :=
    alone_stages plan tool document source ⟨[], firstLog plan document source⟩
  have hattempt : alone tool source (attempt plan document) ⟨[], []⟩ =
      alone tool source (settle plan document source (plan.result tool document source))
        ⟨reported log, firstLog plan document source ++ log⟩ := by
    rw [attempt_eq]
    change alone tool source
      (((ComponentBuild.buildDocument plan.options document source).translate say).bind
        (settle plan document source)) ⟨[], firstLog plan document source⟩ = _
    rw [alone_bind, hrun]
    rfl
  rw [hattempt]
  cases hresult : plan.result tool document source with
  | error e =>
    rw [hresult] at hreported
    rw [hreported nofun]
    exact settle_error hresult hwritten htold (hreported nofun)
  | ok compiled? =>
    cases compiled? with
    | none =>
      have hfirst : reported log = reported (firstLog plan document source ++ log) := rfl
      rw [hfirst]
      exact settle_none hresult hwritten htold
    | some compiled =>
      rw [hresult] at hreported
      rw [hreported nofun]
      exact settle_some hresult hwritten htold (hreported nofun)

end Task

end ComponentBuild
