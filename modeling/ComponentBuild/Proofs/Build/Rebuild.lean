import ComponentBuild.Proofs.Build.Affected
import ComponentBuild.Proofs.Build.Change

namespace ComponentBuild

open BuildExchange

namespace Ledger

/-- The ledger behind an exchange. -/
def behind (l : Ledger) (x : BuildExchange) : Ledger :=
  match x.question with
  | .ledger q => (Ledger.answer q l).2
  | _ => l

/-- The ledger behind all that tasks have asked, in the order in which they have come to it. -/
def behindAll (l : Ledger) (log : List BuildExchange) : Ledger := log.foldl behind l

variable {plan : BuildPlan} {document other file : Path} {l : Ledger} {x : BuildExchange}

theorem change_answer {q : LedgerStep} (hq : (BuildStep.ledger q).IsOf plan document) :
    World.Change plan (fun _ => .error (.host "")) document ⟨.ledger q, (Ledger.answer q l).1⟩
      ⟨.empty, l, []⟩ ⟨.empty, (Ledger.answer q l).2, []⟩ :=
  .of_ledger hq rfl

/-- What is asked about a document may change what is known about this document. -/
theorem relates_behind (hx : x.question.IsOf plan document) :
    (l.behind x).relates document file =
      relatedBy l document file (l.relates document file) x := by
  obtain ⟨q, a⟩ := x
  cases q with
  | file q => rfl
  | tool r => rfl
  | tell text => rfl
  | ledger q => exact (change_answer hx).related file

theorem relates_behind_other (hx : x.question.IsOf plan document)
    (hother : document.sameAs other = false) :
    (l.behind x).relates other file = l.relates other file := by
  obtain ⟨q, a⟩ := x
  cases q with
  | file q => rfl
  | tool r => rfl
  | tell text => rfl
  | ledger q => exact ((change_answer hx).others other hother).2 file

theorem behind_unique (h : l.Unique) (x : BuildExchange) : (l.behind x).Unique := by
  obtain ⟨q, a⟩ := x
  cases q with
  | file q => exact h
  | tool r => exact h
  | tell text => exact h
  | ledger q =>
    cases q with
    | addError d e => exact h
    | takeErrors d => exact h
    | addDependency d file => exact h.addDependency
    | forget d => exact h.forget

theorem behind_workspace (l : Ledger) (x : BuildExchange) :
    (l.behind x).workspace = l.workspace := by
  obtain ⟨q, a⟩ := x
  cases q with
  | file q => rfl
  | tool r => rfl
  | tell text => rfl
  | ledger q => cases q <;> rfl

theorem behindAll_unique (h : l.Unique) (log : List BuildExchange) : (l.behindAll log).Unique := by
  induction log generalizing l with
  | nil => exact h
  | cons x log ih => exact ih (behind_unique h x)

theorem behindAll_workspace (l : Ledger) (log : List BuildExchange) :
    (l.behindAll log).workspace = l.workspace := by
  induction log generalizing l with
  | nil => rfl
  | cons x log ih => exact (ih (l.behind x)).trans (behind_workspace l x)

theorem ofWorkspace_unique (workspace : Path) : (ofWorkspace workspace).Unique := .nil

end Ledger

/-- The exchanges of a build of a document beside builds of other documents, each with the document
that it is for. -/
structure Rebuild (plan : BuildPlan) (document : Path) (log : List (Path × BuildExchange))
    (built : Bool) : Prop where
  own : (Task.attempt plan document).Transcript
    ((log.filter (·.1 = document)).map Prod.snd) built
  others : ∀ y ∈ log, y.1 ≠ document →
    y.1.sameAs document = false ∧ y.2.question.IsOf plan y.1

namespace Rebuild

variable {plan : BuildPlan} {document file : Path} {log : List (Path × BuildExchange)} {built : Bool}

/-- The other builds change nothing for the document. -/
theorem relates_behindAll (l : Ledger)
    (hown : ∀ y ∈ log, y.1 = document → y.2.question.IsOf plan document)
    (hothers : ∀ y ∈ log, y.1 ≠ document →
      y.1.sameAs document = false ∧ y.2.question.IsOf plan y.1) :
    (l.behindAll (log.map Prod.snd)).relates document file =
      related l document file ((log.filter (·.1 = document)).map Prod.snd) := by
  induction log generalizing l with
  | nil => rfl
  | cons y log ih =>
    have hrest := ih (l.behind y.2) (fun z hz => hown z (List.mem_cons_of_mem _ hz))
      fun z hz => hothers z (List.mem_cons_of_mem _ hz)
    change (Ledger.behindAll (l.behind y.2) (log.map Prod.snd)).relates document file = _
    rw [hrest, related, related, relatedBy_congr (Ledger.behind_workspace l y.2)]
    by_cases hy : y.1 = document
    · rw [List.filter_cons_of_pos (by simpa using hy), List.map_cons, List.foldl_cons,
        Ledger.relates_behind (hown y (List.mem_cons_self ..) hy)]
    · obtain ⟨hother, hof⟩ := hothers y (List.mem_cons_self ..) hy
      rw [List.filter_cons_of_neg (by simpa using hy), Ledger.relates_behind_other hof hother]

end Rebuild

/-- The files that the tool of a section says that it has read. -/
def BuildExchange.readFiles : BuildExchange → List Path
  | ⟨.tool (.preprocess ..), .ok output⟩ => output.dependencies
  | _ => []

/-- What may come behind the stages of a document: no tool is asked, and nothing is told of files
that it depends on. -/
def BuildStep.IsClosing : BuildStep → Prop
  | .tool _ | .ledger (.addDependency _ _) | .ledger (.forget _) => False
  | _ => True

namespace Task

open Dialogue

variable {plan : BuildPlan} {document file : Path} {source : String} {l : Ledger}

/-- What the stages ask is asked in the words of a task. -/
theorem transcript_say {α : Type} {d : Dialogue ComponentBuild.Step ComponentBuild.Step.Answer α}
    {log : List BuildExchange} {a : α} (h : (d.translate say).Transcript log a) :
    ∃ steps, d.Transcript steps a ∧ log = steps.map BuildExchange.ofStep := by
  induction d generalizing log with
  | done b =>
    obtain ⟨rfl, rfl⟩ := transcript_done.1 h
    exact ⟨[], .done _, rfl⟩
  | ask q next ih =>
    cases q with
    | call r =>
      obtain ⟨⟩ := h
      next log answer h =>
        obtain ⟨steps, hsteps, rfl⟩ := ih answer h
        exact ⟨⟨.call r, answer⟩ :: steps, .ask hsteps, rfl⟩
    | dependency d f =>
      obtain ⟨⟩ := h
      next log answer h =>
        obtain ⟨steps, hsteps, rfl⟩ := ih answer h
        exact ⟨⟨.dependency d f, answer⟩ :: steps, .ask hsteps, rfl⟩
    | error d e =>
      obtain ⟨⟩ := h
      next log answer h =>
        obtain ⟨steps, hsteps, rfl⟩ := ih answer h
        exact ⟨⟨.error d e, answer⟩ :: steps, .ask hsteps, rfl⟩

theorem files_all {α : Type} (d : Files α) : (files d).All BuildStep.IsClosing := by
  induction d with
  | done a => exact trivial
  | ask q next ih => exact ⟨trivial, ih⟩

theorem tellEach_closing (text : DocumentError → String) (errors : List DocumentError) :
    (errors.forM fun e => tell (text e)).All BuildStep.IsClosing := by
  induction errors with
  | nil => exact trivial
  | cons e errors ih => exact ⟨trivial, fun _ => ih⟩

theorem settle_closing (plan : BuildPlan) (document : Path) (source : String)
    (r : Except Abort (Option Compiled)) :
    (settle plan document source r).All BuildStep.IsClosing := by
  rcases r with (e | _) | (_ | compiled)
  · exact ⟨trivial, fun _ => trivial⟩
  · exact trivial
  · exact All.bind ⟨trivial, fun errors => tellEach_closing _ errors⟩ fun _ => trivial
  · refine (files_all _).bind fun written => ?_
    cases written with
    | error e => exact ⟨trivial, fun _ => trivial⟩
    | ok => exact trivial

/-- The end of a task changes nothing of what is known, and no tool reads files in it. -/
theorem foldl_closing (l : Ledger) (document file : Path) {log : List BuildExchange}
    (h : ∀ x ∈ log, x.question.IsClosing) (b : Bool) :
    log.foldl (relatedBy l document file) b = b ∧ log.flatMap BuildExchange.readFiles = [] := by
  induction log with
  | nil => exact ⟨rfl, rfl⟩
  | cons x log ih =>
    have hx := h x (List.mem_cons_self ..)
    obtain ⟨hfold, hfiles⟩ := ih fun y hy => h y (List.mem_cons_of_mem _ hy)
    obtain ⟨q, a⟩ := x
    cases q with
    | tool r => cases hx
    | file q => exact ⟨hfold, hfiles⟩
    | tell text => exact ⟨hfold, hfiles⟩
    | ledger q =>
      cases q with
      | addError d e => exact ⟨hfold, hfiles⟩
      | takeErrors d => exact ⟨hfold, hfiles⟩
      | addDependency d f => cases hx
      | forget d => cases hx

/-- A call relates the document to the files that the tool has read. -/
theorem foldl_call (l : Ledger) (document file : Path) (call : ToolCall) (b : Bool) :
    let log := (call.exchanges document).map BuildExchange.ofStep
    log.foldl (relatedBy l document file) b =
        (b || call.files.any fun g => (l.resolve document g).sameAs file) ∧
      log.flatMap BuildExchange.readFiles = call.files := by
  have hcall : BuildExchange.readFiles (.ofStep ⟨.call call.request, call.answer⟩) =
      call.files := by
    obtain ⟨request, answer⟩ := call
    cases request <;> cases answer <;> rfl
  have htold (files : List Path) (b : Bool) :
      let log := (files.map fun g => (⟨.dependency document g, ()⟩ : Exchange _ _)).map
        BuildExchange.ofStep
      log.foldl (relatedBy l document file) b =
          (b || files.any fun g => (l.resolve document g).sameAs file) ∧
        log.flatMap BuildExchange.readFiles = [] := by
    induction files generalizing b with
    | nil => exact ⟨(Bool.or_false b).symm, rfl⟩
    | cons g files ih =>
      obtain ⟨hfold, hfiles⟩ := ih (b || (l.resolve document g).sameAs file)
      refine ⟨?_, hfiles⟩
      rw [List.any_cons, ← Bool.or_assoc]
      exact hfold
  obtain ⟨hfold, hfiles⟩ := htold call.files b
  refine ⟨hfold, ?_⟩
  rw [ToolCall.exchanges, List.map_cons, List.flatMap_cons, hcall, hfiles, List.append_nil]

theorem foldl_calls (l : Ledger) (document file : Path) (calls : List ToolCall) (b : Bool) :
    let log := (calls.flatMap (ToolCall.exchanges document)).map BuildExchange.ofStep
    log.foldl (relatedBy l document file) b =
      (b || (log.flatMap BuildExchange.readFiles).any fun g =>
        (l.resolve document g).sameAs file) := by
  induction calls generalizing b with
  | nil => exact (Bool.or_false b).symm
  | cons call calls ih =>
    obtain ⟨hfold, hfiles⟩ := foldl_call l document file call b
    simp only [List.flatMap_cons, List.map_append, List.foldl_append, List.flatMap_append,
      List.any_append] at ih hfold hfiles ⊢
    rw [hfold, hfiles, ih, Bool.or_assoc]

/-- Behind the stages a document is related to what the tools of its sections have read. -/
theorem foldl_stages {options : BuildOptions} {steps : List (Exchange ComponentBuild.Step
      ComponentBuild.Step.Answer)} {r : Except Abort (Option Compiled)}
    (h : (ComponentBuild.buildDocument options document source).Transcript steps r)
    {back : List BuildExchange} (hback : ∀ x ∈ back, x.question.IsClosing) :
    (steps.map BuildExchange.ofStep ++ back).foldl (relatedBy l document file) false =
      ((steps.map BuildExchange.ofStep ++ back).flatMap BuildExchange.readFiles).any fun g =>
        (l.resolve document g).sameAs file := by
  obtain ⟨calls, x, rfl, -⟩ := transcript_buildDocument h
  have hreport : ∀ y ∈ ((reportOf x).toList.map fun e =>
      (⟨.error document e, ()⟩ : Exchange _ _)).map BuildExchange.ofStep ++ back,
      y.question.IsClosing := by
    intro y hy
    rcases List.mem_append.1 hy with hy | hy
    · obtain ⟨z, hz, rfl⟩ := List.mem_map.1 hy
      obtain ⟨e, -, rfl⟩ := List.mem_map.1 hz
      trivial
    · exact hback y hy
  have hcalls := foldl_calls l document file calls false
  dsimp only at hcalls
  obtain ⟨hfold, hfiles⟩ := foldl_closing l document file hreport
    (((calls.flatMap (ToolCall.exchanges document)).map BuildExchange.ofStep).foldl
      (relatedBy l document file) false)
  rw [List.map_append, List.append_assoc, List.foldl_append, hfold, hcalls, List.flatMap_append,
    hfiles, List.append_nil, Bool.false_or]

/-- A task reads its document first. If it cannot be read nothing is forgotten; else the document
depends on the files that the tools of its sections have read since, and on no others. -/
theorem related_of_attempt {log : List BuildExchange} {built : Bool}
    (h : (attempt plan document).Transcript log built) :
    ∃ (answer : Except FileError String) (rest : List BuildExchange),
      log = ⟨.file (.read (plan.project.workspace.join document)), answer⟩ :: rest ∧
      ((∃ e, answer = .error e ∧ built = false ∧
          ∀ l file, related l document file log = l.relates document file) ∨
        ∃ source, answer = .ok source ∧
          ∀ l file, related l document file log =
            (log.flatMap BuildExchange.readFiles).any fun g =>
              (l.resolve document g).sameAs file) := by
  rw [attempt_eq] at h
  obtain ⟨⟩ := h
  next rest answer h =>
    refine ⟨answer, rest, rfl, ?_⟩
    cases answer with
    | error e =>
      obtain ⟨⟩ := h
      next told _ h =>
        obtain ⟨rfl, rfl⟩ := transcript_done.1 h
        exact .inl ⟨e, rfl, rfl, fun l file => rfl⟩
    | ok source =>
      refine .inr ⟨source, rfl, fun l file => ?_⟩
      obtain ⟨⟩ := h
      next rest _ h =>
        obtain ⟨r, front, back, rfl, hstages, hsettle⟩ := transcript_bind.1
          (show (((ComponentBuild.buildDocument plan.options document source).translate say).bind
            (settle plan document source)).Transcript rest built from h)
        obtain ⟨steps, hsteps, rfl⟩ := transcript_say hstages
        exact foldl_stages hsteps ((settle_closing plan document source r).of_transcript hsettle)

end Task

namespace Rebuild

variable {plan : BuildPlan} {document : Path} {log : List (Path × BuildExchange)} {built : Bool}

/-- The exchanges of the document itself. -/
def ownLog (document : Path) (log : List (Path × BuildExchange)) : List BuildExchange :=
  (log.filter (·.1 = document)).map Prod.snd

/-- A build beside no others. -/
theorem alone {own : List BuildExchange} (h : (Task.attempt plan document).Transcript own built) :
    Rebuild plan document (own.map (document, ·)) built := by
  have hown : ownLog document (own.map (document, ·)) = own := by
    simp [ownLog, List.filter_map, Function.comp_def]
  refine ⟨?_, fun y hy hne => ?_⟩
  · rw [← hown] at h
    exact h
  · obtain ⟨x, -, rfl⟩ := List.mem_map.1 hy
    exact absurd rfl hne

theorem relates (h : Rebuild plan document log built) (l : Ledger) (file : Path) :
    (l.behindAll (log.map Prod.snd)).relates document file =
      related l document file (ownLog document log) := by
  refine relates_behindAll l (fun y hy hdocument => ?_) h.others
  refine (Task.attempt_all plan document).of_transcript h.own _ ?_
  exact List.mem_map.2 ⟨y, List.mem_filter.2 ⟨hy, by simpa using hdocument⟩, rfl⟩

/-- Behind a rebuild, failed or not and beside whatever others, a document is built again for the
same files as before if it could not be read, and else for itself and the files that the tools of
its sections have read in the rebuild. What earlier builds knew of is lost where a tool has failed,
or was not reached. -/
theorem affects_behind (h : Rebuild plan document log built) (history : List BuildExchange)
    (t : FileTree) (changed : List Path) :
    let before := (Ledger.ofWorkspace plan.project.workspace).behindAll history
    let after := before.behindAll (log.map Prod.snd)
    ∃ (answer : Except FileError String) (rest : List BuildExchange),
      ownLog document log =
        ⟨.file (.read (plan.project.workspace.join document)), answer⟩ :: rest ∧
      ((∃ e, answer = .error e ∧ built = false ∧
          plan.project.affects after t changed document =
            plan.project.affects before t changed document) ∨
        ∃ source, answer = .ok source ∧
          plan.project.affects after t changed document = changed.any fun file =>
            plan.project.changes t file document ||
              ((ownLog document log).flatMap BuildExchange.readFiles).any fun g =>
                ((Ledger.ofWorkspace plan.project.workspace).resolve document g).sameAs
                  file.normalize) := by
  intro before after
  have hbefore : before.Unique :=
    Ledger.behindAll_unique (Ledger.ofWorkspace_unique _) history
  have hafter : after.Unique := Ledger.behindAll_unique hbefore _
  have hresolve : before.resolve document =
      (Ledger.ofWorkspace plan.project.workspace).resolve document := by
    unfold Ledger.resolve
    rw [Ledger.behindAll_workspace]
  obtain ⟨answer, rest, hlog, hrelated⟩ := Task.related_of_attempt h.own
  refine ⟨answer, rest, hlog, ?_⟩
  rcases hrelated with ⟨e, he, hbuilt, hkept⟩ | ⟨source, hsource, hread⟩
  · refine .inl ⟨e, he, hbuilt, ?_⟩
    rw [Project.affects_eq hafter, Project.affects_eq hbefore]
    refine List.any_congr rfl fun file => ?_
    rw [h.relates, ownLog, hkept]
  · refine .inr ⟨source, hsource, ?_⟩
    rw [Project.affects_eq hafter]
    refine List.any_congr rfl fun file => ?_
    rw [h.relates, ownLog, hread, hresolve]

def stylePlan : BuildPlan := ⟨⟨⟨"/w"⟩, ⟨"/w/out"⟩, {}, []⟩, {}, false⟩

/-- What a document with a style in another language gets to hear. -/
def styleAnswer (tool : Request → ToolAnswer) (q : BuildStep) : q.Answer :=
  (View.reply tool "<style lang=\"scss\">a</style>" [] q).1

def styleLog (tool : Request → ToolAnswer) : List (Path × BuildExchange) :=
  ((Task.attempt stylePlan ⟨"a.svelte"⟩).log (styleAnswer tool)).map (⟨"a.svelte"⟩, ·)

/-- Tools of which one reads a file for the style. -/
def readingTool : Request → ToolAnswer
  | .preprocess .. => .ok ⟨"a", none, [⟨"v.scss"⟩]⟩
  | _ => .ok ⟨"c", none, []⟩

/-- Tools that cannot take the style. -/
def failingTool : Request → ToolAnswer
  | .preprocess .. => .error (.failed ⟨"no", none, none⟩)
  | _ => .ok ⟨"c", none, []⟩

theorem rebuild_styleLog {tool : Request → ToolAnswer}
    (h : Id.run ((Task.attempt stylePlan ⟨"a.svelte"⟩).run (styleAnswer tool)) = built) :
    Rebuild stylePlan ⟨"a.svelte"⟩ (styleLog tool) built :=
  alone (h ▸ Dialogue.transcript_log (styleAnswer tool) _)

/-- The ledger behind the first build of the style. -/
def styleLedger : Ledger :=
  (Ledger.ofWorkspace stylePlan.project.workspace).behindAll ((styleLog readingTool).map Prod.snd)

theorem affects_behind_of_style :
    Rebuild stylePlan ⟨"a.svelte"⟩ (styleLog failingTool) false ∧
      stylePlan.project.affects styleLedger .empty [⟨"/w/v.scss"⟩] ⟨"a.svelte"⟩ = true ∧
      stylePlan.project.affects (styleLedger.behindAll ((styleLog failingTool).map Prod.snd)) .empty
        [⟨"/w/v.scss"⟩] ⟨"a.svelte"⟩ = false := by
  have hrebuild : Rebuild stylePlan ⟨"a.svelte"⟩ (styleLog failingTool) false :=
    rebuild_styleLog (by decide +kernel)
  refine ⟨hrebuild, by decide +kernel, ?_⟩
  obtain ⟨answer, rest, hlog, h⟩ := affects_behind hrebuild
    ((styleLog readingTool).map Prod.snd) .empty [⟨"/w/v.scss"⟩]
  have hread : (ownLog ⟨"a.svelte"⟩ (styleLog failingTool)).head? =
      some ⟨.file (.read ⟨"/w/a.svelte"⟩),
        (.ok "<style lang=\"scss\">a</style>" : Except FileError String)⟩ := rfl
  rcases h with ⟨e, rfl, -⟩ | ⟨source, -, h⟩
  · rw [hlog] at hread
    cases hread
  · exact h.trans (by decide +kernel)

/-- A rebuild that fails does lose what earlier builds knew of. -/
theorem not_affects_behind :
    ¬ ∀ (plan : BuildPlan) (document : Path) (first log : List (Path × BuildExchange))
      (t : FileTree) (changed : List Path), Rebuild plan document first true →
      Rebuild plan document log false →
      let before := (Ledger.ofWorkspace plan.project.workspace).behindAll (first.map Prod.snd)
      plan.project.affects before t changed document = true →
      plan.project.affects (before.behindAll (log.map Prod.snd)) t changed document = true := by
  intro h
  have hkept := h stylePlan ⟨"a.svelte"⟩ (styleLog readingTool) (styleLog failingTool) .empty
    [⟨"/w/v.scss"⟩] (rebuild_styleLog (by decide +kernel)) (rebuild_styleLog (by decide +kernel))
    (by decide +kernel)
  revert hkept
  decide +kernel

end Rebuild

end ComponentBuild
