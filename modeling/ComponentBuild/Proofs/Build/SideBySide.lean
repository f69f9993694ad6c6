import ComponentBuild.Proofs.Build.Change
import ComponentBuild.Proofs.Build.Output

namespace ComponentBuild

open BuildExchange

namespace BuildPlan

variable (plan : BuildPlan)

/-- Where a document is. -/
def place (w : World) (document : Path) : FileLocation :=
  (plan.project.workspace.join document).location w.tree.here

/-- The text of a document. -/
def source (w : World) (document : Path) : String := (w.tree.fileAt (plan.place w document)).getD ""

/-- What the task of a document comes to alone. -/
def ending (tool : Request → ToolAnswer) (w : World) (document : Path) : Bool × View :=
  Task.alone tool (plan.source w document) (Task.attempt plan document) ⟨[], []⟩

/-- Each document is named once, and none is the output of another one. -/
structure Apart (tool : Request → ToolAnswer) (documents : List Path) (w : World) : Prop where
  plain : ∀ d ∈ documents, d.IsPlain
  nodup : documents.Nodup
  outputs : ∀ d ∈ documents, ∀ e ∈ documents, d ≠ e →
    ∀ file ∈ plan.outputs tool d (plan.source w d), file.1.location w.tree.here ≠ plan.place w e

variable {plan} {tool : Request → ToolAnswer} {documents : List Path} {w : World} {d e : Path}
  {here : FileLocation}

variable (plan tool w d) in
theorem ending_outcome :
    Task.Outcome plan tool d (plan.source w d) (plan.ending tool w d).1 (plan.ending tool w d).2 :=
  Task.alone_attempt plan tool d (plan.source w d)

/-- A task on its way to its end writes what it has written in the end. -/
theorem mem_outputs_of_written {rest : Task Bool} {v : View} {file : Path × String}
    (h : Task.alone tool (plan.source w d) rest v = plan.ending tool w d)
    (hfile : file ∈ written v.log) : file ∈ plan.outputs tool d (plan.source w d) := by
  obtain ⟨back, hback⟩ := Task.alone_log tool (plan.source w d) rest v
  have hwritten := (ending_outcome plan tool w d).written
  rw [← h, hback, written_append] at hwritten
  exact hwritten ▸ List.mem_append_left _ hfile

theorem isOutput_of_mem {source : String} {file : Path × String}
    (h : file ∈ plan.outputs tool d source) : plan.project.IsOutput d file.1 := by
  unfold outputs at h
  split at h
  · exact Project.isOutput_of_mem h
  · cases h

/-- Different documents are never built into one file. -/
theorem location_ne (hd : d.IsPlain) (he : e.IsPlain) (hne : d ≠ e) {source source' : String}
    {file file' : Path × String} (hfile : file ∈ plan.outputs tool d source)
    (hfile' : file' ∈ plan.outputs tool e source') :
    file.1.location here ≠ file'.1.location here := by
  obtain ⟨s, hs, hpath⟩ := isOutput_of_mem hfile
  obtain ⟨t, ht, hpath'⟩ := isOutput_of_mem hfile'
  rw [hpath, hpath']
  intro hlocation
  exact hne (Project.eq_of_location_output hd he hs ht hlocation).1

/-- No output of a document is in the place of any document. -/
theorem Apart.place_ne (h : plan.Apart tool documents w) (hd : d ∈ documents) (he : e ∈ documents)
    {file : Path × String} (hfile : file ∈ plan.outputs tool d (plan.source w d)) :
    file.1.location w.tree.here ≠ plan.place w e := by
  by_cases hne : d = e
  · obtain ⟨s, hs, hpath⟩ := isOutput_of_mem hfile
    rw [hpath, ← hne]
    exact Project.location_output_ne (h.plain d hd) hs
  · exact h.outputs d hd e he hne file hfile

end BuildPlan

/-- Only one document has an answer. -/
theorem findSome?_of_unique {α β : Type} {f : α → Option β} {as : List α} {a : α} {b : β}
    (ha : a ∈ as) (hf : f a = some b) (hne : ∀ c ∈ as, c ≠ a → f c = none) :
    as.findSome? f = some b := by
  induction as with
  | nil => cases ha
  | cons c as ih =>
    rw [List.findSome?_cons]
    by_cases hc : c = a
    · rw [hc, hf]
    · rw [hne c List.mem_cons_self hc]
      have ha' : a ∈ as := List.mem_of_ne_of_mem (Ne.symm hc) ha
      exact ih ha' fun c hc => hne c (List.mem_cons_of_mem _ hc)

namespace Building

variable {plan : BuildPlan} {tool : Request → ToolAnswer} {documents : List Path} {w : World}
  {s t : Building}

/-- Where a build is at any time. -/
structure Inv (plan : BuildPlan) (tool : Request → ToolAnswer) (documents : List Path) (w : World)
    (s : Building) : Prop where
  idle : ∀ d ∉ documents, s.rest d = .done true
  past : ∀ x ∈ s.past, x.1 ∈ documents ∧ x.2.question.IsOf plan x.1
  /-- Each task is where it would be alone. -/
  runs : ∀ d ∈ documents,
    Task.alone tool (plan.source w d) (s.rest d) ⟨s.world.ledger.errorsOf d, s.logOf d⟩ =
      plan.ending tool w d
  here : s.world.tree.here = w.tree.here
  /-- A file is what a task has written to it, or as it was. -/
  fileAt : ∀ l, s.world.tree.fileAt l =
    (documents.findSome? fun d => contentAt? w.tree.here l (s.logOf d)).or (w.tree.fileAt l)
  workspace : s.world.ledger.workspace = w.ledger.workspace
  unique : s.world.ledger.Unique
  errors : ∀ entry ∈ s.world.ledger.errors, entry.1 ∈ documents
  related : ∀ d ∈ documents, ∀ f,
    s.world.ledger.relates d f = related w.ledger d f (s.logOf d)
  /-- What is known of documents that are not built stays as it is. -/
  others : ∀ d, (∀ e ∈ documents, e.sameAs d = false) →
    ∀ f, s.world.ledger.relates d f = w.ledger.relates d f
  told : s.world.told = w.told ++ BuildExchange.told (s.past.map Prod.snd)

namespace Inv

theorem start (herrors : w.ledger.errors = []) (hunique : w.ledger.Unique) :
    Inv plan tool documents w (start plan documents w) where
  idle d hd := if_neg hd
  past _ hx := by cases hx
  runs d hd := by
    change Task.alone tool (plan.source w d) (if d ∈ documents then _ else _)
      ⟨w.ledger.errorsOf d, []⟩ = _
    unfold Ledger.errorsOf
    rw [if_pos hd, herrors]
    rfl
  here := rfl
  fileAt l := by
    have hnone : (documents.findSome? fun d =>
        contentAt? w.tree.here l ((Building.start plan documents w).logOf d)) = none :=
      List.findSome?_eq_none_iff.2 fun _ _ => rfl
    rw [hnone]
    rfl
  workspace := rfl
  unique := hunique
  errors entry hentry := by
    change entry ∈ w.ledger.errors at hentry
    rw [herrors] at hentry
    cases hentry
  related _ _ _ := rfl
  others _ _ _ := rfl
  told := (List.append_nil _).symm

variable {d e : Path}

/-- What a task has written so far is output of its document. -/
theorem written_subset (h : Inv plan tool documents w s) (hd : d ∈ documents)
    {file : Path × String} (hfile : file ∈ written (s.logOf d)) :
    file ∈ plan.outputs tool d (plan.source w d) :=
  BuildPlan.mem_outputs_of_written (h.runs d hd) hfile

/-- The documents stay as they are. -/
theorem fileAt_place (h : Inv plan tool documents w s) (hapart : plan.Apart tool documents w)
    (hd : d ∈ documents) :
    s.world.tree.fileAt (plan.place w d) = w.tree.fileAt (plan.place w d) := by
  have hnone : (documents.findSome? fun e =>
      contentAt? w.tree.here (plan.place w d) (s.logOf e)) = none :=
    List.findSome?_eq_none_iff.2 fun e he => contentAt?_eq_none fun file hfile =>
      hapart.place_ne he hd (h.written_subset he hfile)
  rw [h.fileAt, hnone]
  rfl

end Inv

/-- A task that goes on is that of a document. -/
theorem Inv.mem_of_ask (h : Inv plan tool documents w s) {d : Path} {q : BuildStep}
    {next : q.Answer → Task Bool} (hrest : s.rest d = .ask q next) : d ∈ documents := by
  by_contra hd
  rw [h.idle d hd] at hrest
  cases hrest

theorem logOf_asked (s : Building) (w' : World) (rest : Path → Task Bool) (d e : Path)
    (x : BuildExchange) :
    logOf ⟨w', rest, s.past ++ [(d, x)]⟩ e = s.logOf e ++ if d = e then [x] else [] := by
  unfold logOf
  rw [List.filter_append, List.map_append, List.filter_singleton]
  by_cases h : d = e
  · simp [h]
  · simp [h]

/-- Where the files are that a task writes, no other task has written one. -/
theorem Inv.findSome?_asked (hapart : plan.Apart tool documents w)
    (h : Inv plan tool documents w s) {d : Path} (hd : d ∈ documents) {x : BuildExchange}
    (hx : ∀ file ∈ written [x], file ∈ plan.outputs tool d (plan.source w d)) (l : FileLocation) :
    (documents.findSome? fun e =>
        contentAt? w.tree.here l (s.logOf e ++ if d = e then [x] else [])) =
      (contentAt? w.tree.here l [x]).or
        (documents.findSome? fun e => contentAt? w.tree.here l (s.logOf e)) := by
  cases hcontent : contentAt? w.tree.here l [x] with
  | none =>
    rw [Option.none_or]
    refine congrArg (documents.findSome? ·) (funext fun e => ?_)
    split
    · rw [contentAt?_append, hcontent, Option.none_or]
    · rw [List.append_nil]
  | some content =>
    obtain ⟨file, hfile, hl⟩ : ∃ file ∈ written [x], file.1.location w.tree.here = l := by
      by_contra hnone
      push Not at hnone
      rw [contentAt?_eq_none hnone] at hcontent
      cases hcontent
    refine findSome?_of_unique hd ?_ fun e he hne => ?_
    · rw [if_pos rfl, contentAt?_append, hcontent]
      rfl
    · rw [if_neg (Ne.symm hne), List.append_nil]
      refine contentAt?_eq_none fun file' hfile' => ?_
      rw [← hl]
      exact BuildPlan.location_ne (hapart.plain e he) (hapart.plain d hd) hne
        (h.written_subset he hfile') (hx file hfile)

/-- A task that is answered goes on as it would alone. -/
theorem Inv.runs_next (hapart : plan.Apart tool documents w) (h : Inv plan tool documents w s)
    {d : Path} (hd : d ∈ documents) {q : BuildStep} {next : q.Answer → Task Bool} {a : q.Answer}
    (hrest : s.rest d = .ask q next) {w' : World}
    (hchange : World.Change plan tool d ⟨q, a⟩ s.world w') :
    Task.alone tool (plan.source w d) (next a) ⟨w'.ledger.errorsOf d, s.logOf d ++ [⟨q, a⟩]⟩ =
      plan.ending tool w d := by
  have hplace : (plan.project.workspace.join d).location s.world.tree.here = plan.place w d := by
    rw [h.here]
    rfl
  have hreply := hchange.reply (plan.source w d) fun text htext => by
    rw [hplace, h.fileAt_place hapart hd] at htext
    unfold BuildPlan.source
    rw [htext]
    rfl
  rw [← h.runs d hd, hrest]
  change _ = Task.alone tool _ (next (View.reply tool (plan.source w d)
    (s.world.ledger.errorsOf d) q).1) (View.next tool _ _ q)
  unfold View.next
  rw [hreply]

/-- What one answer keeps. -/
theorem Inv.step (hapart : plan.Apart tool documents w) (h : Inv plan tool documents w s)
    (hown : ∀ d, (s.rest d).All (BuildStep.IsOf plan d)) (hstep : Step tool s t) :
    Inv plan tool documents w t := by
  cases hstep with
  | ask hrest hanswer =>
  next d q next a w' =>
  have hd : d ∈ documents := h.mem_of_ask hrest
  obtain ⟨hq, -⟩ : (Dialogue.ask q next).All (BuildStep.IsOf plan d) := hrest ▸ hown d
  have hchange := World.Change.of_answer hq hanswer
  have hother {e : Path} (he : e ∈ documents) (hne : d ≠ e) : d.sameAs e = false :=
    Bool.eq_false_iff.2 fun hsame =>
      hne (((hapart.plain d hd).sameAs_iff (hapart.plain e he)).1 hsame)
  have hruns := h.runs_next hapart hd hrest hchange
  refine ⟨fun e he => ?_, fun x hx => ?_, fun e he => ?_, hchange.here.trans h.here,
    fun l => ?_, hchange.workspace.trans h.workspace, hchange.unique h.unique,
    fun entry hentry => ?_, fun e he f => ?_, fun e he f => ?_, ?_⟩
  · have hne : e ≠ d := fun heq => he (heq ▸ hd)
    exact (Function.update_of_ne hne _ _).trans (h.idle e he)
  · rcases List.mem_append.1 hx with hx | hx
    · exact h.past x hx
    · rw [List.mem_singleton.1 hx]
      exact ⟨hd, hq⟩
  · change Task.alone tool _ (Function.update s.rest d (next a) e)
      ⟨w'.ledger.errorsOf e, logOf _ e⟩ = _
    rw [logOf_asked]
    by_cases hne : d = e
    · subst hne
      rw [Function.update_self, if_pos rfl]
      exact hruns
    · rw [Function.update_of_ne (Ne.symm hne), if_neg hne, List.append_nil,
        (hchange.others e (hother he hne)).1]
      exact h.runs e he
  · have hwritten : ∀ file ∈ written [(⟨q, a⟩ : BuildExchange)],
        file ∈ plan.outputs tool d (plan.source w d) := fun file hfile =>
      BuildPlan.mem_outputs_of_written hruns (by
        rw [written_append]
        exact List.mem_append_right _ hfile)
    simp only [logOf_asked]
    rw [h.findSome?_asked hapart hd hwritten, hchange.fileAt, h.here, h.fileAt, Option.or_assoc]
  · rcases hchange.errors entry hentry with hentry | hentry
    · exact hentry ▸ hd
    · exact h.errors entry hentry
  · rw [logOf_asked]
    change w'.ledger.relates e f = _
    by_cases hne : d = e
    · subst hne
      rw [hchange.related, h.related d hd, if_pos rfl, relatedBy_congr h.workspace]
      unfold BuildExchange.related
      rw [List.foldl_append]
      rfl
    · rw [(hchange.others e (hother he hne)).2, if_neg hne, List.append_nil]
      exact h.related e he f
  · change w'.ledger.relates e f = _
    rw [(hchange.others e (he d hd)).2]
    exact h.others e he f
  · change w'.told = _
    rw [hchange.told, h.told, List.map_append, told_append, List.append_assoc]
    rfl

/-- Each task asks about its own document only. -/
theorem Reachable.own (hs : Reachable plan tool documents w s) (d : Path) :
    (s.rest d).All (BuildStep.IsOf plan d) := by
  induction hs with
  | start =>
    change (if d ∈ documents then Task.attempt plan d else .done true).All _
    split
    · exact Task.attempt_all plan d
    · exact trivial
  | @step s₁ t hs hstep ih =>
    cases hstep with
    | ask hrest hanswer =>
    next e q next a w' =>
    change (Function.update s₁.rest e (next a) d).All _
    by_cases hne : d = e
    · subst hne
      rw [Function.update_self]
      rw [hrest] at ih
      exact ih.2 a
    · rw [Function.update_of_ne hne]
      exact ih

/-- What holds of every state that a build comes to. -/
theorem Reachable.inv (hapart : plan.Apart tool documents w) (herrors : w.ledger.errors = [])
    (hunique : w.ledger.Unique) (hs : Reachable plan tool documents w s) :
    Inv plan tool documents w s := by
  induction hs with
  | start => exact .start herrors hunique
  | step hs hstep ih => exact ih.step hapart hs.own hstep

end Building

end ComponentBuild
