import ComponentBuild.Proofs.Build.Rebuild
import ComponentBuild.Proofs.Files.Ordered

namespace ComponentBuild

/-- Documents that are built side by side, and all that is asked for them, each question with the
document that it is for. -/
structure Pass where
  documents : List Path
  log : List (Path × BuildExchange)

/-- Whether a text was read. -/
def BuildExchange.isRead : BuildExchange → Bool
  | ⟨.file (.read _), .ok _⟩ => true
  | _ => false

namespace Pass

open Rebuild (ownLog)

variable {plan : BuildPlan} {pass : Pass} {history : List Pass} {d e f : Path} {l : Ledger}

/-- Each document gets a task of its own, whatever the answers and in whatever order they come. -/
structure IsOf (plan : BuildPlan) (pass : Pass) : Prop where
  own : ∀ d ∈ pass.documents, ∃ built,
    (Task.attempt plan d).Transcript (ownLog d pass.log) built
  mem : ∀ y ∈ pass.log, y.1 ∈ pass.documents
  apart : ∀ d ∈ pass.documents, ∀ e ∈ pass.documents, d ≠ e → d.sameAs e = false

/-- The document was built, and could be read. -/
def Refreshes (pass : Pass) (d : Path) : Prop :=
  ∃ e ∈ pass.documents, e.sameAs d = true ∧
    (ownLog e pass.log).head?.any BuildExchange.isRead = true

/-- The document was built and could be read, and the tool of one of its sections has read a
file. -/
def Tells (plan : BuildPlan) (pass : Pass) (d f : Path) : Prop :=
  ∃ e ∈ pass.documents, e.sameAs d = true ∧
    (ownLog e pass.log).head?.any BuildExchange.isRead = true ∧
    ∃ g ∈ (ownLog e pass.log).flatMap BuildExchange.readFiles,
      ((Ledger.ofWorkspace plan.project.workspace).resolve e g).sameAs f = true

/-- In the last pass that could read the document, a tool has read a file for it. -/
def Knows (plan : BuildPlan) (history : List Pass) (d f : Path) : Prop :=
  ∃ before pass after, history = before ++ pass :: after ∧ pass.Tells plan d f ∧
    ∀ later ∈ after, ¬later.Refreshes d

/-- The ledger that a history of passes leaves. -/
def ledger (plan : BuildPlan) (history : List Pass) : Ledger :=
  (Ledger.ofWorkspace plan.project.workspace).behindAll
    (history.flatMap fun pass => pass.log.map Prod.snd)

theorem IsOf.question (h : pass.IsOf plan) {y : Path × BuildExchange} (hy : y ∈ pass.log) :
    y.2.question.IsOf plan y.1 := by
  obtain ⟨built, hown⟩ := h.own y.1 (h.mem y hy)
  refine (Task.attempt_all plan y.1).of_transcript hown _ ?_
  exact List.mem_map.2 ⟨y, List.mem_filter.2 ⟨hy, decide_eq_true rfl⟩, rfl⟩

theorem IsOf.rebuild (h : pass.IsOf plan) (he : e ∈ pass.documents) :
    ∃ built, Rebuild plan e pass.log built := by
  obtain ⟨built, hown⟩ := h.own e he
  exact ⟨built, hown, fun y hy hne => ⟨h.apart _ (h.mem y hy) e he hne, h.question hy⟩⟩

theorem Tells.refreshes (h : pass.Tells plan d f) : pass.Refreshes d := by
  obtain ⟨e, he, hsame, hread, -⟩ := h
  exact ⟨e, he, hsame, hread⟩

theorem IsOf.eq_of_sameAs {e' : Path} (h : pass.IsOf plan) (he : e ∈ pass.documents)
    (he' : e' ∈ pass.documents) (hsame : e.sameAs d = true) (hsame' : e'.sameAs d = true) :
    e' = e := by
  by_contra hne
  have hfalse := h.apart e' he' e he hne
  rw [Path.sameAs_congr hsame', Path.sameAs_comm, hsame] at hfalse
  cases hfalse

/-- A document that was built is related to what its tools have told if it could be read. -/
theorem IsOf.relates_iff_of_built (h : pass.IsOf plan)
    (hl : l.workspace = plan.project.workspace) (he : e ∈ pass.documents)
    (hsame : e.sameAs d = true) (f : Path) :
    (l.behindAll (pass.log.map Prod.snd)).relates d f = true ↔
      pass.Tells plan d f ∨ ¬pass.Refreshes d ∧ l.relates d f = true := by
  obtain ⟨built, hrebuild⟩ := h.rebuild he
  obtain ⟨answer, rest, hlog, hrelated⟩ := Task.related_of_attempt hrebuild.own
  change ownLog e pass.log = _ at hlog
  rw [← Ledger.relates_congr hsame, hrebuild.relates]
  rcases hrelated with ⟨fault, rfl, -, hkept⟩ | ⟨source, rfl, hread⟩
  case inl =>
    have hunread : ¬pass.Refreshes d := by
      rintro ⟨e', he', hsame', hread⟩
      rw [h.eq_of_sameAs he he' hsame hsame', hlog] at hread
      cases hread
    rw [ownLog, hkept, Ledger.relates_congr hsame]
    exact ⟨fun hrelates => .inr ⟨hunread, hrelates⟩,
      fun hor => hor.elim (fun htells => absurd htells.refreshes hunread) And.right⟩
  case inr =>
    have hhead : (ownLog e pass.log).head?.any BuildExchange.isRead = true := by
      rw [hlog]
      rfl
    have hresolve (g : Path) :
        l.resolve e g = (Ledger.ofWorkspace plan.project.workspace).resolve e g := by
      unfold Ledger.resolve
      rw [hl]
      rfl
    rw [ownLog, hread, List.any_eq_true]
    constructor
    · rintro ⟨g, hg, hfile⟩
      exact .inl ⟨e, he, hsame, hhead, g, hg, hresolve g ▸ hfile⟩
    · rintro (⟨e', he', hsame', -, g, hg, hfile⟩ | ⟨hunread, -⟩)
      · obtain rfl := h.eq_of_sameAs he he' hsame hsame'
        exact ⟨g, hg, hresolve g ▸ hfile⟩
      · exact absurd ⟨e, he, hsame, hhead⟩ hunread

/-- What was known of a document is kept where it is not built. -/
theorem IsOf.relates_of_unbuilt (h : pass.IsOf plan)
    (hother : ∀ e ∈ pass.documents, e.sameAs d = false) (l : Ledger) (f : Path) :
    (l.behindAll (pass.log.map Prod.snd)).relates d f = l.relates d f := by
  have hne : ∀ y ∈ pass.log, y.1 ≠ d := by
    rintro y hy rfl
    exact Bool.false_ne_true ((hother _ (h.mem y hy)).symm.trans (Path.sameAs_refl _))
  rw [Rebuild.relates_behindAll l (fun y hy hdocument => absurd hdocument (hne y hy))
    fun y hy _ => ⟨hother _ (h.mem y hy), h.question hy⟩]
  rw [List.filter_eq_nil_iff.2 fun y hy => by simpa using hne y hy]
  rfl

/-- A pass that could read a document leaves what its tools have told; any other pass leaves what
was known. -/
theorem IsOf.relates_iff (h : pass.IsOf plan) (hl : l.workspace = plan.project.workspace)
    (d f : Path) : (l.behindAll (pass.log.map Prod.snd)).relates d f = true ↔
      pass.Tells plan d f ∨ ¬pass.Refreshes d ∧ l.relates d f = true := by
  by_cases hbuilt : ∃ e ∈ pass.documents, e.sameAs d = true
  · obtain ⟨e, he, hsame⟩ := hbuilt
    exact h.relates_iff_of_built hl he hsame f
  · have hunread : ¬pass.Refreshes d := by
      rintro ⟨e, he, hsame, -⟩
      exact hbuilt ⟨e, he, hsame⟩
    rw [h.relates_of_unbuilt (fun e he => Bool.eq_false_iff.2 fun hsame => hbuilt ⟨e, he, hsame⟩)]
    exact ⟨fun hrelates => .inr ⟨hunread, hrelates⟩,
      fun hor => hor.elim (fun htells => absurd htells.refreshes hunread) And.right⟩

theorem knows_concat : Knows plan (history ++ [pass]) d f ↔
    pass.Tells plan d f ∨ ¬pass.Refreshes d ∧ Knows plan history d f := by
  constructor
  · rintro ⟨before, last, after, hhistory, htells, hlater⟩
    rcases List.eq_nil_or_concat' after with rfl | ⟨front, later, rfl⟩
    · obtain ⟨-, rfl⟩ := List.append_singleton_inj.1 hhistory
      exact .inl htells
    · rw [← List.cons_append, ← List.append_assoc] at hhistory
      obtain ⟨rfl, rfl⟩ := List.append_singleton_inj.1 hhistory
      obtain ⟨hfront, hlast⟩ := List.forall_mem_append.1 hlater
      exact .inr ⟨hlast pass (List.mem_singleton_self _), before, last, front, rfl, htells, hfront⟩
  · rintro (htells | ⟨hunread, before, last, after, rfl, htells, hlater⟩)
    · exact ⟨history, pass, [], rfl, htells, List.forall_mem_nil _⟩
    · exact ⟨before, last, after ++ [pass], by simp, htells,
        List.forall_mem_append.2 ⟨hlater, List.forall_mem_singleton.2 hunread⟩⟩

theorem ledger_concat (plan : BuildPlan) (history : List Pass) (pass : Pass) :
    ledger plan (history ++ [pass]) =
      (ledger plan history).behindAll (pass.log.map Prod.snd) := by
  unfold ledger Ledger.behindAll
  rw [List.flatMap_append, List.flatMap_singleton, List.foldl_append]

/-- The ledger relates documents to the files that they are known to depend on. -/
theorem relates_ledger_iff (h : ∀ pass ∈ history, pass.IsOf plan) (d f : Path) :
    (ledger plan history).relates d f = true ↔ Knows plan history d f := by
  induction history using List.reverseRecOn with
  | nil =>
    refine iff_of_false Bool.false_ne_true ?_
    rintro ⟨before, pass, after, hhistory, -⟩
    exact List.append_ne_nil_of_right_ne_nil before (List.cons_ne_nil _ _) hhistory.symm
  | append_singleton history pass ih =>
    obtain ⟨hhistory, hpass⟩ := List.forall_mem_append.1 h
    have hworkspace : (ledger plan history).workspace = plan.project.workspace :=
      Ledger.behindAll_workspace _ _
    rw [ledger_concat, (List.forall_mem_singleton.1 hpass).relates_iff hworkspace, ih hhistory,
      knows_concat]

theorem ledger_unique (plan : BuildPlan) (history : List Pass) : (ledger plan history).Unique :=
  Ledger.behindAll_unique (Ledger.ofWorkspace_unique _) _

/-- A document that is known to depend on a file was built. -/
theorem Knows.built (h : Knows plan history d f) :
    ∃ pass ∈ history, ∃ e ∈ pass.documents, e.sameAs d = true := by
  obtain ⟨before, pass, after, rfl, ⟨e, he, hsame, -⟩, -⟩ := h
  exact ⟨pass, List.mem_append_right _ List.mem_cons_self, e, he, hsame⟩

end Pass

/-- A document that cannot be read fails, and this is all that is told of it. -/
theorem Task.attempt_of_unread {plan : BuildPlan} {d : Path} {e : FileError}
    {rest : List BuildExchange} {built : Bool}
    (h : (Task.attempt plan d).Transcript
      (⟨.file (.read (plan.project.workspace.join d)), (.error e : Except FileError String)⟩ ::
        rest) built) :
    built = false ∧ rest = [⟨.tell (Task.failureText
      (BuildError.unread (plan.project.workspace.join d) e).message), ()⟩] := by
  rw [attempt_eq] at h
  obtain ⟨⟩ := h
  next h =>
    obtain ⟨⟩ := h
    next told _ h =>
      obtain ⟨rfl, rfl⟩ := Dialogue.transcript_done.1 h
      exact ⟨rfl, rfl⟩

namespace Project

/-- Some path means the document. -/
def Accepts (project : Project) (d : Path) : Prop :=
  ∃ file document, project.documentPath? file = some document ∧ document.sameAs d = true

/-- Some path of a file that is there means the document. -/
def Holds (project : Project) (t : FileTree) (d : Path) : Prop :=
  ∃ file document, project.documentPath? file = some document ∧ document.sameAs d = true ∧
    t.isFile file = true

section

variable {project : Project} {t : FileTree} {file d e : Path}

theorem changes_iff : project.changes t file d = true ↔
    ∃ document, project.documentPath? file = some document ∧ document.sameAs d = true ∧
      t.isFile file = true := by
  unfold changes
  cases project.documentPath? file with
  | none => simp
  | some document => simp

theorem Holds.congr (h : project.Holds t d) (hsame : d.sameAs e = true) : project.Holds t e := by
  obtain ⟨file, document, hdocument, hd, hfile⟩ := h
  exact ⟨file, document, hdocument, (Path.sameAs_congr hd e).trans hsame, hfile⟩

theorem Accepts.congr (h : project.Accepts d) (hsame : d.sameAs e = true) :
    project.Accepts e := by
  obtain ⟨file, document, hdocument, hd⟩ := h
  exact ⟨file, document, hdocument, (Path.sameAs_congr hd e).trans hsame⟩

theorem Holds.accepts (h : project.Holds t d) : project.Accepts d := by
  obtain ⟨file, document, hdocument, hd, -⟩ := h
  exact ⟨file, document, hdocument, hd⟩

theorem holds_of_changes (h : project.changes t file d = true) : project.Holds t d :=
  ⟨file, changes_iff.1 h⟩

end

variable {plan : BuildPlan} {history : List Pass} {t : FileTree} {changed : List Path}

/-- The documents to build again behind a history of passes. -/
def affected (plan : BuildPlan) (history : List Pass) (t : FileTree) (changed : List Path) :
    List Path :=
  ((plan.project.affectedDocuments (Pass.ledger plan history) changed).run FileTree.answer t).1

theorem affected_pairwise (plan : BuildPlan) (history : List Pass) (t : FileTree)
    (changed : List Path) :
    (affected plan history t changed).Pairwise fun d e => d.before e = true := by
  unfold affected affectedDocuments
  rw [Dialogue.bind_eq, Dialogue.run_bind_state, run_collectAffected]
  exact Path.dropRepeats_sort_pairwise _

theorem any_affected_iff (h : ∀ pass ∈ history, pass.IsOf plan) (d : Path) :
    (affected plan history t changed).any (·.sameAs d) = true ↔
      ∃ file ∈ changed, plan.project.changes t file d = true ∨
        Pass.Knows plan history d file.normalize := by
  change plan.project.affects _ t changed d = true ↔ _
  rw [affects_eq (Pass.ledger_unique plan history), List.any_eq_true]
  refine exists_congr fun file => and_congr_right' ?_
  rw [Bool.or_eq_true, Pass.relates_ledger_iff h]

/-- Builds of accepted documents make accepted documents known. -/
theorem accepts_of_mem_affected (h : ∀ pass ∈ history, pass.IsOf plan)
    (haccepted : ∀ pass ∈ history, ∀ d ∈ pass.documents, plan.project.Accepts d) {d : Path}
    (hd : d ∈ affected plan history t changed) : plan.project.Accepts d := by
  obtain ⟨file, -, hchanges | hknows⟩ :=
    (any_affected_iff h d).1 (List.any_eq_true.2 ⟨d, hd, Path.sameAs_refl d⟩)
  · exact (holds_of_changes hchanges).accepts
  · obtain ⟨pass, hpass, e, he, hsame⟩ := hknows.built
    exact (haccepted pass hpass e he).congr hsame

theorem accepts_of_mem_discover {project : Project} {d : Path}
    (hd : d ∈ (project.discover.run (m := StateM FileTree) FileTree.answer t).1) :
    project.Accepts d := by
  change d ∈ Path.sort ((t.filesBelow project.workspace).filterMap project.documentPath?) at hd
  obtain ⟨file, -, hfile⟩ := List.mem_filterMap.1 (List.mem_mergeSort.1 hd)
  exact ⟨file, d, hfile, Path.sameAs_refl d⟩

/-- What a program does that builds all documents it finds, and again those that changes of files
affect. The files at each of its passes are whatever they have become. -/
inductive Watched (plan : BuildPlan) : List Pass → Prop
  | start : Watched plan []
  | found {history : List Pass} {pass : Pass} (t : FileTree) (h : Watched plan history)
      (hpass : pass.IsOf plan)
      (hdocuments : pass.documents =
        (plan.project.discover.run (m := StateM FileTree) FileTree.answer t).1) :
      Watched plan (history ++ [pass])
  | changed {history : List Pass} {pass : Pass} (t : FileTree) (changed : List Path)
      (h : Watched plan history) (hpass : pass.IsOf plan)
      (hdocuments : pass.documents = affected plan history t changed) :
      Watched plan (history ++ [pass])

theorem Watched.accepts (h : Watched plan history) :
    ∀ pass ∈ history, pass.IsOf plan ∧ ∀ d ∈ pass.documents, plan.project.Accepts d := by
  induction h with
  | start => exact List.forall_mem_nil _
  | found t _ hpass hdocuments ih =>
    refine List.forall_mem_append.2 ⟨ih, List.forall_mem_singleton.2 ⟨hpass, fun d hd => ?_⟩⟩
    exact accepts_of_mem_discover (hdocuments ▸ hd)
  | changed t changed _ hpass hdocuments ih =>
    refine List.forall_mem_append.2 ⟨ih, List.forall_mem_singleton.2 ⟨hpass, fun d hd => ?_⟩⟩
    exact accepts_of_mem_affected (fun pass hpass => (ih pass hpass).1)
      (fun pass hpass => (ih pass hpass).2) (hdocuments ▸ hd)

/-- Behind any history of builds, and whatever has become of the files since, the documents to build
again are in order and without repeats: the changed files that are documents, and the documents that
are known to depend on a changed file, be they there or not. So all of them are there if and only if
none is gone that is known to depend on a changed file. All of them are documents by their paths,
where only such documents were built; one that cannot be read any more is told as a failure. -/
theorem affected_of_history (hhistory : ∀ pass ∈ history, pass.IsOf plan) (t : FileTree)
    (changed : List Path) :
    let documents := affected plan history t changed
    (documents.Pairwise fun d e => d.before e = true) ∧
    (∀ d, documents.any (·.sameAs d) = true ↔ ∃ file ∈ changed,
      plan.project.changes t file d = true ∨ Pass.Knows plan history d file.normalize) ∧
    ((∀ d ∈ documents, plan.project.Holds t d) ↔
      ∀ file ∈ changed, ∀ d, Pass.Knows plan history d file.normalize →
        plan.project.Holds t d) ∧
    ((∀ pass ∈ history, ∀ d ∈ pass.documents, plan.project.Accepts d) →
      ∀ d ∈ documents, plan.project.Accepts d) ∧
    (Watched plan history → ∀ d ∈ documents, plan.project.Accepts d) ∧
    ∀ d ∈ documents, ∀ e rest built, (Task.attempt plan d).Transcript
      (⟨.file (.read (plan.project.workspace.join d)), (.error e : Except FileError String)⟩ ::
        rest) built → built = false ∧ rest = [⟨.tell (Task.failureText
        (BuildError.unread (plan.project.workspace.join d) e).message), ()⟩] := by
  intro documents
  have hany (d : Path) : documents.any (·.sameAs d) = true ↔ ∃ file ∈ changed,
      plan.project.changes t file d = true ∨ Pass.Knows plan history d file.normalize :=
    any_affected_iff hhistory d
  have haccepts (h : ∀ pass ∈ history, ∀ d ∈ pass.documents, plan.project.Accepts d) :
      ∀ d ∈ documents, plan.project.Accepts d :=
    fun d hd => accepts_of_mem_affected hhistory h hd
  refine ⟨affected_pairwise plan history t changed, hany, ⟨?there, ?gone⟩, haccepts,
    fun h => haccepts fun pass hpass => (h.accepts pass hpass).2,
    fun d _ e rest built => Task.attempt_of_unread⟩
  case there =>
    intro hthere file hfile d hknows
    obtain ⟨e, he, hsame⟩ := List.any_eq_true.1 ((hany d).2 ⟨file, hfile, .inr hknows⟩)
    exact (hthere e he).congr hsame
  case gone =>
    intro hknown d hd
    obtain ⟨file, hfile, hchanges | hknows⟩ :=
      (hany d).1 (List.any_eq_true.2 ⟨d, hd, Path.sameAs_refl d⟩)
    · exact holds_of_changes hchanges
    · exact hknown file hfile d hknows

open Rebuild (stylePlan)

/-- A build of a document whose style reads a file. -/
def stylePass : Pass := ⟨[⟨"a.svelte"⟩], Rebuild.styleLog Rebuild.readingTool⟩

theorem stylePass_isOf : stylePass.IsOf stylePlan where
  own := List.forall_mem_singleton.2
    ⟨true, (Rebuild.rebuild_styleLog (by decide +kernel)).own⟩
  mem y hy := by
    obtain ⟨x, -, rfl⟩ := List.mem_map.1 hy
    exact List.mem_singleton_self _
  apart d hd e he hne := by
    rw [List.mem_singleton.1 hd, List.mem_singleton.1 he] at hne
    exact absurd rfl hne

theorem watched_stylePass : Watched stylePlan [stylePass] :=
  @Watched.found stylePlan [] stylePass
    ⟨[(["w", "a.svelte"], .file "<style lang=\"scss\">a</style>"), (["w"], .folder)], []⟩
    .start stylePass_isOf (by decide +kernel)

/-- The file that the style has read changes, and the document is there. -/
theorem affected_of_history_of_style :
    let t : FileTree :=
      ⟨[(["w", "a.svelte"], .file ""), (["w", "v.scss"], .file ""), (["w"], .folder)], []⟩
    let documents := affected stylePlan [stylePass] t [⟨"/w/v.scss"⟩]
    (documents.Pairwise fun d e => d.before e = true) ∧
      documents.any (·.sameAs ⟨"a.svelte"⟩) = true ∧
      ∀ d ∈ documents, stylePlan.project.Accepts d := by
  intro t documents
  have hhistory : ∀ pass ∈ [stylePass], pass.IsOf stylePlan :=
    List.forall_mem_singleton.2 stylePass_isOf
  obtain ⟨hordered, hany, -, -, haccepts, -⟩ := affected_of_history hhistory t [⟨"/w/v.scss"⟩]
  have hknows : Pass.Knows stylePlan [stylePass] ⟨"a.svelte"⟩ (⟨"/w/v.scss"⟩ : Path).normalize :=
    ⟨[], stylePass, [], rfl, ⟨⟨"a.svelte"⟩, List.mem_singleton_self _, by decide +kernel,
      by decide +kernel, ⟨"v.scss"⟩, by decide +kernel, by decide +kernel⟩, List.forall_mem_nil _⟩
  exact ⟨hordered, (hany _).2 ⟨_, List.mem_singleton_self _, .inr hknows⟩,
    haccepts watched_stylePass⟩

/-- The document is gone when the file that its style has read changes. It is built again, and this
build can only tell that it is gone. -/
theorem affected_deleted :
    let t : FileTree := ⟨[(["w", "v.scss"], .file ""), (["w"], .folder)], []⟩
    Watched stylePlan [stylePass] ∧
      affected stylePlan [stylePass] t [⟨"/w/v.scss"⟩] = [⟨"a.svelte"⟩] ∧
      t.isFile ⟨"/w/a.svelte"⟩ = false ∧
      (Task.attempt stylePlan ⟨"a.svelte"⟩).Transcript
        [⟨.file (.read ⟨"/w/a.svelte"⟩), (t.read ⟨"/w/a.svelte"⟩ : Except FileError String)⟩,
          ⟨.tell "Error: failed to read /w/a.svelte: No such file or directory (os error 2)\n", ()⟩]
        false := by
  intro t
  have hread : t.read ⟨"/w/a.svelte"⟩ = .error .missing := by decide +kernel
  have hfile : stylePlan.project.workspace.join ⟨"a.svelte"⟩ = ⟨"/w/a.svelte"⟩ := by
    decide +kernel
  have htext : Task.failureText (BuildError.unread ⟨"/w/a.svelte"⟩ .missing).message =
      "Error: failed to read /w/a.svelte: No such file or directory (os error 2)\n" := by
    decide +kernel
  refine ⟨watched_stylePass, by decide +kernel, by decide +kernel, ?_⟩
  rw [Task.attempt_eq, hfile, hread, ← htext]
  exact .ask (.ask (.done _))

end Project

end ComponentBuild
