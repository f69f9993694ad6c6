import ComponentBuild.Proofs.Build.Alone
import ComponentBuild.Proofs.Build.Ledger
import ComponentBuild.Proofs.Files.Location

namespace ComponentBuild

namespace BuildExchange

/-- What was last written to a location. -/
def contentAt? (here l : FileLocation) (log : List BuildExchange) : Option String :=
  ((written log).filter fun file => file.1.location here = l).getLast?.map Prod.snd

theorem contentAt?_append {here l : FileLocation} (a b : List BuildExchange) :
    contentAt? here l (a ++ b) = (contentAt? here l b).or (contentAt? here l a) := by
  unfold contentAt?
  rw [written_append, List.filter_append, List.getLast?_append]
  cases ((written b).filter fun file => file.1.location here = l).getLast? <;> rfl

theorem contentAt?_eq_none {here l : FileLocation} {log : List BuildExchange}
    (h : ∀ file ∈ written log, file.1.location here ≠ l) : contentAt? here l log = none := by
  unfold contentAt?
  rw [List.filter_eq_nil_iff.2 fun file hfile => by simpa using h file hfile]
  rfl

/-- Whether a document depends on a file behind an exchange about it. -/
def relatedBy (ledger : Ledger) (document file : Path) (depends : Bool) (x : BuildExchange) :
    Bool :=
  match x.question with
  | .ledger (.forget _) => false
  | .ledger (.addDependency _ f) => depends || (ledger.resolve document f).sameAs file
  | _ => depends

theorem relatedBy_congr {l l' : Ledger} (h : l.workspace = l'.workspace) :
    relatedBy l = relatedBy l' := by
  unfold relatedBy Ledger.resolve
  rw [h]

/-- Whether a document depends on a file behind all that was asked about it. -/
def related (ledger : Ledger) (document file : Path) (log : List BuildExchange) : Bool :=
  log.foldl (relatedBy ledger document file) (ledger.relates document file)

end BuildExchange

open BuildExchange

/-- What the answer to a question about one document changes. -/
structure World.Change (plan : BuildPlan) (tool : Request → ToolAnswer) (document : Path)
    (x : BuildExchange) (w w' : World) : Prop where
  reply : ∀ source,
    (∀ text, w.tree.fileAt ((plan.project.workspace.join document).location w.tree.here) =
      some text → text = source) →
      View.reply tool source (w.ledger.errorsOf document) x.question =
        (x.answer, w'.ledger.errorsOf document)
  here : w'.tree.here = w.tree.here
  fileAt : ∀ l, w'.tree.fileAt l = (contentAt? w.tree.here l [x]).or (w.tree.fileAt l)
  workspace : w'.ledger.workspace = w.ledger.workspace
  unique : w.ledger.Unique → w'.ledger.Unique
  related : ∀ f, w'.ledger.relates document f =
    relatedBy w.ledger document f (w.ledger.relates document f) x
  errors : ∀ entry ∈ w'.ledger.errors, entry.1 = document ∨ entry ∈ w.ledger.errors
  told : w'.told = w.told ++ BuildExchange.told [x]
  /-- What is known of the others stays as it is. -/
  others : ∀ other, document.sameAs other = false →
    w'.ledger.errorsOf other = w.ledger.errorsOf other ∧
      ∀ f, w'.ledger.relates other f = w.ledger.relates other f

namespace FileTree

variable {change : FileTree → Except FileError FileTree} {t : FileTree}

variable (change) in
theorem attempt_ok (h : ∀ e, (attempt change t).1 ≠ .error e) :
    ∃ t', change t = .ok t' ∧ attempt change t = (.ok (), t') := by
  unfold attempt at h ⊢
  cases hchange : change t with
  | error e =>
    rw [hchange] at h
    exact absurd rfl (h e)
  | ok t' => exact ⟨t', rfl, rfl⟩

theorem answer_write {p : Path} {content : String}
    (h : FileStep.succeeded (.write p content) (answer (.write p content) t).1 = true) :
    ∃ t', t.write p content = .ok t' ∧
      answer (.write p content) t = ((.ok () : Except FileError Unit), t') := by
  refine attempt_ok (·.write p content) fun e he => ?_
  change FileStep.succeeded (.write p content) (attempt (·.write p content) t).1 = true at h
  rw [he] at h
  cases h

theorem answer_makeFolders {p : Path}
    (h : FileStep.succeeded (.makeFolders p) (answer (.makeFolders p) t).1 = true) :
    ∃ t', t.makeFolders p.components.reverse = .ok t' ∧
      answer (.makeFolders p) t = ((.ok () : Except FileError Unit), t') := by
  refine attempt_ok (·.makeFolders p.components.reverse) fun e he => ?_
  change FileStep.succeeded (.makeFolders p)
    (attempt (·.makeFolders p.components.reverse) t).1 = true at h
  rw [he] at h
  cases h

end FileTree

namespace World.Change

variable {plan : BuildPlan} {tool : Request → ToolAnswer} {document : Path} {x : BuildExchange}
  {w w' : World}

/-- A question to the files leaves the ledger and the author alone. -/
theorem of_tree {tree : FileTree}
    (hreply : ∀ source,
      (∀ text, w.tree.fileAt ((plan.project.workspace.join document).location w.tree.here) =
        some text → text = source) →
        View.reply tool source (w.ledger.errorsOf document) x.question =
          (x.answer, w.ledger.errorsOf document))
    (hhere : tree.here = w.tree.here)
    (hfileAt : ∀ l, tree.fileAt l = (contentAt? w.tree.here l [x]).or (w.tree.fileAt l))
    (hrelated : ∀ f, relatedBy w.ledger document f (w.ledger.relates document f) x =
      w.ledger.relates document f) (htold : BuildExchange.told [x] = []) :
    Change plan tool document x w { w with tree } where
  reply := hreply
  here := hhere
  fileAt := hfileAt
  workspace := rfl
  unique := id
  related f := (hrelated f).symm
  errors _ := .inr
  told := by rw [htold, List.append_nil]
  others _ _ := ⟨rfl, fun _ => rfl⟩

theorem of_file {q : FileStep} {a : q.Answer} (hq : (BuildStep.file q).IsOf plan document)
    (h : World.answer tool (.file q) w = some (a, w')) :
    Change plan tool document ⟨.file q, a⟩ w w' := by
  have hanswer : q.succeeded (FileTree.answer q w.tree).1 = true ∧
      a = (FileTree.answer q w.tree).1 ∧ w' = { w with tree := (FileTree.answer q w.tree).2 } := by
    change (if q.succeeded (FileTree.answer q w.tree).1 = true then
        some ((FileTree.answer q w.tree).1, { w with tree := (FileTree.answer q w.tree).2 })
      else none) = some (a, w') at h
    split at h
    · next hsucceeded =>
      cases h
      exact ⟨hsucceeded, rfl, rfl⟩
    · cases h
  obtain ⟨hsucceeded, rfl, rfl⟩ := hanswer
  cases q with
  | read p =>
    obtain rfl : p = plan.project.workspace.join document := hq
    refine of_tree (fun source hsource => ?_) rfl (fun l => rfl) (fun f => rfl) rfl
    change (Except.ok source, _) = (w.tree.read _, _)
    cases hread : w.tree.read (plan.project.workspace.join document) with
    | error e =>
      change FileStep.succeeded (.read _) (w.tree.read _) = true at hsucceeded
      rw [hread] at hsucceeded
      cases hsucceeded
    | ok s =>
      rw [hsource s (FileTree.read_ok hread)]
  | write p content =>
    obtain ⟨tree, hwrite, hanswer⟩ := FileTree.answer_write hsucceeded
    obtain ⟨hhere, hfileAt⟩ := FileTree.write_ok hwrite
    rw [hanswer]
    refine of_tree (fun _ _ => rfl) hhere (fun l => ?_) (fun f => rfl) rfl
    rw [hfileAt]
    unfold contentAt?
    by_cases hl : l = p.location w.tree.here
    · simp [written, hl]
    · simp [written, hl, Ne.symm hl]
  | makeFolders p =>
    obtain ⟨tree, hmade, hanswer⟩ := FileTree.answer_makeFolders hsucceeded
    obtain ⟨hhere, hfileAt⟩ := FileTree.makeFolders_ok hmade
    rw [hanswer]
    exact of_tree (fun _ _ => rfl) hhere hfileAt (fun f => rfl) rfl
  | «exists» | isFile | resolve | filesBelow => cases hq

/-- A question to the ledger leaves the files and the author alone. -/
theorem of_ledger {q : LedgerStep} {a : q.Answer} (hq : (BuildStep.ledger q).IsOf plan document)
    (h : World.answer tool (.ledger q) w = some (a, w')) :
    Change plan tool document ⟨.ledger q, a⟩ w w' := by
  cases h
  cases q with
  | addError d e =>
    obtain rfl : d = document := hq
    refine ⟨fun _ _ => ?_, rfl, fun _ => rfl, rfl, id, fun _ => rfl, fun entry hentry => ?_,
      (List.append_nil _).symm, fun other hother => ⟨?_, fun _ => rfl⟩⟩
    · refine Prod.ext rfl ?_
      change _ = (w.ledger.addError d e).errorsOf d
      rw [Ledger.errorsOf_addError, if_pos (Path.sameAs_refl d)]
      rfl
    · rcases List.mem_append.1 hentry with hentry | hentry
      · exact .inr hentry
      · exact .inl (congrArg Prod.fst (List.mem_singleton.1 hentry))
    · change (w.ledger.addError d e).errorsOf other = _
      rw [Ledger.errorsOf_addError, hother, if_neg Bool.false_ne_true, List.append_nil]
  | takeErrors d =>
    obtain rfl : d = document := hq
    refine ⟨fun _ _ => ?_, rfl, fun _ => rfl, rfl, id, fun _ => rfl,
      fun entry hentry => .inr (List.mem_filter.1 hentry).1,
      (List.append_nil _).symm, fun other hother => ⟨?_, fun _ => rfl⟩⟩
    · refine Prod.ext rfl ?_
      change _ = (w.ledger.takeErrors d).2.errorsOf d
      rw [Ledger.errorsOf_takeErrors, if_pos (Path.sameAs_refl d)]
      rfl
    · change (w.ledger.takeErrors d).2.errorsOf other = _
      rw [Ledger.errorsOf_takeErrors, hother, if_neg Bool.false_ne_true]
  | addDependency d file =>
    obtain rfl : d = document := hq
    refine ⟨fun _ _ => rfl, rfl, fun _ => rfl, rfl, Ledger.Unique.addDependency, fun f => ?_,
      fun _ => .inr, (List.append_nil _).symm, fun other hother => ⟨rfl, fun f => ?_⟩⟩
    · change (w.ledger.addDependency d file).relates d f = _
      rw [Ledger.relates_addDependency, Path.sameAs_refl, Bool.and_true]
      rfl
    · change (w.ledger.addDependency d file).relates other f = _
      rw [Ledger.relates_addDependency, hother, Bool.and_false, Bool.or_false]
  | forget d =>
    obtain rfl : d = document := hq
    refine ⟨fun _ _ => rfl, rfl, fun _ => rfl, rfl, Ledger.Unique.forget, fun f => ?_,
      fun _ => .inr, (List.append_nil _).symm, fun other hother => ⟨rfl, fun f => ?_⟩⟩
    · change (w.ledger.forget d).relates d f = _
      rw [Ledger.relates_forget, Path.sameAs_refl, Bool.not_true, Bool.and_false]
      rfl
    · change (w.ledger.forget d).relates other f = _
      rw [Ledger.relates_forget, hother, Bool.not_false, Bool.and_true]

/-- What a task asks about its own document changes nothing for the others. -/
theorem of_answer {q : BuildStep} {a : q.Answer} (hq : q.IsOf plan document)
    (h : World.answer tool q w = some (a, w')) : Change plan tool document ⟨q, a⟩ w w' := by
  cases q with
  | file q => exact of_file hq h
  | tool r =>
    cases h
    exact ⟨fun _ _ => rfl, rfl, fun _ => rfl, rfl, id, fun _ => rfl, fun _ => .inr,
      (List.append_nil _).symm, fun _ _ => ⟨rfl, fun _ => rfl⟩⟩
  | ledger q => exact of_ledger hq h
  | tell text =>
    cases h
    exact ⟨fun _ _ => rfl, rfl, fun _ => rfl, rfl, id, fun _ => rfl, fun _ => .inr,
      rfl, fun _ _ => ⟨rfl, fun _ => rfl⟩⟩

end World.Change

end ComponentBuild
