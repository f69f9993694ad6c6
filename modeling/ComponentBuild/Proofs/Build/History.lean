import Mathlib.Data.List.DropRight
import ComponentBuild.Proofs.Build.Ledger
import ComponentBuild.Proofs.Build.Output
import ComponentBuild.Proofs.Files.Normal

namespace ComponentBuild

namespace LedgerStep

def forgets (document : Path) : LedgerStep → Bool
  | .forget d => d.sameAs document
  | _ => false

def takes (document : Path) : LedgerStep → Bool
  | .takeErrors d => d.sameAs document
  | _ => false

/-- The error that a step tells of a document. -/
def errorOf? (document : Path) : LedgerStep → Option DocumentError
  | .addError d e => if d.sameAs document then some e else none
  | _ => none

/-- Whether a step tells that a document depends on a file. -/
def tells (workspace document file : Path) : LedgerStep → Bool
  | .addDependency d f =>
    d.sameAs document && ((Ledger.ofWorkspace workspace).resolve d f).sameAs file
  | _ => false

end LedgerStep

namespace Ledger

/-- The ledger of a workspace behind a history of steps. -/
def ofHistory (workspace : Path) (history : List LedgerStep) : Ledger :=
  history.foldl (fun l q => (answer q l).2) (ofWorkspace workspace)

variable {l : Ledger} {workspace document file : Path}

theorem workspace_answer (q : LedgerStep) (l : Ledger) : (answer q l).2.workspace = l.workspace := by
  cases q <;> rfl

theorem errorsOf_answer (q : LedgerStep) (l : Ledger) (document : Path) :
    (answer q l).2.errorsOf document =
      (if q.takes document then [] else l.errorsOf document) ++ (q.errorOf? document).toList := by
  cases q with
  | addError d e =>
    refine (l.errorsOf_addError d e document).trans ?_
    rw [LedgerStep.errorOf?]
    cases d.sameAs document <;> rfl
  | takeErrors d => exact (l.errorsOf_takeErrors d document).trans (List.append_nil _).symm
  | addDependency | forget => exact (List.append_nil _).symm

theorem relates_answer (q : LedgerStep) (l : Ledger) (document file : Path) :
    (answer q l).2.relates document file =
      (l.relates document file && !q.forgets document || q.tells l.workspace document file) := by
  cases q with
  | addDependency d f =>
    refine (relates_addDependency l).trans ?_
    simp only [LedgerStep.forgets, LedgerStep.tells, Bool.not_false, Bool.and_true]
    rw [Bool.and_comm (d.sameAs document)]
    rfl
  | forget d => exact (relates_forget l).trans (Bool.or_false _).symm
  | addError | takeErrors =>
    simp only [LedgerStep.forgets, LedgerStep.tells, Bool.not_false, Bool.and_true, Bool.or_false]
    rfl

theorem unique_answer (h : l.Unique) (q : LedgerStep) : (answer q l).2.Unique := by
  cases q with
  | addError | takeErrors => exact h
  | addDependency => exact h.addDependency
  | forget => exact h.forget

/-- A file from the root on with at least one document, and no document twice. -/
structure EntrySound (entry : Path × List Path) : Prop where
  isAbsolute : entry.1.isAbsolute = true
  ne_nil : entry.2 ≠ []
  distinct : entry.2.Pairwise fun d e => d.sameAs e = false

def Sound (l : Ledger) : Prop := ∀ entry ∈ l.dependents, EntrySound entry

theorem EntrySound.insert {f : Path} {documents : List Path} (h : EntrySound (f, documents))
    (document : Path) :
    EntrySound (f, if documents.any (·.sameAs document) then documents
      else documents ++ [document]) := by
  split
  · exact h
  · next hnew =>
    refine ⟨h.isAbsolute, List.append_ne_nil_of_left_ne_nil h.ne_nil _, ?_⟩
    refine List.pairwise_append.2 ⟨h.distinct, List.pairwise_singleton .., fun d hd e he => ?_⟩
    rw [List.mem_singleton.1 he]
    exact Bool.eq_false_iff.2 fun hsame => hnew (List.any_eq_true.2 ⟨d, hd, hsame⟩)

theorem sound_insertDependent {entries : List (Path × List Path)}
    (h : ∀ entry ∈ entries, EntrySound entry) (hfile : file.isAbsolute = true) :
    ∀ entry ∈ insertDependent file document entries, EntrySound entry := by
  induction entries with
  | nil =>
    exact List.forall_mem_singleton.2
      ⟨hfile, List.cons_ne_nil _ _, List.pairwise_singleton ..⟩
  | cons entry entries ih =>
    obtain ⟨hentry, hentries⟩ := List.forall_mem_cons.1 h
    unfold insertDependent
    split
    · exact List.forall_mem_cons.2 ⟨hentry.insert document, hentries⟩
    · exact List.forall_mem_cons.2 ⟨hentry, ih hentries⟩

/-- The folder of a document. -/
def folder (workspace document : Path) : Path :=
  (workspace.join document).parent?.getD workspace

theorem isAbsolute_folder (h : workspace.isAbsolute = true) (document : Path) :
    (folder workspace document).isAbsolute = true := by
  unfold folder
  cases hparent : (workspace.join document).parent? with
  | none => exact h
  | some folder => exact (Path.location_parent? (Path.isAbsolute_join h document) hparent []).1

theorem isAbsolute_resolve (h : l.workspace.isAbsolute = true) (document file : Path) :
    (l.resolve document file).isAbsolute = true := by
  have habsolute := Path.isAbsolute_join (isAbsolute_folder h document) file
  change ((folder l.workspace document).join file).normalize.isAbsolute = true
  rw [Path.normalize_of_isAbsolute habsolute []]
  exact FileTree.isAbsolute_pathOf _

theorem sound_answer (hl : l.workspace.isAbsolute = true) (h : l.Sound) (q : LedgerStep) :
    (answer q l).2.Sound := by
  cases q with
  | addError | takeErrors => exact h
  | addDependency d f => exact sound_insertDependent h (isAbsolute_resolve hl d f)
  | forget d =>
    intro entry hentry
    obtain ⟨hmem, hne⟩ := List.mem_filter.1 hentry
    obtain ⟨old, hold, rfl⟩ := List.mem_map.1 hmem
    refine ⟨(h old hold).isAbsolute, ?_, (h old hold).distinct.filter _⟩
    simpa using hne

/-- What a ledger holds behind a history. -/
structure Holds (workspace : Path) (history : List LedgerStep) (l : Ledger) : Prop where
  workspace_eq : l.workspace = workspace
  unique : l.Unique
  sound : l.Sound
  errorsOf : ∀ document, l.errorsOf document =
    (history.rtakeWhile (!·.takes document)).filterMap (LedgerStep.errorOf? document)
  relates : ∀ document file, l.relates document file =
    (history.rtakeWhile (!·.forgets document)).any (·.tells workspace document file)

theorem holds_ofWorkspace (workspace : Path) : (ofWorkspace workspace).Holds workspace [] :=
  ⟨rfl, .nil, List.forall_mem_nil _, fun _ => rfl, fun _ _ => rfl⟩

theorem errorOf?_of_takes {q : LedgerStep} (h : q.takes document = true) :
    q.errorOf? document = none := by
  cases q with
  | takeErrors => rfl
  | addError | addDependency | forget => cases h

theorem tells_of_forgets {q : LedgerStep} (h : q.forgets document = true) :
    q.tells workspace document file = false := by
  cases q with
  | forget => rfl
  | addError | addDependency | takeErrors => cases h

/-- One more step keeps what a ledger holds in step with the history. -/
theorem Holds.answer {history : List LedgerStep} (hworkspace : workspace.isAbsolute = true)
    (h : l.Holds workspace history) (q : LedgerStep) :
    (answer q l).2.Holds workspace (history ++ [q]) := by
  refine ⟨(workspace_answer q l).trans h.workspace_eq, unique_answer h.unique q,
    sound_answer (h.workspace_eq ▸ hworkspace) h.sound q, fun document => ?_,
    fun document file => ?_⟩
  · rw [errorsOf_answer, h.errorsOf, List.rtakeWhile_concat]
    cases htakes : q.takes document with
    | true =>
      rw [errorOf?_of_takes htakes]
      rfl
    | false =>
      rw [if_neg Bool.false_ne_true, Bool.not_false, if_pos rfl, List.filterMap_append]
      cases herror : q.errorOf? document <;> simp [herror]
  · rw [relates_answer, h.relates, h.workspace_eq, List.rtakeWhile_concat]
    cases hforgets : q.forgets document with
    | true =>
      rw [tells_of_forgets hforgets, Bool.not_true, Bool.and_false, Bool.or_false,
        if_neg Bool.false_ne_true, List.any_nil]
    | false =>
      rw [Bool.not_false, Bool.and_true, if_pos rfl, List.any_append, List.any_cons, List.any_nil,
        Bool.or_false]

theorem holds_ofHistory (hworkspace : workspace.isAbsolute = true) (history : List LedgerStep) :
    (ofHistory workspace history).Holds workspace history := by
  induction history using List.reverseRecOn with
  | nil => exact holds_ofWorkspace workspace
  | append_singleton history q ih =>
    rw [ofHistory, List.foldl_append]
    exact ih.answer hworkspace q

/-- Where a file is that a document tells of. A relative path starts from the folder of the
document. -/
def means (workspace document file : Path) : FileLocation :=
  file.location ((folder workspace document).location [])

/-- A document whose path ends in a name stands in the folder one name above. -/
theorem means_of_fileName? (hworkspace : workspace.isAbsolute = true) {n : String}
    (hn : (workspace.join document).fileName? = some n) (file : Path) :
    means workspace document file =
      file.location ((workspace.join document).location []).dropLast := by
  obtain ⟨above, habove, hlocation⟩ :=
    Path.location_parent?_of_fileName? (Path.isAbsolute_join hworkspace document) hn []
  rw [means, folder, habove, Option.getD_some, hlocation]

theorem location_join_folder (document file : Path) :
    ((folder workspace document).join file).location [] = means workspace document file := by
  unfold means
  cases hfile : file.isAbsolute with
  | true =>
    have hjoin : (folder workspace document).join file = file := by
      unfold Path.join
      rw [hfile, Bool.true_or, if_pos rfl]
    rw [hjoin, Path.location, Path.location, hfile]
    rfl
  | false =>
    rw [Path.location_join _ hfile]
    generalize (folder workspace document).location [] = above
    rw [Path.location, hfile]
    rfl

theorem sameAs_resolve_iff (hworkspace : workspace.isAbsolute = true)
    (hfile : file.isAbsolute = true) (document other : Path) :
    ((ofWorkspace workspace).resolve document other).sameAs file.normalize = true ↔
      means workspace document other = file.location [] := by
  rw [← location_join_folder]
  exact Path.sameAs_normalize_iff
    (Path.isAbsolute_join (isAbsolute_folder hworkspace document) other) hfile []

theorem tells_iff (hworkspace : workspace.isAbsolute = true) (hfile : file.isAbsolute = true)
    {q : LedgerStep} :
    q.tells workspace document file.normalize = true ↔
      ∃ d f, q = .addDependency d f ∧ d.sameAs document = true ∧
        means workspace d f = file.location [] := by
  cases q with
  | addDependency d f =>
    rw [LedgerStep.tells, Bool.and_eq_true, sameAs_resolve_iff hworkspace hfile]
    constructor
    · exact fun h => ⟨d, f, rfl, h⟩
    · rintro ⟨_, _, ⟨⟩, h⟩
      exact h
  | addError | takeErrors | forget =>
    exact iff_of_false Bool.false_ne_true fun ⟨_, _, h, _⟩ => by cases h

/-- What a ledger answers behind a history. -/
structure Answers (workspace : Path) (history : List LedgerStep) (l : Ledger) : Prop where
  /-- A document depends on a file if it has told of the file, in any spelling, since it was last
  forgotten. -/
  dependents : ∀ file document, file.isAbsolute = true →
    ((l.dependentsOf file).any (·.sameAs document) = true ↔
      ∃ d f, .addDependency d f ∈ history.rtakeWhile (!·.forgets document) ∧
        d.sameAs document = true ∧ means workspace d f = file.location [])
  relative : ∀ file, file.isAbsolute = false → l.dependentsOf file = []
  distinct : ∀ file, (l.dependentsOf file).Pairwise fun d e => d.sameAs e = false
  /-- No file is kept without documents. -/
  ne_nil : ∀ entry ∈ l.dependents, entry.2 ≠ []
  /-- The errors of a document are those told of it since they were last taken. -/
  errors : ∀ document, (l.takeErrors document).1 =
    (history.rtakeWhile (!·.takes document)).filterMap (LedgerStep.errorOf? document)
  /-- All other errors stay as they are. -/
  others : ∀ document, (l.takeErrors document).2.errors =
      l.errors.filter (fun entry => !entry.1.sameAs document) ∧
    ∀ other, document.sameAs other = false →
      ((l.takeErrors document).2.takeErrors other).1 = (l.takeErrors other).1

theorem dependentsOf_of_sound (h : l.Sound) (file : Path) :
    l.dependentsOf file = [] ∨ ∃ f, EntrySound (f, l.dependentsOf file) ∧
      f.sameAs file.normalize = true := by
  unfold dependentsOf
  cases hfind : l.dependents.find? (·.1.sameAs file.normalize) with
  | none => exact .inl rfl
  | some entry =>
    exact .inr ⟨entry.1, h entry (List.mem_of_find?_eq_some hfind),
      List.find?_some (p := fun entry : Path × List Path => entry.1.sameAs file.normalize) hfind⟩

theorem Holds.answers {history : List LedgerStep} (hworkspace : workspace.isAbsolute = true)
    (h : l.Holds workspace history) : l.Answers workspace history where
  dependents file document hfile := by
    rw [dependentsOf_any h.unique, h.relates, List.any_eq_true]
    constructor
    · rintro ⟨q, hq, htells⟩
      obtain ⟨d, f, rfl, hsame, hmeans⟩ := (tells_iff hworkspace hfile).1 htells
      exact ⟨d, f, hq, hsame, hmeans⟩
    · rintro ⟨d, f, hq, hsame, hmeans⟩
      exact ⟨_, hq, (tells_iff hworkspace hfile).2 ⟨d, f, rfl, hsame, hmeans⟩⟩
  relative file hfile := by
    rcases dependentsOf_of_sound h.sound file with hnil | ⟨f, hentry, hsame⟩
    · exact hnil
    · rw [Path.sameAs_of_isAbsolute hentry.isAbsolute (Path.normalize_not_isAbsolute hfile)] at hsame
      cases hsame
  distinct file := by
    rcases dependentsOf_of_sound h.sound file with hnil | ⟨f, hentry, -⟩
    · rw [hnil]
      exact .nil
    · exact hentry.distinct
  ne_nil entry hentry := (h.sound entry hentry).ne_nil
  errors document := h.errorsOf document
  others document := by
    refine ⟨rfl, fun other hother => ?_⟩
    have hrest := l.errorsOf_takeErrors document other
    rwa [hother, if_neg Bool.false_ne_true] at hrest

/-- Whatever was told and asked before, a ledger answers by its history. A document counts as
dependent on a file from the root on exactly if it has told of a file at the same location since it
was last forgotten, where relative paths start from the folder of the document that tells them; no
file is kept without documents. The errors of a document are handed out once, in their order, and
those of other documents stay. -/
theorem answers_ofHistory (workspace : Path) (hworkspace : workspace.isAbsolute = true)
    (history : List LedgerStep) :
    (ofHistory workspace history).Answers workspace history ∧
      ∀ document n, (workspace.join document).fileName? = some n → ∀ file,
        means workspace document file =
          file.location ((workspace.join document).location []).dropLast :=
  ⟨(holds_ofHistory hworkspace history).answers hworkspace,
    fun _ _ hn file => means_of_fileName? hworkspace hn file⟩

/-- Two documents that tell of one file in different words. The second one is forgotten and tells of
another file, and it has an error behind one that was taken. -/
def twoDocuments : List LedgerStep :=
  [.addDependency ⟨"a/A"⟩ ⟨"../x.scss"⟩, .addDependency ⟨"B"⟩ ⟨"/w/a/../x.scss"⟩,
    .addError ⟨"B"⟩ (.ofPosition "first" none), .takeErrors ⟨"B"⟩,
    .addError ⟨"B/"⟩ (.ofPosition "second" none), .forget ⟨"B"⟩,
    .addDependency ⟨"B"⟩ ⟨"a/./y.scss"⟩]

theorem answers_ofHistory_of_two :
    (⟨"/w"⟩ : Path).isAbsolute = true ∧
      (ofHistory ⟨"/w"⟩ twoDocuments).Answers ⟨"/w"⟩ twoDocuments ∧
      (ofHistory ⟨"/w"⟩ twoDocuments).dependentsOf ⟨"/w/./b/../x.scss"⟩ = [⟨"a/A"⟩] ∧
      (ofHistory ⟨"/w"⟩ twoDocuments).dependentsOf ⟨"/w/a/y.scss"⟩ = [⟨"B"⟩] ∧
      ((ofHistory ⟨"/w"⟩ twoDocuments).takeErrors ⟨"B"⟩).1 = [.ofPosition "second" none] := by
  refine ⟨rfl, (answers_ofHistory ⟨"/w"⟩ rfl twoDocuments).1, ?_, ?_, ?_⟩
  · decide +kernel
  · decide +kernel
  · decide +kernel

end Ledger

end ComponentBuild
