import ComponentBuild.Build.Affected
import ComponentBuild.Proofs.Build.Ledger
import ComponentBuild.Proofs.Transcript

namespace ComponentBuild

namespace Path

/-- Of paths that mean the same one is left. -/
theorem any_dropRepeats (ps : List Path) (document : Path) :
    (dropRepeats ps).any (·.sameAs document) = ps.any (·.sameAs document) := by
  induction ps with
  | nil => rfl
  | cons p ps ih =>
    rw [dropRepeats, List.any_cons, List.any_cons, ← ih]
    cases hp : p.sameAs document with
    | true => rfl
    | false =>
      have hdropped : ((dropRepeats ps).takeWhile (p.sameAs ·)).any (·.sameAs document) =
          false := by
        refine List.any_eq_false.2 fun q hq => ?_
        have hsame : p.sameAs q = true := List.all_eq_true.1 List.all_takeWhile q hq
        rw [← sameAs_congr hsame, hp]
        exact Bool.false_ne_true
      conv_rhs => rw [← List.takeWhile_append_dropWhile (p := (p.sameAs ·)) (l := dropRepeats ps)]
      rw [List.any_append, hdropped]
      simp only [Bool.false_or]

theorem any_sort (ps : List Path) (document : Path) :
    (sort ps).any (·.sameAs document) = ps.any (·.sameAs document) :=
  (List.mergeSort_perm ps _).any_eq

end Path

namespace Project

variable {project : Project} {l : Ledger} {t : FileTree} {changed : List Path} {document : Path}

/-- Whether a document is among those to build again. -/
def affects (project : Project) (l : Ledger) (t : FileTree) (changed : List Path)
    (document : Path) : Bool :=
  ((project.affectedDocuments l changed).run FileTree.answer t).1.any (·.sameAs document)

/-- Whether a changed file is a document that is there. -/
def changes (project : Project) (t : FileTree) (file document : Path) : Bool :=
  (project.documentPath? file).any (·.sameAs document) && t.isFile file

theorem run_changedDocument? (project : Project) (file : Path) (t : FileTree) :
    (project.changedDocument? file).run FileTree.answer t =
      ((project.documentPath? file).filter fun _ => t.isFile file, t) := by
  unfold changedDocument?
  cases project.documentPath? file <;> rfl

theorem run_collectAffected (project : Project) (l : Ledger) (changed : List Path)
    (t : FileTree) :
    (project.collectAffected l changed).run FileTree.answer t =
      (changed.flatMap fun file =>
        ((project.documentPath? file).filter fun _ => t.isFile file).toList ++
          l.dependentsOf file, t) := by
  induction changed with
  | nil => rfl
  | cons file changed ih =>
    unfold collectAffected
    rw [Dialogue.bind_eq, Dialogue.run_bind_state, run_changedDocument?, Dialogue.bind_eq,
      Dialogue.run_bind_state, ih, List.flatMap_cons]
    rfl

theorem any_changedDocument (project : Project) (t : FileTree) (file document : Path) :
    ((project.documentPath? file).filter fun _ => t.isFile file).toList.any (·.sameAs document) =
      project.changes t file document := by
  unfold changes
  cases project.documentPath? file with
  | none => rfl
  | some d => cases t.isFile file <;> simp [Option.filter]

/-- A document is built again if it has changed itself, or if the ledger relates it to a changed
file. -/
theorem affects_eq (h : l.Unique) :
    project.affects l t changed document =
      changed.any fun file =>
        project.changes t file document || l.relates document file.normalize := by
  unfold affects affectedDocuments
  rw [Dialogue.bind_eq, Dialogue.run_bind_state, run_collectAffected]
  change (Path.dropRepeats (Path.sort _)).any _ = _
  rw [Path.any_dropRepeats, Path.any_sort, List.any_flatMap]
  refine List.any_congr rfl fun file => ?_
  rw [List.any_append, any_changedDocument, Ledger.dependentsOf_any h]

end Project

end ComponentBuild
