import ComponentBuild.Compile.Failure
import ComponentBuild.Path

namespace ComponentBuild

structure Ledger where
  /-- What relative paths start from. -/
  workspace : Path
  errors : List (Path × DocumentError)
  /-- Files by their resolved paths, each with at least one document. -/
  dependents : List (Path × List Path)
  deriving DecidableEq, Repr

namespace Ledger

def ofWorkspace (workspace : Path) : Ledger := ⟨workspace, [], []⟩

def addError (l : Ledger) (document : Path) (e : DocumentError) : Ledger :=
  { l with errors := l.errors ++ [(document, e)] }

def takeErrors (l : Ledger) (document : Path) : List DocumentError × Ledger :=
  ((l.errors.filter (·.1.sameAs document)).map Prod.snd,
    { l with errors := l.errors.filter (!·.1.sameAs document) })

/-- The file that a document means. -/
def resolve (l : Ledger) (document file : Path) : Path :=
  let folder := ((l.workspace.join document).parent?).getD l.workspace
  (folder.join file).normalize

def insertDependent (file document : Path) :
    List (Path × List Path) → List (Path × List Path)
  | [] => [(file, [document])]
  | (f, documents) :: rest =>
    if f.sameAs file then
      (f, if documents.any (·.sameAs document) then documents else documents ++ [document]) :: rest
    else (f, documents) :: insertDependent file document rest

def addDependency (l : Ledger) (document file : Path) : Ledger :=
  { l with dependents := insertDependent (l.resolve document file) document l.dependents }

/-- Drops what is known about the files of a document. -/
def forget (l : Ledger) (document : Path) : Ledger :=
  { l with
    dependents := (l.dependents.map fun (f, documents) =>
      (f, documents.filter (!·.sameAs document))).filter (!·.2.isEmpty) }

def dependentsOf (l : Ledger) (file : Path) : List Path :=
  ((l.dependents.find? (·.1.sameAs file.normalize)).map Prod.snd).getD []

end Ledger

/-- What builds ask of the ledger, each step at once. -/
inductive LedgerStep where
  | addError (document : Path) (e : DocumentError)
  | takeErrors (document : Path)
  | addDependency (document file : Path)
  | forget (document : Path)
  deriving DecidableEq, Repr

def LedgerStep.Answer : LedgerStep → Type
  | takeErrors _ => List DocumentError
  | _ => Unit

def Ledger.answer : (q : LedgerStep) → StateM Ledger q.Answer
  | .addError document e => fun l => ((), l.addError document e)
  | .takeErrors document => fun l => l.takeErrors document
  | .addDependency document file => fun l => ((), l.addDependency document file)
  | .forget document => fun l => ((), l.forget document)

end ComponentBuild
