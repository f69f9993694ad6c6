import ComponentBuild.Build.Ledger
import ComponentBuild.Build.Project

namespace ComponentBuild

namespace Path

/-- Drops paths that mean the same as the one in front of them. -/
def dropRepeats : List Path → List Path
  | [] => []
  | p :: ps => p :: (dropRepeats ps).dropWhile (p.sameAs ·)

end Path

namespace Project

/-- A changed file as a document. One that is gone is none. -/
def changedDocument? (project : Project) (file : Path) : Files (Option Path) := do
  match project.documentPath? file with
  | none => return none
  | some document => return if ← Files.isFile file then some document else none

def collectAffected (project : Project) (l : Ledger) : List Path → Files (List Path)
  | [] => pure []
  | file :: rest => do
    let changed ← project.changedDocument? file
    return changed.toList ++ l.dependentsOf file ++ (← project.collectAffected l rest)

/-- The documents to build again, each once and in order. -/
def affectedDocuments (project : Project) (l : Ledger) (changed : List Path) :
    Files (List Path) := do
  return Path.dropRepeats (Path.sort (← project.collectAffected l changed))

end Project

end ComponentBuild
