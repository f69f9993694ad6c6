import ComponentBuild.Build.Start

namespace ComponentBuild.CommandLine

def fileError : IO.Error → FileError
  | .noFileOrDirectory .. => .missing
  | .alreadyExists .. => .exists
  | e => .other (toString e)

def attempt {α : Type} (act : IO α) : IO (Except FileError α) := do
  match ← act.toBaseIO with
  | .ok a => return .ok a
  | .error e => return .error (fileError e)

/-- What is known about a file or folder, if there is one. -/
def facts? (p : Path) : IO (Option IO.FS.Metadata) := do
  match ← (System.mkFilePath [p.text]).metadata.toBaseIO with
  | .ok m => return some m
  | .error _ => return none

/-- The files below a folder, with the times at which they changed. -/
partial def filesBelow (p : Path) : IO (List (Path × IO.FS.SystemTime)) := do
  match ← (System.mkFilePath [p.text]).readDir.toBaseIO with
  | .error _ => return []
  | .ok entries =>
    let mut files := []
    for entry in entries do
      let below := p.join ⟨entry.fileName⟩
      match ← facts? below with
      | some m =>
        if m.type == .file then files := files ++ [(below, m.modified)]
        else if m.type == .dir then files := files ++ (← filesBelow below)
      | none => pure ()
    return files

def answerFile : (q : FileStep) → IO q.Answer
  | .read p => attempt (IO.FS.readFile p.text)
  | .write p content => attempt (IO.FS.writeFile p.text content)
  | .makeFolders p => attempt (IO.FS.createDirAll p.text)
  | .exists p => return (← facts? p).isSome
  | .isFile p => return (← facts? p).any (·.type == .file)
  | .resolve p => do
    if (← facts? p).isSome then return some ⟨(← IO.FS.realPath p.text).toString⟩
    else return none
  | .filesBelow p => return (← filesBelow p).map Prod.fst

def noPrograms : String := "other programs cannot be started"

def answerHost : (q : HostStep) → IO q.Answer
  | .start => return Except.error noPrograms
  | .send _ _ => return Except.error noPrograms
  | .receive _ => return Received.ended (-1) ""

def answer : (q : SystemStep) → IO q.Answer
  | .file q => answerFile q
  | .host _ q => answerHost q
  | .version _ => return Except.error (HostError.notStarted noPrograms)
  | .print text => do
    let out ← IO.getStdout
    out.putStr text
    out.flush
  | .complain text => IO.eprint text

def environment : IO Environment := do
  let folders := ((← IO.getEnv "PATH").getD "").splitOn ":"
  let home? := (← IO.getEnv "HOME").map Path.mk
  let cache? := ((← IO.getEnv "XDG_CACHE_HOME").map Path.mk).filter Path.isAbsolute
  return {
    programFolders := (folders.filter (!·.isEmpty)).map Path.mk
    home?
    cache? := cache?.orElse fun _ => home?.map (·.join ⟨".cache"⟩)
    processors := 1
    color := ← (← IO.getStderr).isTty }

partial def watch (s : Session) (seen : List (Path × IO.FS.SystemTime)) : IO UInt32 := do
  IO.sleep 1000
  let files ← filesBelow s.plan.project.workspace
  let isKnown (known : List (Path × IO.FS.SystemTime)) (file : Path × IO.FS.SystemTime) : Bool :=
    known.any fun other => other.1 == file.1 && other.2 == file.2
  let changed := files.filter (!isKnown seen ·) ++ seen.filter (!isKnown files ·)
  let (_, s) ← ((Session.rebuild (changed.map Prod.fst)).run s).run answer
  watch s files

end ComponentBuild.CommandLine

open ComponentBuild in
def main (arguments : List String) : IO UInt32 := do
  let here : Path := ⟨(← IO.currentDir).toString⟩
  match ← (Program.start (← CommandLine.environment) here arguments).run CommandLine.answer with
  | .exit code => return code
  | .watch s => CommandLine.watch s (← CommandLine.filesBelow s.plan.project.workspace)
