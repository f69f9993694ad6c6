import ComponentBuild.Dialogue
import ComponentBuild.Files.Tree
import ComponentBuild.Host.Error
import ComponentBuild.Host.Script
import ComponentBuild.Json.Writer

namespace ComponentBuild

/-- What a program is told about the system it runs on. -/
structure Environment where
  /-- Where programs are looked for. -/
  programFolders : List Path
  home? : Option Path
  cache? : Option Path
  /-- The number of processes that can run at the same time. -/
  processors : Nat
  /-- Whether colours are shown. -/
  color : Bool
  deriving DecidableEq, Repr, Inhabited

abbrev Files := Dialogue FileStep FileStep.Answer

namespace Files

def read (p : Path) : Files (Except FileError String) := Dialogue.question (FileStep.read p)

def write (p : Path) (content : String) : Files (Except FileError Unit) :=
  Dialogue.question (FileStep.write p content)

def makeFolders (p : Path) : Files (Except FileError Unit) :=
  Dialogue.question (FileStep.makeFolders p)

def exists? (p : Path) : Files Bool := Dialogue.question (FileStep.exists p)

def isFile (p : Path) : Files Bool := Dialogue.question (FileStep.isFile p)

def resolve? (p : Path) : Files (Option Path) := Dialogue.question (FileStep.resolve p)

def below (p : Path) : Files (List Path) := Dialogue.question (FileStep.filesBelow p)

/-- The first path at which there is something. -/
def firstOf : List Path → Files (Option Path)
  | [] => pure none
  | p :: ps => do
    if ← exists? p then return some p
    firstOf ps

end Files

/-- The places to look for the program, in order: in the workspace, on the system, at home. -/
def Environment.bunPlaces (e : Environment) (workspace : Path) : List Path :=
  [(workspace.join ⟨"node_modules/.bin"⟩).join ⟨"bun"⟩] ++
    e.programFolders.map (·.join ⟨"bun"⟩) ++
    (e.home?.map fun home => (home.join ⟨".bun/bin"⟩).join ⟨"bun"⟩).toList

def Environment.findBun (e : Environment) (workspace : Path) : Files (Option Path) :=
  Files.firstOf (e.bunPlaces workspace)

/-- The folder that keeps the script. -/
def Environment.cacheFolder? (e : Environment) : Option Path := e.cache?.map (·.join ⟨"melte"⟩)

def scriptName : String := "melte-bun-host.mjs"

/-- The number of host processes, if nothing names one. -/
def Environment.defaultWorkers (e : Environment) : Nat := min e.processors 4

/-- Puts the script into a folder, unless it is there already. -/
def installScript (folder : Path) : Files (Except HostError Path) := do
  match ← Files.makeFolders folder with
  | .error e => return .error (.noScript ("failed to create cache dir: " ++ e.message))
  | .ok () =>
    let script := folder.join ⟨scriptName⟩
    match ← Files.read script with
    | .ok content => if content = hostScript then return .ok script
    | .error _ => pure ()
    match ← Files.write script hostScript with
    | .error e => return .error (.noScript ("failed to write bun host script: " ++ e.message))
    | .ok () => return .ok script

/-- The settings of a host process, as it gets them. -/
def hostSettings (postcssPlugins : List String) : String :=
  (Json.object [("postcssPlugins", .ofStrings postcssPlugins)]).render

structure Launch where
  bun : Path
  workspace : Path
  script : Path
  settings : String
  deriving DecidableEq, Repr, Inhabited

/-- Prepares the start of host processes, with the script in a folder. -/
def Launch.prepare (bun workspace folder : Path) (postcssPlugins : List String) :
    Files (Except HostError Launch) := do
  match ← installScript folder with
  | .error e => return .error e
  | .ok script => return .ok ⟨bun, workspace, script, hostSettings postcssPlugins⟩

end ComponentBuild
