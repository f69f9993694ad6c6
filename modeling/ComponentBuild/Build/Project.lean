import ComponentBuild.Build.Config
import ComponentBuild.Build.Glob
import ComponentBuild.Compile.Run

namespace ComponentBuild

/-- Why a build, or a document in it, fails without being at fault itself. -/
inductive BuildError where
  | badGlob (pattern : String) (fault : Glob.Fault)
  | config (e : ConfigError)
  | host (e : HostError)
  | unread (file : Path) (e : FileError)
  | unwritten (file : Path) (e : FileError)
  | internal (document : Path) (e : InternalError)
  deriving DecidableEq, Repr, Inhabited

def BuildError.message : BuildError → String
  | badGlob pattern fault =>
    "invalid glob pattern: error parsing glob '" ++ pattern ++ "': " ++ fault.message
  | config e => e.message
  | host e => e.message
  | unread file e => "failed to read " ++ file.text ++ ": " ++ e.message
  | unwritten file e => "failed to write " ++ file.text ++ ": " ++ e.message
  | internal document e => document.text ++ ": " ++ e.message

structure Project where
  /-- An absolute path. -/
  workspace : Path
  outDir : Path
  config : Config
  ignored : List Glob
  deriving Repr

namespace Project

/-- The patterns that are named; the first one that is none is told. -/
def parsePatterns : List String → Except BuildError (List Glob)
  | [] => .ok []
  | pattern :: rest =>
    match Glob.parse pattern with
    | .error fault => .error (.badGlob pattern fault)
    | .ok g => (parsePatterns rest).map (g :: ·)

/-- What is left out without being named: installed packages, version control, and the output if it
is in the workspace and its path makes a pattern. -/
def standardPatterns (workspace outDir : Path) : List Glob :=
  let texts := ["**/node_modules/**", "**/.git/**"] ++
    ((outDir.below? workspace).map (·.text ++ "/**")).toList
  texts.filterMap fun text => (Glob.parse text).toOption

def load (a : Arguments) (here : Path) : Files (Except BuildError Project) := do
  let workspace := here.join a.workspace
  let workspace := (← Files.resolve? workspace).getD workspace
  match ← Config.load workspace a.config with
  | .error e => return .error (.config e)
  | .ok config =>
    let outDir := workspace.join a.outDir
    match parsePatterns (config.ignorePatterns a) with
    | .error e => return .error e
    | .ok named =>
      return .ok ⟨workspace, outDir, config, named ++ standardPatterns workspace outDir⟩

def ignores (project : Project) (p : Path) : Bool := project.ignored.any (·.isMatch p.text)

/-- The path in the workspace of a file that is a document. -/
def documentPath? (project : Project) (p : Path) : Option Path :=
  (p.below? project.workspace).filter fun relative =>
    project.config.matchesExtension relative && !project.ignores relative

/-- The documents of the workspace, in order. -/
def discover (project : Project) : Files (List Path) := do
  let files ← Files.below project.workspace
  return Path.sort (files.filterMap project.documentPath?)

def writeFile (file : Path) (content : String) : Files (Except BuildError Unit) := do
  match ← Files.makeFolders (file.parent?.getD ⟨""⟩) with
  | .error e => return .error (.unwritten file e)
  | .ok () =>
    match ← Files.write file content with
    | .error e => return .error (.unwritten file e)
    | .ok () => return .ok ()

/-- Writes files one after the other up to the first that fails. -/
def writeFiles : List (Path × String) → Files (Except BuildError Unit)
  | [] => return .ok ()
  | (file, content) :: rest => do
    match ← writeFile file content with
    | .error e => return .error e
    | .ok () => writeFiles rest

/-- The markup of a region, each part on lines of its own. -/
def regionText? (parts : List HtmlPart) (region : HtmlRegion) : Option String :=
  let texts := (parts.filter (·.region == region)).map HtmlPart.data
  if texts.isEmpty then none else some ("\n".intercalate texts ++ "\n")

/-- Code that names its map in its last line. -/
def withMapLine (code name : String) : String :=
  code ++ (if code.toList.getLast? = some '\n' then "" else "\n") ++
    "//# sourceMappingURL=" ++ name ++ ".map\n"

/-- The files that a document is built into, in the order they are written. -/
def outputs (project : Project) (document : Path) : Compiled → List (Path × String)
  | .component code map? =>
    let script : Path := ⟨(project.outDir.join document).text ++ ".js"⟩
    match map? with
    | none => [(script, code)]
    | some map =>
      let name := script.fileName?.getD script.text
      [(⟨script.text ++ ".map"⟩, (map.withFile name).toV3Text), (script, withMapLine code name)]
  | .markup parts =>
    [HtmlRegion.head, HtmlRegion.body].filterMap fun region =>
      (regionText? parts region).map fun text =>
        (⟨(project.outDir.join document).text ++ "." ++ region.name ++ ".html"⟩, text)

/-- Writes the output of a document. The files are named with the script in front of its map. -/
def writeOutput (project : Project) (document : Path) (compiled : Compiled) :
    Files (Except BuildError (List Path)) := do
  let files := project.outputs document compiled
  match ← writeFiles files with
  | .error e => return .error e
  | .ok () =>
    let paths := files.map Prod.fst
    return .ok (match compiled with
      | .component .. => paths.reverse
      | .markup _ => paths)

end Project

end ComponentBuild
