import ComponentBuild.Build.Session
import ComponentBuild.Build.Usage
import ComponentBuild.Text.Blank

namespace ComponentBuild

inductive Outcome where
  | exit (code : UInt32)
  /-- The session waits for changes. -/
  | watch (s : Session)

namespace Program

def fail (message : String) : Program Outcome := do
  complain (Task.failureText message)
  return .exit 1

/-- Answers arguments that the program does not run with. -/
def refuse (e : ArgumentError) : Program Outcome := do
  if e.isRequest then
    print e.message
    return .exit 0
  else
    complain e.message
    return .exit 2

/-- Tells where the program that runs the tools is, and its version. -/
def showBun (env : Environment) (workspace : Path) : Program Outcome := do
  match ← files (env.findBun workspace) with
  | none => fail HostError.notFound.message
  | some bun =>
    let version : Except HostError String ← Dialogue.question (SystemStep.version bun)
    match version with
    | .error e => fail e.message
    | .ok text =>
      print ("bun " ++ String.ofList (Text.trim text.toList) ++ "\npath: " ++ bun.text ++ "\n")
      if let some folder := env.cacheFolder? then print ("cache: " ++ folder.text ++ "\n")
      return .exit 0

/-- Finds what the tools of a project need. -/
def prepareLaunch (env : Environment) (project : Project) : Files (Except HostError Launch) := do
  match ← env.findBun project.workspace with
  | none => return .error .notFound
  | some bun =>
    match env.cacheFolder? with
    | none => return .error (.noScript "could not determine cache directory")
    | some folder => Launch.prepare bun project.workspace folder project.config.postcss

def openSession (env : Environment) (a : Arguments) (project : Project) (launch : Launch) :
    Session where
  plan := { project, options := project.config.options a, color := env.color }
  launch := launch
  pool := .ofCount ((project.config.workerCount? a).getD env.defaultWorkers)
  ledger := .ofWorkspace project.workspace
  keepsOutput := a.preserveWatchOutput

def firstBuild (watches : Bool) (documents : List Path) (s : Session) : Program Outcome := do
  if watches then
    print "Starting watch mode...\n\n"
    let (_, s) ← (Session.build documents).run s
    print "Watching for changes... (Ctrl+C to stop)\n\n"
    return .watch s
  else
    let (summary, _) ← (Session.build documents).run s
    return .exit (if summary.errors = 0 then 0 else 1)

def buildWorkspace (env : Environment) (here : Path) (a : Arguments) : Program Outcome := do
  match ← files (Project.load a here) with
  | .error e => fail e.message
  | .ok project =>
    let documents ← files project.discover
    match ← files (prepareLaunch env project) with
    | .error e => fail e.message
    | .ok launch => firstBuild a.watch documents (openSession env a project launch)

/-- Runs the program with its arguments, in a folder. -/
def start (env : Environment) (here : Path) (arguments : List String) : Program Outcome :=
  match Arguments.parse arguments with
  | .error e => refuse e
  | .ok a => if a.bunVersion then showBun env a.workspace else buildWorkspace env here a

end Program

end ComponentBuild
