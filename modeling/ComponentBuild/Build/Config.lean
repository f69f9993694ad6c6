import ComponentBuild.Build.Arguments
import ComponentBuild.Host.Install
import ComponentBuild.Host.Reply

namespace ComponentBuild

structure Config where
  /-- The ends of the names of documents. -/
  extensions : List String := [".svelte", ".html"]
  postcss : List String := []
  hydratable : Bool := false
  css : Bool := true
  trackerModule : Option String := none
  workers : Option Nat := none
  ignore : List String := []
  deriving DecidableEq, Repr, Inhabited

/-- Why settings cannot be read. -/
inductive ConfigError where
  | unread (file : Path) (e : FileError)
  | malformed (file : Path)
  deriving DecidableEq, Repr, Inhabited

def ConfigError.message : ConfigError → String
  | unread file e => "failed to read " ++ file.text ++ ": " ++ e.message
  | malformed file => "invalid " ++ file.text ++ ": <json>"

namespace Config

def filename : String := "melte.config.json"

/-- A field with a default; it cannot be `null`. -/
def fieldOr {α : Type} (fields : List (String × Json)) (name : String) (default : α)
    (f : Json → Option α) : Option α :=
  match Json.field? fields name with
  | none => none
  | some none => some default
  | some (some v) => f v

def ofJson? (v : Json) : Option Config := do
  let fields ← Json.recordFields?
    ["extensions", "postcss", "hydratable", "css", "trackerModule", "workers", "ignore"] v
  let default : Config := {}
  let texts := Json.toList? Json.toText?
  return {
    extensions := ← fieldOr fields "extensions" default.extensions texts
    postcss := ← fieldOr fields "postcss" default.postcss texts
    hydratable := ← fieldOr fields "hydratable" default.hydratable Json.toBool?
    css := ← fieldOr fields "css" default.css Json.toBool?
    trackerModule := ← Json.optional? fields "trackerModule" Json.toText?
    workers := ← Json.optional? fields "workers" Json.toWord64?
    ignore := ← fieldOr fields "ignore" default.ignore texts }

def parse? (text : String) : Option Config := (Json.parse? text.toList).bind ofJson?

def read (file : Path) : Files (Except ConfigError Config) := do
  match ← Files.read file with
  | .error e => return .error (.unread file e)
  | .ok text =>
    match parse? text with
    | none => return .error (.malformed file)
    | some config => return .ok config

/-- The settings of a workspace. A file that is named has to be there. -/
def load (workspace : Path) (named : Option Path) : Files (Except ConfigError Config) := do
  match named with
  | some file => read (workspace.join file)
  | none =>
    let file := workspace.join ⟨filename⟩
    if ← Files.exists? file then read file else return .ok {}

def options (c : Config) (a : Arguments) : BuildOptions where
  target := a.target
  production := a.production
  hot := a.hot
  hydratable := a.hydratable || c.hydratable
  css := c.css && !a.noCss
  trackerModule := c.trackerModule.getD Script.Reactive.defaultModule
  postcssPlugins := c.postcss

def workerCount? (c : Config) (a : Arguments) : Option Nat :=
  match a.workers with
  | some n => some n
  | none => c.workers

/-- Patterns of paths to leave out. -/
def ignorePatterns (c : Config) (a : Arguments) : List String := c.ignore ++ a.ignore

def matchesExtension (c : Config) (p : Path) : Bool :=
  let name := (p.fileName?.getD "").toList
  c.extensions.any fun e => e.toList.reverse.isPrefixOf name.reverse

end Config

end ComponentBuild
