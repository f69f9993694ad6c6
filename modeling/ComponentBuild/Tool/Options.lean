import ComponentBuild.Path
import ComponentBuild.Script.Reactive

namespace ComponentBuild

/-- Where a component runs. -/
inductive Target where
  | browser
  | server
  deriving DecidableEq, Repr, Inhabited

namespace Target

def name : Target → String
  | browser => "browser"
  | server => "server"

def ofName? : String → Option Target
  | "browser" | "client" | "web" => some browser
  | "server" | "ssr" => some server
  | _ => none

def unknownMessage (name : String) : String := "unknown target: " ++ name

end Target

/-- What holds for all documents of a build. -/
structure BuildOptions where
  target : Target := .browser
  /-- Without the checks that help while developing. -/
  production : Bool := false
  /-- Browser output can take up changes while it runs. -/
  hot : Bool := false
  hydratable : Bool := false
  /-- Browser output carries the styles of its components. -/
  css : Bool := true
  trackerModule : String := Script.Reactive.defaultModule
  /-- Without plugins the styles that need them stay as they are. -/
  postcssPlugins : List String := []
  deriving DecidableEq, Repr, Inhabited

/-- Whether output gets instrumented for changes while it runs. -/
def BuildOptions.instruments (o : BuildOptions) : Bool := o.hot && o.target == .browser

/-- Whether a character stands for itself in the name of a component. -/
def isNameChar (c : Char) : Bool := c.isAlphanum || c == '_' || c == '$'

/-- The name of a component, by its file: what is in front of the first dot. -/
def componentName (file : String) : String :=
  String.ofList ((file.toList.takeWhile (· != '.')).map fun c => if isNameChar c then c else '_')

/-- What the compiler is told about one document. -/
structure CompileOptions where
  target : Target
  name : String
  filename : String
  dev : Bool
  hydratable : Bool
  css : Bool
  deriving DecidableEq, Repr, Inhabited

/-- The options for a document. Server output is never hydrated and always has its styles. -/
def CompileOptions.ofDocument (path : Path) (o : BuildOptions) : CompileOptions where
  target := o.target
  name := componentName (path.fileName?.getD path.text)
  filename := path.text
  dev := !o.production
  hydratable := o.target == .browser && o.hydratable
  css := o.target != .browser || o.css

end ComponentBuild
