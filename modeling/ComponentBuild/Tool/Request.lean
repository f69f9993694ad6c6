import ComponentBuild.Document.Language
import ComponentBuild.Json.Value
import ComponentBuild.Tool.Failure
import ComponentBuild.Tool.Options

namespace ComponentBuild

inductive Request where
  /-- Turns the content of a section into the plain language of its kind. -/
  | preprocess (language : SectionLanguage) (content : String)
      (attributes : List (String × String)) (filename : String)
  | compile (code : String) (options : CompileOptions)
  /-- Prepares compiled code for changes while it runs; `source` is what it was compiled from. -/
  | instrument (code source : String) (options : CompileOptions)
  | transpile (code filename : String)
  deriving DecidableEq, Repr

/-- The code a tool made. Tools that keep positions have no map; files that were read along the way
are told by the tools for sections. -/
structure ToolOutput where
  code : String
  map? : Option PositionMap
  dependencies : List Path
  deriving DecidableEq, Repr

abbrev ToolAnswer := Except ToolError ToolOutput

def SectionLanguage.toJson (l : SectionLanguage) : Json :=
  .object [("kind", .string l.kindName), ("lang", .string l.name)]

def CompileOptions.toJson (o : CompileOptions) : Json :=
  .object [("target", .string o.target.name), ("name", .string o.name),
    ("filename", .string o.filename), ("dev", .bool o.dev), ("hydratable", .bool o.hydratable),
    ("css", .bool o.css)]

namespace Request

def operation : Request → String
  | preprocess .. => "preprocess"
  | compile .. => "compile"
  | instrument .. => "hot"
  | transpile .. => "transpile"

def fields : Request → List (String × Json)
  | preprocess language content attributes filename =>
    [("lang", language.toJson), ("content", .string content),
      ("attributes", .object (attributes.map fun (name, value) => (name, .string value))),
      ("filename", .string filename)]
  | compile code options => [("code", .string code), ("options", options.toJson)]
  | instrument code source options =>
    [("code", .string code), ("source", .string source), ("options", options.toJson)]
  | transpile code filename => [("code", .string code), ("filename", .string filename)]

def input : Request → String
  | preprocess _ content _ _ => content
  | compile code _ => code
  | instrument code _ _ => code
  | transpile code _ => code

def filename : Request → String
  | preprocess _ _ _ filename => filename
  | compile _ options => options.filename
  | instrument _ _ options => options.filename
  | transpile _ filename => filename

/-- The request with its number, as it is sent to the tools. -/
def message (id : Nat) (r : Request) : Json :=
  .object (("id", .nat id) :: ("op", .string r.operation) :: r.fields)

end Request

end ComponentBuild
