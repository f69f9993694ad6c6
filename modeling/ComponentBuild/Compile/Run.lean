import ComponentBuild.Compile.Preprocess
import ComponentBuild.Document.Kind
import ComponentBuild.Text.Replace

namespace ComponentBuild

inductive Compiled where
  | component (code : String) (map? : Option PositionMap)
  | markup (parts : List HtmlPart)
  deriving DecidableEq, Repr

/-- A call that instrumentation leaves behind and that does nothing. -/
def acceptCall : String := "if (false) import.meta.hot.accept();"

/-- The failure of a document that cannot be divided into sections. -/
def ScanError.toFailure (e : ScanError) (source : String) : Failure :=
  .ofPlace e.message
    (((LineIndex.ofText source).unitLineCol? source.toList e.span.start).mapM
      ToolPosition.ofLineCol)

/-- Compiled code prepared for changes while it runs, if that is wanted. -/
def instrument (options : BuildOptions) (compile : CompileOptions) (source code : String)
    (map? : Option PositionMap) : Steps String := do
  if !options.instruments then return code
  let output ← Steps.call (.instrument code source compile) (.ofTool .instrument map?)
  return Text.replaceAll acceptCall "" output.code

def Component.build (c : Component) (options : BuildOptions) (path : Path) (source : String) :
    Steps Compiled := do
  let plain ← c.preprocess options path source
  let compile := CompileOptions.ofDocument path options
  let compiled ← Steps.call (.compile plain.code compile) (.ofTool .compile plain.map?)
  let map? := PositionMap.composeOptional compiled.map? plain.map?
  let code ← instrument options compile plain.code compiled.code map?
  let transpiled ← Steps.call (.transpile code path.text) (.ofTool .transpile map?)
  return .component transpiled.code (PositionMap.composeOptional transpiled.map? map?)

def buildStages (options : BuildOptions) (path : Path) (source : String) : Steps Compiled :=
  match Document.detect path.text source with
  | .error e => throw (e.toFailure source)
  | .ok (.markup parts) => return .markup parts
  | .ok (.component c) => c.build options path source

/-- Builds a document. There is no result where the document is at fault, which is told along the
way. -/
def buildDocument (options : BuildOptions) (path : Path) (source : String) :
    Dialogue Step Step.Answer (Except Abort (Option Compiled)) := do
  match ← (buildStages options path source).run with
  | .ok compiled => return .ok (some compiled)
  | .error (.document e) =>
    let _ : Unit ← Dialogue.question (Step.error path e)
    return .ok none
  | .error (.abort e) => return .error e

end ComponentBuild
