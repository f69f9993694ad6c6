import ComponentBuild.Tool.Failure

namespace ComponentBuild

/-- What an author is told about a document. Lines count from one, columns from zero. -/
structure DocumentError where
  message : String
  line : Option UInt32
  column : Option UInt32
  deriving DecidableEq, Repr, Inhabited

namespace DocumentError

/-- An error at a place, if there is one. -/
def ofPosition (message : String) : Option ToolPosition → DocumentError
  | some p => ⟨message, some p.line, some p.column⟩
  | none => ⟨message, none, none⟩

/-- The place of an error with a line; without a column that is where the line starts. -/
def position? (e : DocumentError) : Option ToolPosition :=
  e.line.map fun line => ⟨line, e.column.getD 0⟩

end DocumentError

inductive Stage where
  | preprocess
  | compile
  | instrument
  | transpile
  deriving DecidableEq, Repr, Inhabited

def Stage.name : Stage → String
  | preprocess => "preprocess"
  | compile => "compile"
  | instrument => "hot-reload instrumentation"
  | transpile => "transpile"

/-- A failure that no change of the document can mend. -/
inductive InternalError where
  /-- A tool failed and did not say where. -/
  | unpositioned (stage : Stage) (cause : String)
  /-- A tool could not be run. -/
  | host (stage : Stage) (cause : String)
  deriving DecidableEq, Repr, Inhabited

namespace InternalError

def stage : InternalError → Stage
  | unpositioned stage _ => stage
  | host stage _ => stage

def cause : InternalError → String
  | unpositioned _ cause => cause
  | host _ cause => cause

def message : InternalError → String
  | unpositioned stage cause =>
    stage.name ++ " failed without position information: " ++ cause
  | host stage cause => "toolchain host failed during " ++ stage.name ++ ": " ++ cause

end InternalError

/-- Why the build of a document stops without a result and without a word to its author. -/
inductive Abort where
  | internal (e : InternalError)
  /-- A place does not fit into words. -/
  | overflow
  deriving DecidableEq, Repr, Inhabited

inductive Failure where
  | document (e : DocumentError)
  | abort (e : Abort)
  deriving DecidableEq, Repr, Inhabited

namespace Failure

/-- The fault of a document at a place, if there is one. -/
def ofPlace (message : String) : Checked (Option ToolPosition) → Failure
  | .ok place => .document (.ofPosition message place)
  | .error _ => .abort .overflow

/-- What the failure of a tool behind preprocessing means. The map leads back to the document. Only
the compiler blames the document without saying where. -/
def ofTool (stage : Stage) (map : Option PositionMap) : ToolError → Failure
  | .host cause => .abort (.internal (.host stage cause))
  | .failed f =>
    if f.start.isNone && stage != .compile then
      .abort (.internal (.unpositioned stage f.message))
    else .ofPlace (withFrame f.message f.frame) (f.place map)

/-- What the failure of a tool for a section means. The map leads back to the content of the
section, which starts at `base`. -/
def ofSectionTool (map : Option PositionMap) (base : LineCol) : ToolError → Failure
  | .host cause => .abort (.internal (.host .preprocess cause))
  | .failed f => .ofPlace f.message (do (← f.place map).mapM (·.relativeTo base))

end Failure

end ComponentBuild
