import ComponentBuild.Position.Map
import ComponentBuild.Text.Offset

namespace ComponentBuild

/-- A place as tools tell it: lines count from one, columns from zero. -/
structure ToolPosition where
  line : UInt32
  column : UInt32
  deriving DecidableEq, Repr, Inhabited

namespace ToolPosition

/-- The position in maps. There is no line in front of the first. -/
def toLineCol (p : ToolPosition) : LineCol := ⟨if p.line = 0 then 0 else p.line - 1, p.column⟩

def ofLineCol (p : LineCol) : Checked ToolPosition :=
  (addWords p.line 1).map fun line => ⟨line, p.col⟩

/-- The place in the document of one in a section, whose content starts at `base`. -/
def relativeTo (p : ToolPosition) (base : LineCol) : Checked ToolPosition := do
  ofLineCol (← p.toLineCol.relativeTo base)

/-- The place in the input of a stage, from one in its output. Without a map the stage moved
nothing; generated text has no place in the input. -/
def lift (p : ToolPosition) : Option PositionMap → Checked (Option ToolPosition)
  | none => .ok (some p)
  | some m => (m.lookup p.toLineCol).mapM fun found => ofLineCol found.position

end ToolPosition

/-- A tool ran and turned its input down. -/
structure ToolFailure where
  message : String
  start : Option ToolPosition
  /-- A part of the input with a mark where the failure is. -/
  frame : Option String
  deriving DecidableEq, Repr, Inhabited

/-- The place of a failure in what the stage got, if the tool says where it is. -/
def ToolFailure.place (f : ToolFailure) (map : Option PositionMap) :
    Checked (Option ToolPosition) :=
  match f.start with
  | none => .ok none
  | some p => p.lift map

inductive ToolError where
  | failed (failure : ToolFailure)
  /-- The tool could not be run. -/
  | host (message : String)
  deriving DecidableEq, Repr, Inhabited

def ToolError.message : ToolError → String
  | failed failure => failure.message
  | host message => "toolchain host error: " ++ message

/-- A message with its frame below. The bar in front of each line keeps the indentation. -/
def withFrame (message : String) (frame : Option String) : String :=
  match frame with
  | none | some "" => message
  | some frame =>
    message ++ "\n\n" ++ String.ofList
      (['\n'].intercalate ((Text.splitOn '\n' frame.toList).map ('|' :: ' ' :: ·)))

end ComponentBuild
