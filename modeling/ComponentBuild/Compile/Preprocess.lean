import ComponentBuild.Compile.Failure
import ComponentBuild.Dialogue
import ComponentBuild.Position.Compose
import ComponentBuild.Tool.Request

namespace ComponentBuild

/-- What the build of a document asks of its surroundings. -/
inductive Step where
  | call (request : Request)
  /-- Tells that a document depends on a file. -/
  | dependency (document file : Path)
  /-- Tells what is wrong with a document. -/
  | error (document : Path) (e : DocumentError)

def Step.Answer : Step → Type
  | call _ => ToolAnswer
  | dependency _ _ => Unit
  | error _ _ => Unit

/-- Steps of a build that may fail. -/
abbrev Steps := ExceptT Failure (Dialogue Step Step.Answer)

namespace Steps

def call (request : Request) (fail : ToolError → Failure) : Steps ToolOutput := do
  let answer : ToolAnswer ← ExceptT.lift (Dialogue.question (Step.call request))
  match answer with
  | .ok output => return output
  | .error e => throw (fail e)

def dependency (document file : Path) : Steps Unit :=
  ExceptT.lift (Dialogue.question (Step.dependency document file))

/-- Goes on with what fits into words. -/
def checked {α : Type} : Checked α → Steps α
  | .ok a => return a
  | .error _ => throw (.abort .overflow)

end Steps

/-- What all sections of a document share. -/
structure SectionContext where
  options : BuildOptions
  path : Path
  source : String
  index : LineIndex

/-- The new content of a section. Its map leads to the old content. -/
structure SectionOutput where
  code : String
  map? : Option PositionMap
  deriving DecidableEq, Repr

namespace Section

/-- Sets an attribute, in the place of an earlier one of its name. -/
def putAttribute (name value : String) : List (String × String) → List (String × String)
  | [] => [(name, value)]
  | (n, v) :: rest =>
    if n = name then (name, value) :: rest else (n, v) :: putAttribute name value rest

/-- The attributes as tools are told them. Flags are true. -/
def attributeValues (s : Section) : List (String × String) :=
  s.attributes.foldl (fun values a => putAttribute a.name (a.value.getD "true") values) []

def base (s : Section) (k : SectionContext) : LineCol :=
  (k.index.unitLineCol? k.source.toList s.contentSpan.start).getD ⟨0, 0⟩

/-- Runs the tool for a language on the content of a section. `prior` leads from that content to
the content in the document. -/
def transform (s : Section) (k : SectionContext) (language : SectionLanguage) (content : String)
    (prior : Option PositionMap) : Steps SectionOutput := do
  let request := .preprocess language content s.attributeValues k.path.text
  let output ← Steps.call request (Failure.ofSectionTool prior (s.base k))
  for file in output.dependencies do Steps.dependency k.path file
  return ⟨output.code, output.map?⟩

/-- A script with its reactive statements rewritten, if it has any. -/
def rewritten (s : Section) (k : SectionContext) (dialect : Script.Dialect) :
    Except Failure (Option SectionOutput) :=
  let options : Script.Reactive.Options :=
    { context := s.context, dialect, trackerModule := k.options.trackerModule
      filename? := some k.path.text }
  match Script.rewrite options s.content with
  | .error e =>
    .error (.ofPlace e.message
      ((ToolPosition.relativeTo ⟨e.line, e.column⟩ (s.base k)).map some))
  | .ok output => .ok (if output.isModified then some ⟨output.code, output.map?⟩ else none)

def script (s : Section) (k : SectionContext) : Steps (Option SectionOutput) := do
  let language := ScriptLanguage.ofName s.lang?
  let changed ←
    match language.dialect?.map (s.rewritten k) with
    | none => pure none
    | some (.ok output) => pure output
    | some (.error e) => throw e
  if !language.needsTool then return changed
  let prior := changed.bind SectionOutput.map?
  let content := (changed.map SectionOutput.code).getD s.content
  let output ← s.transform k (.script language) content prior
  return some { output with map? := PositionMap.composeOptional output.map? prior }

/-- Whether a tool has to turn a style into plain rules. Without plugins there is nothing that
PostCSS could do. -/
def styleNeedsTool (language : StyleLanguage) (options : BuildOptions) : Bool :=
  match language with
  | .css => false
  | .postcss => !options.postcssPlugins.isEmpty
  | _ => true

def styleOutput (s : Section) (k : SectionContext) : Steps (Option SectionOutput) := do
  let language := StyleLanguage.ofName s.lang?
  if !styleNeedsTool language k.options then return none
  return some (← s.transform k (.style language) s.content none)

def output (s : Section) (k : SectionContext) : Steps (Option SectionOutput) :=
  match s.kind with
  | .script => s.script k
  | .style => s.styleOutput k

end Section

/-- A document in plain languages. There is no map where nothing changed. -/
structure Preprocessed where
  code : String
  map? : Option PositionMap
  deriving DecidableEq, Repr

namespace Preprocessed

/-- What takes the place of the content of a section. -/
def contentPiece (content : Span) (o : SectionOutput) : Piece :=
  match o.map? with
  | some _ => .external o.code
  | none => .replaced content o.code

/-- The pieces of the new document from a place in the old one on. -/
def pieces (source : List Char) (cursor : Nat) : List (Section × SectionOutput) → List Piece
  | [] =>
    [.copied cursor (Text.between source cursor (Text.byteLength source))]
  | (s, o) :: rest =>
    .copied cursor (Text.between source cursor s.contentSpan.start) ::
      contentPiece s.contentSpan o :: pieces source s.contentSpan.stop rest

/-- A section with a map of its own: where it starts in the new and in the old document. -/
structure Part where
  generated : Nat
  original : Nat
  map : PositionMap
  deriving DecidableEq, Repr

/-- The sections with maps of their own. The new document from `offset` on is the old one from
`cursor` on. -/
def parts (offset cursor : Nat) : List (Section × SectionOutput) → List Part
  | [] => []
  | (s, o) :: rest =>
    let start := offset + (s.contentSpan.start - cursor)
    let others := parts (start + Text.byteLength o.code.toList) s.contentSpan.stop rest
    match o.map? with
    | some map => ⟨start, s.contentSpan.start, map⟩ :: others
    | none => others

/-- Where a part starts in a text, if it starts in it. -/
def base (index : LineIndex) (text : String) (start : Nat) : LineCol :=
  (index.unitLineCol? text.toList start).getD ⟨0, 0⟩

/-- Puts new contents in the places of the sections. -/
def splice (k : SectionContext) (outputs : List (Section × SectionOutput)) :
    Checked Preprocessed :=
  let pieces := pieces k.source.toList 0 outputs
  let code := Splice.code pieces
  let index := LineIndex.ofText code
  let map := (parts 0 0 outputs).foldlM (fun map part =>
    map.extendShifted part.map (base index code part.generated)
      (base k.index k.source part.original) 0)
    (Splice.toPositionMap pieces code k.source k.path.text)
  map.map fun map => ⟨code, some (map.setContent 0 k.source)⟩

end Preprocessed

def changedSections (k : SectionContext) :
    List Section → Steps (List (Section × SectionOutput))
  | [] => return []
  | s :: rest => do
    let output ← s.output k
    let others ← changedSections k rest
    return (output.map (s, ·)).toList ++ others

def Component.preprocess (c : Component) (options : BuildOptions) (path : Path)
    (source : String) : Steps Preprocessed := do
  let k : SectionContext := ⟨options, path, source, .ofText source⟩
  let outputs ← changedSections k c.sections
  if outputs.isEmpty then return ⟨source, none⟩
  Steps.checked (Preprocessed.splice k outputs)

end ComponentBuild
