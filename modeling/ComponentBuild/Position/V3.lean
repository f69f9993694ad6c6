import ComponentBuild.Json.Reader
import ComponentBuild.Json.Writer
import ComponentBuild.Position.Map
import ComponentBuild.Position.Vlq
import ComponentBuild.Text.Offset

namespace ComponentBuild.PositionMap

inductive V3Error where
  | badJson
  | badHeader
  | badSegment (cause : Vlq.Error)
  | segmentSize (size : Nat)
  | noSource (id : UInt32)
  | noName (id : UInt32)
  | badBase64 (byte : Char)
  | notPlain
  deriving DecidableEq, Repr

/-- The wording of a failure; that of malformed JSON stands for itself. -/
def V3Error.message : V3Error → String
  | .badJson => "bad json: <json>"
  | .badHeader => "expected newline"
  | .badSegment .leftover => "leftover cur/shift in vlq decode"
  | .badSegment .noValues => "vlq decode did not produce any values"
  | .badSegment .overflow => "vlq decode caused an overflow"
  | .segmentSize n => "got " ++ toString n ++ " segments, expected 4 or 5"
  | .noSource id => "bad reference to source #" ++ toString id.toNat
  | .noName id => "bad reference to name #" ++ toString id.toNat
  | .badBase64 c => "invalid base64 character: " ++ String.singleton c
  | .notPlain => "encountered incompatible sourcemap format"

/-- A segment, its numbers made absolute. The place in the source is that of the last segment that
had one, whether this one has a source or not. -/
structure Segment where
  generated : LineCol
  source : Option UInt32
  position : LineCol
  deriving DecidableEq, Repr

/-- What the numbers of the next segment count from. -/
structure Cursor where
  column : UInt32
  source : UInt32
  line : UInt32
  sourceColumn : UInt32
  name : UInt32
  deriving DecidableEq, Repr

def Cursor.start : Cursor := ⟨0, 0, 0, 0, 0⟩

def move (x : UInt32) (d : Int) : UInt32 := UInt32.ofInt (x.toNat + d)

/-- One segment of a line, whose numbers are differences to the cursor. -/
def readSegment (sources names : Nat) (line : UInt32) (k : Cursor) (numbers : List Int) :
    Except V3Error (Segment × Cursor) :=
  match numbers with
  | [column] =>
    let k := { k with column := move k.column column }
    .ok (⟨⟨line, k.column⟩, none, ⟨k.line, k.sourceColumn⟩⟩, k)
  | column :: source :: sourceLine :: sourceColumn :: name =>
    if name.length > 1 then .error (.segmentSize numbers.length)
    else
      let id := move k.source source
      if sources ≤ id.toNat then .error (.noSource id)
      else
        let k := ⟨move k.column column, id, move k.line sourceLine,
          move k.sourceColumn sourceColumn, move k.name (name.headD 0)⟩
        if ¬ name.isEmpty ∧ names ≤ k.name.toNat then .error (.noName k.name)
        else .ok (⟨⟨line, k.column⟩, some id, ⟨k.line, k.sourceColumn⟩⟩, k)
  | _ => .error (.segmentSize numbers.length)

/-- The segments of a line; empty ones count for nothing. -/
def readSegments (sources names : Nat) (line : UInt32) (k : Cursor) :
    List (List Char) → Except V3Error (List Segment × Cursor)
  | [] => .ok ([], k)
  | text :: texts =>
    if text.isEmpty then readSegments sources names line k texts
    else
      match Vlq.decode text with
      | .error e => .error (.badSegment e)
      | .ok numbers =>
        match readSegment sources names line k numbers with
        | .error e => .error e
        | .ok (segment, k) =>
          (readSegments sources names line k texts).map fun (segments, k) => (segment :: segments, k)

/-- The flags that mark segments as ranges have to be base 64 text. -/
def checkRanges (cs : List Char) : Except V3Error Unit :=
  match cs.find? fun c => (Vlq.digit? c).isNone with
  | none => .ok ()
  | some c =>
    .error (.badBase64 (Char.ofNat ((String.singleton c).toUTF8.data.toList.headD 0).toNat))

/-- The segments of all lines from `line` on; columns start over with each line. -/
def readLines (sources names : Nat) (line : UInt32) (k : Cursor) :
    List (List Char) → List (List Char) → Except V3Error (List Segment)
  | [], _ => .ok []
  | text :: texts, ranges =>
    if text.isEmpty then readLines sources names (line + 1) k texts ranges.tail
    else
      match checkRanges (ranges.headD []) with
      | .error e => .error e
      | .ok () =>
        match readSegments sources names line { k with column := 0 } (Text.splitOn ',' text) with
        | .error e => .error e
        | .ok (segments, k) =>
          (readLines sources names (line + 1) k texts ranges.tail).map (segments ++ ·)

structure V3Fields where
  file : Option Json
  sources : List (Option String)
  sourceRoot : Option String
  contents : List (Option String)
  names : Nat
  mappings : String
  ranges : String

/-- The fields of a map, each of its type and none repeated. -/
def V3Fields.ofFields? (fields : List (String × Json)) : Option V3Fields := do
  let _ ← Json.optional? fields "version" Json.toWord?
  let file ← Json.optional? fields "file" some
  let sources ← Json.optional? fields "sources" (Json.toList? (Json.toOption? Json.toText?))
  let sourceRoot ← Json.optional? fields "sourceRoot" Json.toText?
  let contents ← Json.optional? fields "sourcesContent" (Json.toList? (Json.toOption? Json.toText?))
  let names ← Json.optional? fields "names" (Json.toList? some)
  let ranges ← Json.optional? fields "rangeMappings" Json.toText?
  let mappings ← Json.optional? fields "mappings" Json.toText?
  let _ ← Json.optional? fields "ignoreList" (Json.toList? Json.toWord?)
  let _ ← Json.optional? fields "x_facebook_offsets" (Json.toList? (Json.toOption? Json.toWord?))
  let _ ← Json.optional? fields "x_metro_module_paths" (Json.toList? Json.toText?)
  return ⟨file, sources.getD [], sourceRoot, contents.getD [], (names.getD []).length,
    mappings.getD "", ranges.getD ""⟩

/-- The file of a map: one that is not a text still counts as given. -/
def fileName : Json → String
  | .string s => s
  | _ => "<invalid>"

def isAbsolute (source : String) : Bool :=
  ["/", "http:", "https:"].any fun start => start.toList.isPrefixOf source.toList

/-- A source under a root. -/
def underRoot (root : Option String) (source : String) : String :=
  match root with
  | none => source
  | some root =>
    if root.isEmpty || isAbsolute source then source
    else
      let front := root.toList
      String.ofList ((if front.getLast? = some '/' then front.dropLast else front) ++ ['/']) ++ source

/-- Adds the sources by name; the list gives the index of each in the map. -/
def addSources (m : PositionMap) :
    List (String × Option String) → PositionMap × List Nat
  | [] => (m, [])
  | (name, content) :: rest =>
    let (m, index) := m.addSource name
    let m := match content with
      | some text => m.setContent index text
      | none => m
    let (m, indices) := addSources m rest
    (m, index :: indices)

/-- The map that a list of segments describes. -/
def ofSegments (file : Option String) (sources : List (String × Option String))
    (segments : List Segment) : PositionMap :=
  let (m, indices) := addSources (ofFile file) sources
  segments.foldl (fun m s =>
    m.addMapping s.generated
      ((s.source.bind fun id => indices[id.toNat]?).map (⟨·, s.position⟩))) m

def V3Fields.toMap (v : V3Fields) : Except V3Error PositionMap :=
  let sources := v.sources.map fun s => underRoot v.sourceRoot (s.getD "")
  let contents := v.contents.map some ++ List.replicate sources.length none
  (readLines sources.length v.names 0 .start (Text.splitOn ';' v.mappings.toList)
    (Text.splitOn ';' v.ranges.toList)).map fun segments =>
      ofSegments (v.file.map fileName) (sources.zip (contents.map Option.join)) segments

/-- One part of a map of maps: it has an offset, and may hold a map or say where one is. -/
def partFields? (part : Json) : Option (Option (List (String × Json))) :=
  match part with
  | .object fields => do
    let _ ← Json.required? fields "offset" fun
      | .object offset => do
        let _ ← Json.required? offset "line" Json.toWord?
        let _ ← Json.required? offset "column" Json.toWord?
        return ()
      | _ => none
    let _ ← Json.optional? fields "url" Json.toText?
    Json.optional? fields "map" fun
      | .object map => some map
      | _ => none
  | _ => none

/-- The first failure, but for one of form, which shows before all others. -/
def firstFailure (results : List (Except V3Error PositionMap)) : Option V3Error :=
  let failures := results.filterMap fun
    | .ok _ => none
    | .error e => some e
  if .badJson ∈ failures then some .badJson else failures.head?

/-- The map given by its fields. A map of maps, or one with scopes for functions, is refused once
it has been read. The first argument bounds how deep maps hold maps. -/
def ofFields : Nat → List (String × Json) → Except V3Error PositionMap
  | 0, _ => .error .badJson
  | depth + 1, fields =>
    match V3Fields.ofFields? fields,
        Json.optional? fields "sections" (Json.toList? partFields?),
        Json.optional? fields "x_facebook_sources" (Json.toList? some) with
    | some _, some (some parts), some _ =>
      .error ((firstFailure (parts.filterMap fun map => map.map (ofFields depth))).getD .notPlain)
    | some v, some none, some scopes =>
      match v.toMap with
      | .error e => .error e
      | .ok m => if scopes.isSome then .error .notPlain else .ok m
    | _, _, _ => .error .badJson

def isJunk (c : Char) : Bool := c == ')' || c == ']' || c == '\x7d' || c == '\''

/-- The text from its first line feed on; a carriage return has one right behind it. -/
def junkRest : List Char → Except V3Error (Option (List Char))
  | [] => .ok none
  | '\r' :: rest =>
    match rest with
    | [] => .ok none
    | '\n' :: _ => .ok (some rest)
    | _ => .error .badHeader
  | '\n' :: rest => .ok (some ('\n' :: rest))
  | _ :: rest => junkRest rest

/-- Drops a first line that is there to keep the text from being run. -/
def dropHeader (cs : List Char) : Except V3Error (List Char) :=
  match cs with
  | [] => .ok []
  | c :: _ => if isJunk c then (junkRest cs).map (·.getD cs) else .ok cs

def ofV3Text (text : String) : Except V3Error PositionMap :=
  match dropHeader text.toList with
  | .error e => .error e
  | .ok cs =>
    match Json.parse? cs with
    | some (.object fields) => ofFields 64 fields
    | _ => .error .badJson

/-- Reads a source map from bytes, which have to be UTF-8. -/
def ofV3Bytes (bytes : ByteArray) : Except V3Error PositionMap :=
  match String.fromUTF8? bytes with
  | some text => ofV3Text text
  | none => .error .badJson

/-- The segment of a mapping. A mapping to a source that is not there has none, and one without
an original stands for the start of the text. -/
def segment (m : PositionMap) (x : Mapping) : Segment :=
  match x.original with
  | some o =>
    ⟨x.generated, if o.source < m.sources.length then some o.source.toUInt32 else none, o.position⟩
  | none => ⟨x.generated, none, ⟨0, 0⟩⟩

def difference (a b : UInt32) : Int := a.toNat - b.toNat

/-- The text of a segment as differences to the cursor, and the cursor behind it. -/
def writeSegment (k : Cursor) (s : Segment) : List Char × Cursor :=
  let column := Vlq.encode (difference s.generated.col k.column)
  match s.source with
  | none => (column, { k with column := s.generated.col })
  | some id =>
    (column ++ Vlq.encode (difference id k.source) ++
      Vlq.encode (difference s.position.line k.line) ++
      Vlq.encode (difference s.position.col k.sourceColumn),
      { k with
        column := s.generated.col, source := id, line := s.position.line,
        sourceColumn := s.position.col })

/-- The segments behind `last` on a line, or at its start if there is none. Semicolons lead to a
new line; a segment that repeats the one in front of it is left out. -/
def writeSegments (line : UInt32) (k : Cursor) (last : Option Segment) :
    List Segment → List Char
  | [] => []
  | s :: rest =>
    if s.generated.line = line then
      if last = some s then writeSegments line k last rest
      else
        let (text, k) := writeSegment k s
        (if last.isSome then [','] else []) ++ text ++ writeSegments line k (some s) rest
    else
      let (text, k) := writeSegment { k with column := 0 } s
      List.replicate (s.generated.line - line).toNat ';' ++ text ++
        writeSegments s.generated.line k (some s) rest

/-- The fields of a map in their order: no file and no contents where there are none. -/
def toV3 (m : PositionMap) : Json :=
  .object <|
    [("version", .nat 3)] ++
    (match m.file with
      | some file => [("file", .string file)]
      | none => []) ++
    [("sources", .ofStrings (m.sources.map Source.name))] ++
    (if m.sources.any (·.content.isSome) then
      [("sourcesContent", .array (m.sources.map fun s => .ofOption .string s.content))]
    else []) ++
    [("names", .array []),
      ("mappings", .string (String.ofList
        (writeSegments 0 .start none (m.mappings.map m.segment))))]

def toV3Text (m : PositionMap) : String := m.toV3.render

end ComponentBuild.PositionMap
