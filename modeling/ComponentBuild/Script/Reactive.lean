import ComponentBuild.Script.Parse
import ComponentBuild.Script.Scope
import ComponentBuild.Document.Section
import ComponentBuild.Splice

namespace ComponentBuild.Script

namespace Reactive

/-- The label of reactive statements. -/
def label : Name := ['$', 'm']

/-- The module that trackers come from, unless another one is named. -/
def defaultModule : String := "melte/tracker"

/-- What makes trackers, as the rewritten script calls it. -/
def creator : String := "_m_createReactiveWrapper"

/-- The tracker of the block with a number. -/
def tracker (id : Nat) : String := "_m_tracker" ++ toString id

/-- A reactive statement and its body, by their bytes. -/
structure Block where
  id : Nat
  statement : Span
  body : Span
  deriving DecidableEq, Repr

/-- How a script is rewritten. The script of a module is left alone. -/
structure Options where
  context : ScriptContext := .perInstance
  dialect : Dialect := .javascript
  trackerModule : String := defaultModule
  /-- The source that the map names. -/
  filename? : Option String := none

/-- A rewritten script. There is no map where nothing was changed. -/
structure Output where
  code : String
  map? : Option PositionMap
  blocks : List Block
  /-- Names that got a declaration. -/
  injected : List Name

namespace Output

def unchanged (source : String) : Output := ⟨source, none, [], []⟩

def isModified (o : Output) : Bool := !o.blocks.isEmpty

end Output

/-- The names that a body assigns, if it is one assignment. A property has no name that counts. -/
def assignedNames : Stmt → List Name
  | .expr e =>
    match e.withoutParens with
    | .assign _ _ target _ => target.names
    | _ => []
  | _ => []

/-- The reactive statements of a script: where they stand, and the names they assign. -/
def statements (items : List Stmt) : List (Span × Span × List Name) :=
  items.filterMap fun
    | .labeled statement body n inner =>
      if n = label then some (statement, body, assignedNames inner) else none
    | _ => none

def blocksFrom (id : Nat) : List (Span × Span × List Name) → List Block
  | [] => []
  | (statement, body, _) :: rest => ⟨id, statement, body⟩ :: blocksFrom (id + 1) rest

/-- Each name once, where it stands first. -/
def firsts (names : List Name) : List Name :=
  names.foldl (fun found n => if found.contains n then found else found ++ [n]) []

/-- The names that a script assigns in reactive statements and declares nowhere. Names of stores
are left out. -/
def injectedNames (items : List Stmt) : List Name :=
  firsts <| ((statements items).flatMap fun (_, _, names) => names).filter fun n =>
    n.head? != some '$' && isGlobal items n

/-- A text as a string of a script, in double quotes. -/
def quoted (text : String) : String :=
  "\"" ++ String.ofList (text.toList.flatMap fun c =>
    if c = '\\' || c = '\x22' then ['\\', c] else [c]) ++ "\""

def prologue (trackerModule : String) (blocks : List Block) (injected : List Name) : String :=
  "import \x7b createReactiveWrapper as " ++ creator ++ " \x7d from " ++ quoted trackerModule ++
    ";\n" ++
    String.join (blocks.map fun b => "const " ++ tracker b.id ++ " = " ++ creator ++ "();\n") ++
    String.join (injected.map fun n => "let " ++ String.ofList n ++ ";\n")

/-- What stands in place of a block and of the text in front of it, from `cursor` on. -/
def blockPieces (source : List Char) (cursor : Nat) (b : Block) : List Piece :=
  [.copied cursor (Text.between source cursor b.statement.start),
    .replaced ⟨b.statement.start, b.body.start⟩ ("$: " ++ tracker b.id ++ "(() => \x7b "),
    .copied b.body.start (Text.between source b.body.start b.body.stop),
    .generated " \x7d);"]

def bodyPieces (source : List Char) (cursor : Nat) : List Block → List Piece
  | [] => [.copied cursor (Text.between source cursor (Text.byteLength source))]
  | b :: blocks => blockPieces source cursor b ++ bodyPieces source b.statement.stop blocks

def pieces (options : Options) (source : List Char) (blocks : List Block) (injected : List Name) :
    List Piece :=
  .generated (prologue options.trackerModule blocks injected) :: bodyPieces source 0 blocks

end Reactive

def rewrite (options : Reactive.Options) (source : String) : Except ParseError Reactive.Output := do
  if options.context = .perModule then return .unchanged source
  let items ← parse options.dialect source
  let blocks := Reactive.blocksFrom 0 (Reactive.statements items)
  if blocks.isEmpty then return .unchanged source
  let injected := Reactive.injectedNames items
  let pieces := Reactive.pieces options source.toList blocks injected
  let code := Splice.code pieces
  let map := Splice.toPositionMap pieces code source (options.filename?.getD "script")
  return ⟨code, some (map.setContent 0 source), blocks, injected⟩

end ComponentBuild.Script
