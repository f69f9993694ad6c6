import ComponentBuild.Compile.Failure
import ComponentBuild.Path
import ComponentBuild.Position.LineIndex
import ComponentBuild.Report.Snippet
import ComponentBuild.Report.Wrap

namespace ComponentBuild.Report

/-- The styles of a coloured report. -/
inductive Style where
  | severity
  | link
  | lineNumber
  | label
  deriving DecidableEq, Repr

def Style.code : Style → String
  | severity => "31"
  | link => "36;1;4"
  | lineNumber => "2"
  | label => "35;1"

/-- A text in a style, if the report has colours. -/
def styled (color : Bool) (style : Style) (text : String) : String :=
  if color then "\x1b[" ++ style.code ++ "m" ++ text ++ "\x1b[0m" else text

def blanks (n : Nat) : String := String.ofList (List.replicate n ' ')

/-- The columns that a line of the message can take. -/
def messageWidth : Nat := 194

/-- The message with a cross in front of it and a bar in front of its other lines. -/
def messageText (color : Bool) (message : String) : String :=
  match wrap messageWidth message with
  | [] => ""
  | first :: rest =>
    "  " ++ styled color .severity "×" ++ " " ++ first ++ "\n" ++
      String.join (rest.map fun line => "  " ++ styled color .severity "│" ++ " " ++ line ++ "\n")

/-- A number in the margin, with blanks in front of it. -/
def paddedNumber (margin n : Nat) : String :=
  let text := toString n
  blanks (margin - text.length) ++ text

/-- A line and, below it, the mark of a place on it. -/
def lineReport (color : Bool) (margin place : Nat) (l : SnippetLine) : String :=
  let line := " " ++ styled color .lineNumber (paddedNumber margin l.number) ++ " │ " ++
    String.ofList l.shown ++ "\n"
  if l.shows place then
    let gap := " " ++ blanks margin ++ " · "
    let column := blanks (l.columnOf place)
    line ++ gap ++ styled color .label (column ++ "▲") ++ "\n" ++
      gap ++ column ++ styled color .label ("╰── " ++ styled color .label "here") ++ "\n"
  else line

def snippetText (color : Bool) (path : Path) (source : List Char) (place : Nat) : String :=
  let lines := linesAround source place
  let margin := (toString ((lines.getLast?.map SnippetLine.number).getD 0)).length
  let (line, column) := placeOf source place
  let name := path.text ++ ":" ++ toString (line + 1) ++ ":" ++ toString (column + 1)
  blanks (margin + 2) ++ "╭─[" ++ styled color .link name ++ "]\n" ++
    String.join (lines.map (lineReport color margin place)) ++
    blanks (margin + 2) ++ "╰────\n"

/-- The place in a document that an error names, if its line exists. -/
def errorPlace? (source : List Char) (e : DocumentError) : Option Nat :=
  (e.position?.bind fun p =>
    (LineIndex.ofChars source).unitOffset? source p.toLineCol).map
      (min · (Text.byteLength source))

def render (color : Bool) (path : Path) (source : String) (e : DocumentError) : String :=
  messageText color e.message ++
    match errorPlace? source.toList e with
    | some place => snippetText color path source.toList place
    | none => ""

/-- The report in one line for the place and one for the message. Columns count from one. -/
def renderPlain (path : Path) (e : DocumentError) : String :=
  let place := match e.position? with
    | some p => ":" ++ toString p.line ++ ":" ++ toString (p.column + 1)
    | none => ""
  path.text ++ place ++ "\nError: " ++ e.message ++ "\n"

structure Summary where
  files : Nat
  errors : Nat
  deriving DecidableEq, Repr, Inhabited

def counted (n : Nat) (one : String) : String :=
  toString n ++ " " ++ (if n = 1 then one else one ++ "s")

def Summary.text (s : Summary) : String :=
  "====================================\nmelte compiled " ++ counted s.files "file" ++ " with " ++
    counted s.errors "error"

end ComponentBuild.Report
