import ComponentBuild.Text.Offset
import ComponentBuild.Text.Width

namespace ComponentBuild.Report

/-- What was seen of a text while the lines around a place are looked for. -/
structure Survey where
  offset : Nat := 0
  /-- The number of the line that the found text starts with, and the column of the place. -/
  line : Nat := 0
  column : Nat := 0
  /-- Where the lines in front start that are kept. -/
  before : List Nat := []
  lineStart : Nat := 0
  after : Nat := 0
  /-- Whether the place was reached, and whether its line ended since. -/
  reached : Bool := false
  lineEnded : Bool := false
  deriving Repr

namespace Survey

/-- Notes the end of a line, of which `last` is the last byte. The flag tells to stop. -/
def endLine (s : Survey) (place context last : Nat) : Survey × Bool :=
  let next : Survey := { s with lineStart := last + 1 }
  if last < place then
    let before := s.before ++ [s.lineStart]
    if before.length > context then
      ({ next with column := 0, before := before.drop 1, line := s.line + 1 }, false)
    else ({ next with column := 0, before }, false)
  else if s.reached then
    let after := if s.lineEnded then s.after + 1 else s.after
    ({ next with column := 0, after, lineEnded := true }, after ≥ context)
  else (next, false)

/-- Goes on behind the byte `last`; the flag tells to stop. -/
def moveTo (s : Survey) (place context last : Nat) : Survey × Bool :=
  let s := { s with offset := last + 1 }
  if last + 1 ≥ place then ({ s with reached := true }, s.after ≥ context) else (s, false)

/-- Goes through a text until enough lines behind the place were seen. -/
def run (place context : Nat) (s : Survey) : List Char → Survey
  | [] => s
  | '\r' :: '\n' :: cs => step s (s.offset + 1) cs
  | '\r' :: cs => step s s.offset cs
  | '\n' :: cs => step s s.offset cs
  | c :: cs =>
    let s := if s.offset < place then { s with column := s.column + c.utf8Size } else s
    match s.moveTo place context (s.offset + c.utf8Size - 1) with
    | (s, true) => s
    | (s, false) => run place context s cs
where
  step (s : Survey) (last : Nat) (cs : List Char) : Survey :=
    match s.endLine place context last with
    | (s, true) => { s with offset := last + 1 }
    | (s, false) =>
      match s.moveTo place context last with
      | (s, true) => s
      | (s, false) => run place context s cs

/-- Where the found text starts. -/
def start (s : Survey) : Nat := s.before.headD 0

end Survey

/-- The line and the column in bytes of a place, both from zero. -/
def placeOf (source : List Char) (place : Nat) : Nat × Nat :=
  let s := Survey.run place 0 {} source
  (s.line, s.column)

/-- A line of the text around a place. Its length counts the end of the line. -/
structure SnippetLine where
  number : Nat
  offset : Nat
  length : Nat
  text : List Char
  deriving DecidableEq, Repr

namespace SnippetLine

/-- Divides a text into lines. `number` counts the lines that ended; `text` is the line so far, its
last character first, and starts at `start`. -/
def divide (number start offset : Nat) (text : List Char) : List Char → List SnippetLine
  | [] => []
  | '\r' :: '\n' :: cs =>
    let stop := offset + 2
    ⟨number + 1, start, stop - start, text.reverse⟩ :: divide (number + 1) stop stop [] cs
  | '\n' :: cs =>
    let stop := offset + 1
    ⟨number + 1, start, stop - start, text.reverse⟩ :: divide (number + 1) stop stop [] cs
  | [c] =>
    [⟨if c = '\r' then number else number + 1, start, offset + c.utf8Size - start,
      (c :: text).reverse⟩]
  | c :: cs => divide number start (offset + c.utf8Size) (c :: text) cs

/-- Whether a place is shown on a line: it is not if it is just behind the last line. -/
def shows (l : SnippetLine) (place : Nat) : Bool :=
  l.offset ≤ place && place < l.offset + l.length

/-- The columns of each character. Tabs go to the next stop; sequences that set colours take no
columns. -/
def columnsFrom (column : Nat) (escaped : Bool) : List Char → List Nat
  | [] => []
  | c :: cs =>
    if escaped then 0 :: columnsFrom column (c != 'm') cs
    else if c = '\x1b' then 0 :: columnsFrom column true cs
    else
      let w := if c = '\t' then 4 - column % 4 else Text.columns c
      w :: columnsFrom (column + w) false cs

/-- The text with blanks in the place of tabs. -/
def shown (l : SnippetLine) : List Char :=
  (l.text.zip (columnsFrom 0 false l.text)).flatMap fun (c, w) =>
    if c = '\t' then List.replicate w ' ' else [c]

/-- The column of a place on the line; behind its text all places are in one column. -/
def columnOf (l : SnippetLine) (place : Nat) : Nat :=
  let inside := place - l.offset
  let front := (Text.splitAt? l.text inside).map Prod.fst
  match front with
  | some front => (columnsFrom 0 false front).foldr (· + ·) 0
  | none => (columnsFrom 0 false l.text).foldr (· + ·) 0 + 1

end SnippetLine

/-- The lines around a place: one in front of its line and one behind, if there are any. -/
def linesAround (source : List Char) (place : Nat) : List SnippetLine :=
  let s := Survey.run place 1 {} source
  SnippetLine.divide s.line s.start s.start []
    ((Text.slice? source s.start s.offset).getD [])

end ComponentBuild.Report
