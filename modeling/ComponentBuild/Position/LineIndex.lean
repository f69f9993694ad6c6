import ComponentBuild.Position.LineCol
import ComponentBuild.Text.Offset

namespace ComponentBuild

/-- The byte offsets at which lines start, in order, and the length of the text. -/
structure LineIndex where
  starts : List Nat
  size : Nat

namespace LineIndex

/-- The offsets just behind each newline of a text that starts at `at_`. -/
def startsAfter (at_ : Nat) : List Char → List Nat
  | [] => []
  | c :: cs =>
    let next := at_ + c.utf8Size
    if c = '\n' then next :: startsAfter next cs else startsAfter next cs

def ofChars (cs : List Char) : LineIndex := ⟨0 :: startsAfter 0 cs, Text.byteLength cs⟩

def ofText (text : String) : LineIndex := ofChars text.toList

def lineCount (index : LineIndex) : Nat := index.starts.length

/-- The line that holds an offset, and where the line starts. -/
def lineAt (index : LineIndex) (offset : Nat) : Nat × Nat :=
  let before := index.starts.takeWhile (· ≤ offset)
  (before.length - 1, before.getLast?.getD 0)

/-- The position of an offset, its column in bytes; nothing past the end. -/
def lineCol? (index : LineIndex) (offset : Nat) : Option LineCol :=
  if index.size < offset then none
  else
    let (line, start) := index.lineAt offset
    some ⟨line.toUInt32, (offset - start).toUInt32⟩

/-- The offset of a position whose column counts bytes, if the line exists. -/
def offset? (index : LineIndex) (p : LineCol) : Checked (Option Nat) :=
  index.starts[p.line.toNat]?.mapM fun start => fitting (start + p.col.toNat)

/-- The position of an offset, its column in UTF-16 units; nothing past the end or inside a
character. -/
def unitLineCol? (index : LineIndex) (cs : List Char) (offset : Nat) : Option LineCol :=
  if index.size < offset then none
  else
    let (line, start) := index.lineAt offset
    (Text.slice? cs start offset).map fun front =>
      ⟨line.toUInt32, (Text.unitLength front).toUInt32⟩

/-- The bytes in front of the first character that starts at or behind a unit column. -/
def bytesBefore (cs : List Char) (col units : Nat) : Nat :=
  match cs with
  | [] => 0
  | c :: rest =>
    if col ≤ units then 0
    else c.utf8Size + bytesBefore rest col (units + Text.units c)

/-- The offset of a position whose column counts UTF-16 units. A column past the line goes to
where the next line starts. -/
def unitOffset? (index : LineIndex) (cs : List Char) (p : LineCol) : Option Nat :=
  index.starts[p.line.toNat]?.bind fun start =>
    let stop := (index.starts[p.line.toNat + 1]?).getD index.size
    (Text.slice? cs start stop).map fun line => start + bytesBefore line p.col.toNat 0

def endPosition (index : LineIndex) : LineCol :=
  ⟨(index.starts.length - 1).toUInt32, (index.size - index.starts.getLast?.getD 0).toUInt32⟩

end LineIndex

end ComponentBuild
