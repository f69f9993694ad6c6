import ComponentBuild.Text.Offset
import ComponentBuild.Text.Width

namespace ComponentBuild.Report

/-- A word and the blanks behind it. -/
structure Word where
  text : List Char
  blanks : Nat
  deriving DecidableEq, Repr

def width (cs : List Char) : Nat := cs.foldr (Text.columns · + ·) 0

namespace Word

def isLetter (c : Char) : Bool := c.isAlphanum || 128 ≤ c.toNat

/-- Divides a line behind its blanks, and behind hyphens that stand between letters. `word` is the
word so far, its last character first. -/
def divide (word : List Char) (blanks : Nat) : List Char → List Word
  | [] => if word.isEmpty ∧ blanks = 0 then [] else [⟨word.reverse, blanks⟩]
  | c :: cs =>
    if c = ' ' then divide word (blanks + 1) cs
    else
      let hyphenated := match word with
        | '-' :: d :: _ => blanks == 0 && isLetter d && isLetter c
        | _ => false
      if blanks > 0 || hyphenated then ⟨word.reverse, blanks⟩ :: divide [c] 0 cs
      else divide (c :: word) 0 cs

/-- Cuts a text into parts that are not wider than a line. -/
def cut (limit : Nat) (part : List Char) (used : Nat) : List Char → List (List Char)
  | [] => [part.reverse]
  | c :: cs =>
    let w := Text.columns c
    if used > 0 ∧ used + w > limit then part.reverse :: cut limit [c] w cs
    else cut limit (c :: part) (used + w) cs

/-- The word in parts that fit on a line. -/
def fit (limit : Nat) (w : Word) : List Word :=
  if width w.text ≤ limit then [w]
  else
    let parts := cut limit [] 0 w.text
    parts.dropLast.map (⟨·, 0⟩) ++ (parts.getLast?.map (⟨·, w.blanks⟩)).toList

end Word

/-- Puts words on lines, each as far to the front as it fits. `line` holds the words of the current
line, the last one first. -/
def fill (limit : Nat) (line : List Word) (used : Nat) : List Word → List (List Word)
  | [] => [line.reverse]
  | w :: ws =>
    let taken := width w.text
    if ¬ line.isEmpty ∧ used + taken > limit then
      line.reverse :: fill limit [w] (taken + w.blanks) ws
    else fill limit (w :: line) (used + taken + w.blanks) ws

/-- The text of a line without the blanks at its end. -/
def lineText : List Word → List Char
  | [] => []
  | [w] => w.text
  | w :: ws => w.text ++ List.replicate w.blanks ' ' ++ lineText ws

/-- The lines that one line of text takes up. -/
def wrapLine (limit : Nat) (cs : List Char) : List (List Char) :=
  let words := (Word.divide [] 0 cs).flatMap (Word.fit limit)
  (fill limit [⟨[], 0⟩] 0 words).map lineText

/-- The lines that a text takes up. -/
def wrap (limit : Nat) (text : String) : List String :=
  ((Text.splitOn '\n' text.toList).flatMap (wrapLine limit)).map String.ofList

end ComponentBuild.Report
