namespace ComponentBuild

inductive Glob.Token where
  | literal (c : Char)
  /-- One byte. -/
  | any
  | star
  /-- Folders in front of all else, or none. -/
  | leadingFolders
  /-- All that is below a folder. -/
  | trailingFolders
  /-- Folders between two slashes, or none. -/
  | innerFolders
  | class (negated : Bool) (ranges : List (Char × Char))
  | alternates (branches : List (List Glob.Token))
  deriving Repr, Inhabited

abbrev Glob := List Glob.Token

namespace Glob

/-- Why a text is no pattern. -/
inductive Fault where
  | unclosedClass
  | badRange (first last : Char)
  | unopenedAlternates
  | unclosedAlternates
  | danglingEscape
  deriving DecidableEq, Repr, Inhabited

def Fault.message : Fault → String
  | unclosedClass => "unclosed character class; missing ']'"
  | badRange a b =>
    "invalid range; '" ++ String.singleton a ++ "' > '" ++ String.singleton b ++ "'"
  | unopenedAlternates =>
    "unopened alternate group; missing '\x7b' (maybe escape '\x7d' with '[\x7d]'?)"
  | unclosedAlternates =>
    "unclosed alternate group; missing '\x7d' (maybe escape '\x7b' with '[\x7b]'?)"
  | danglingEscape => "dangling '\\'"

/-- The ranges of a class in the order they were read, and whether the last one waits for its
end. -/
structure ClassSoFar where
  ranges : List (Char × Char)
  open_ : Bool

/-- The class behind its opening bracket and its mark of negation, and the text behind it. -/
def readClass (first : Bool) (found : ClassSoFar) : List Char →
    Except Fault (List (Char × Char) × List Char)
  | [] => .error .unclosedClass
  | c :: cs =>
    if c = ']' ∧ ¬ first then
      .ok (if found.open_ then found.ranges ++ [('-', '-')] else found.ranges, cs)
    else if c = '-' ∧ ¬ first ∧ ¬ found.open_ then
      readClass false { found with open_ := true } cs
    else if found.open_ ∧ c ≠ ']' then
      match found.ranges.getLast? with
      | none => readClass false ⟨[(c, c)], false⟩ cs
      | some (a, _) =>
        if c < a then .error (.badRange a c)
        else readClass false ⟨found.ranges.dropLast ++ [(a, c)], false⟩ cs
    else readClass false ⟨found.ranges ++ [(c, c)], false⟩ cs

/-- What is read so far. The last branch is first, its last token first; `groups` tells for each
open group how many branches there were in front of it. -/
structure Reading where
  branches : List (List Token)
  groups : List Nat
  previous : Option Char
  deriving Inhabited

namespace Reading

def start : Reading := ⟨[[]], [], none⟩

def push (r : Reading) (token : Token) : Reading :=
  match r.branches with
  | [] => r
  | branch :: rest => { r with branches := (token :: branch) :: rest }

def hasTokens (r : Reading) : Bool := (r.branches.headD []).length > 0

/-- Puts two stars behind a slash into the place of that slash. -/
def pushFolders (r : Reading) (trailing : Bool) : Reading :=
  match r.branches with
  | (.leadingFolders :: _) :: _ => r
  | (.trailingFolders :: _) :: _ => r
  | (_ :: branch) :: rest =>
    { r with branches := ((if trailing then .trailingFolders else .innerFolders) :: branch) :: rest }
  | _ => r

/-- Ends the last group; its branches become one token. -/
def closeGroup (r : Reading) : Except Fault Reading :=
  match r.groups with
  | [] => .error .unopenedAlternates
  | count :: groups =>
    let inner := r.branches.take (r.branches.length - count)
    let outer := r.branches.drop (r.branches.length - count)
    .ok (push { r with branches := outer, groups }
      (.alternates (inner.reverse.map List.reverse)))

/-- Whether two stars at this place can stand for folders. Behind an escaped brace or comma in a
group they can as well. -/
def atFolder (r : Reading) : Bool :=
  r.previous == some '/' ||
    (r.branches.length > 1 && (r.previous == some ',' || r.previous == some '\x7b'))

/-- Reads two stars with what is behind them. The flag tells whether a slash behind is taken. -/
def doubleStar (r : Reading) (next : Option Char) : Reading × Bool :=
  let plain := (r.push .star).push .star
  if !r.hasTokens then
    match next with
    | none => (r.push .leadingFolders, false)
    | some '/' => (r.push .leadingFolders, true)
    | some _ => (plain, false)
  else if !r.atFolder then (plain, false)
  else
    match next with
    | none => (r.pushFolders true, false)
    | some '/' => (r.pushFolders false, true)
    | some c =>
      if (c == ',' || c == '\x7d') && r.branches.length ≥ 2 then (r.pushFolders true, false)
      else (plain, false)

end Reading

/-- Reads a pattern to its end; the fuel is more than its characters. -/
def readTokens : Nat → Reading → List Char → Except Fault Reading
  | 0, r, _ => .ok r
  | _, r, [] => .ok r
  | fuel + 1, r, c :: cs =>
    let next (r : Reading) (previous : Char) (cs : List Char) :=
      readTokens fuel { r with previous := some previous } cs
    match c with
    | '?' => next (r.push .any) c cs
    | '*' =>
      match cs with
      | '*' :: cs =>
        match r.doubleStar cs.head? with
        | (r, true) => next r '/' (cs.drop 1)
        | (r, false) => next r '*' cs
      | cs => next (r.push .star) c cs
    | '[' =>
      let (negated, body) := match cs with
        | '!' :: body => (true, body)
        | '^' :: body => (true, body)
        | body => (false, body)
      match readClass true ⟨[], false⟩ body with
      | .error e => .error e
      | .ok (ranges, cs) => next (r.push (.class negated ranges)) ']' cs
    | '\x7b' =>
      next { r with branches := [] :: r.branches, groups := r.branches.length :: r.groups } c cs
    | '\x7d' =>
      match r.closeGroup with
      | .error e => .error e
      | .ok r => next r c cs
    | '\\' =>
      match cs with
      | [] => .error .danglingEscape
      | d :: cs => next (r.push (.literal d)) d cs
    | ',' =>
      if r.groups.isEmpty then next (r.push (.literal c)) c cs
      else next { r with branches := [] :: r.branches } c cs
    | c => next (r.push (.literal c)) c cs

def parse (text : String) : Except Fault Glob :=
  match readTokens (text.length + 1) .start text.toList with
  | .error e => .error e
  | .ok r =>
    match r.branches with
    | [tokens] => .ok tokens.reverse
    | _ => .error .unclosedAlternates

def bytes (c : Char) : List UInt8 := (String.singleton c).toUTF8.toList

/-- The bytes that a range in a class takes: of a range of two characters, all but the last byte of
the first, all but the first byte of the last, and the bytes from the one to the other. -/
def rangeHas (b : UInt8) (range : Char × Char) : Bool :=
  let first := bytes range.1
  let last := bytes range.2
  if range.1 = range.2 then first.contains b
  else first.dropLast.contains b || last.tail.contains b ||
    (first.getLast?.getD 0 ≤ b && b ≤ last.headD 0)

/-- The rests of a text, from the whole text to the empty one. -/
def rests : List UInt8 → List (List UInt8)
  | [] => [[]]
  | b :: bs => (b :: bs) :: rests bs

def behindSlashes : List UInt8 → List (List UInt8)
  | [] => []
  | b :: bs => if b = 47 then bs :: behindSlashes bs else behindSlashes bs

/-- Of rests of one text, each one once. -/
def distinct (found : List (List UInt8)) : List (List UInt8) :=
  found.foldr (fun r rs => if rs.any (·.length == r.length) then rs else r :: rs) []

mutual

/-- What can be left of a text behind a token at its start. -/
def Token.after : Token → List UInt8 → List (List UInt8)
  | .literal c, bs => if (bytes c).isPrefixOf bs then [bs.drop (bytes c).length] else []
  | .any, bs => bs.tail?.toList
  | .star, bs => rests bs
  | .leadingFolders, bs => bs :: behindSlashes bs
  | .trailingFolders, bs => if bs.head? = some 47 then rests bs.tail else []
  | .innerFolders, bs =>
    if bs.head? = some 47 then bs.tail :: behindSlashes bs.tail else []
  | .class negated ranges, bs =>
    match bs with
    | [] => []
    | b :: bs => if ranges.any (rangeHas b) != negated then [bs] else []
  | .alternates branches, bs =>
    if hasBranch branches then distinct (afterAny branches bs) else [bs]

/-- What can be left behind tokens one after the other. -/
def afterAll : List Token → List UInt8 → List (List UInt8)
  | [], bs => [bs]
  | t :: ts, bs => distinct ((t.after bs).flatMap (afterAll ts))

/-- What can be left behind one of the branches that are not empty. -/
def afterAny : List (List Token) → List UInt8 → List (List UInt8)
  | [], _ => []
  | branch :: rest, bs =>
    (if branchIsEmpty branch then [] else afterAll branch bs) ++ afterAny rest bs

def hasBranch : List (List Token) → Bool
  | [] => false
  | branch :: rest => !branchIsEmpty branch || hasBranch rest

/-- Whether tokens stand for no pattern at all. -/
def branchIsEmpty : List Token → Bool
  | [] => true
  | .alternates branches :: rest => !hasBranch branches && branchIsEmpty rest
  | _ :: _ => false

end

/-- Whether a pattern takes a whole path. Two stars alone take every path. -/
def isMatch (g : Glob) (path : String) : Bool :=
  match g with
  | [.leadingFolders] => true
  | g => (afterAll g path.toUTF8.toList).any List.isEmpty

end Glob

end ComponentBuild
