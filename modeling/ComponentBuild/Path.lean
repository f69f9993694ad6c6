import ComponentBuild.Text.Offset

namespace ComponentBuild

/-- A path as it was written. Two texts can mean one path: see `sameAs`. -/
structure Path where
  text : String
  deriving DecidableEq, Repr, Inhabited

namespace Path

inductive Component where
  | root
  /-- A `.` in front of all else. -/
  | current
  | parent
  | name (n : String)
  deriving DecidableEq, Repr, Inhabited

namespace Component

def text : Component → String
  | root => "/"
  | current => "."
  | parent => ".."
  | name n => n

def rank : Component → Nat
  | root => 0
  | current => 1
  | parent => 2
  | name _ => 3

/-- The order of components; names are in the order of their characters. -/
def before : Component → Component → Bool
  | name m, name n => m < n
  | a, b => a.rank < b.rank

end Component

def isAbsolute (p : Path) : Bool := p.text.toList.head? == some '/'

def pieces (p : Path) : List (List Char) := Text.splitOn '/' p.text.toList

/-- Whether a piece behind the first one adds nothing to a path. -/
def isIdle (piece : List Char) : Bool := piece == [] || piece == ['.']

def Component.ofPiece (piece : List Char) : Component :=
  if piece = ['.'] then .current
  else if piece = ['.', '.'] then .parent
  else .name (String.ofList piece)

def components (p : Path) : List Component :=
  let rest (pieces : List (List Char)) := (pieces.filter (!isIdle ·)).map Component.ofPiece
  if p.isAbsolute then .root :: rest p.pieces
  else
    match p.pieces with
    | ['.'] :: pieces => .current :: rest pieces
    | pieces => rest pieces

def sameAs (p q : Path) : Bool := p.components == q.components

def componentsBefore : List Component → List Component → Bool
  | _, [] => false
  | [], _ :: _ => true
  | a :: as, b :: bs => a.before b || (a == b && componentsBefore as bs)

def before (p q : Path) : Bool := componentsBefore p.components q.components

/-- Puts paths in order; of those that mean the same, the first one stays in front. -/
def sort (paths : List Path) : List Path := paths.mergeSort fun p q => !q.before p

/-- The last component if it is a name. -/
def fileName? (p : Path) : Option String :=
  match p.components.getLast? with
  | some (.name n) => some n
  | _ => none

/-- A relative path seen from another one; an absolute path is what it is. -/
def join (base p : Path) : Path :=
  if p.isAbsolute || base.text.isEmpty then p
  else if base.text.toList.getLast? == some '/' then ⟨base.text ++ p.text⟩
  else ⟨base.text ++ "/" ++ p.text⟩

def ofComponents : List Component → Path
  | [] => ⟨""⟩
  | c :: cs => cs.foldl (fun p c => p.join ⟨c.text⟩) ⟨c.text⟩

/-- The path without its last component; the root and the empty path have no parent. -/
def parent? (p : Path) : Option Path :=
  match p.components.getLast? with
  | none | some .root => none
  | some _ => some (ofComponents p.components.dropLast)

/-- Drops the pieces of a number of components in front. -/
def dropPieces : Nat → List (List Char) → List (List Char)
  | _, [] => []
  | count, piece :: pieces =>
    if isIdle piece then dropPieces count pieces
    else
      match count with
      | 0 => piece :: pieces
      | n + 1 => dropPieces n pieces

/-- Drops the pieces at the end that add nothing. -/
def trimPieces (pieces : List (List Char)) : List (List Char) :=
  (pieces.reverse.dropWhile isIdle).reverse

def ofPieces (pieces : List (List Char)) : Path := ⟨String.ofList (['/'].intercalate pieces)⟩

/-- What is left of a path below an absolute one, as it was written. -/
def below? (p base : Path) : Option Path :=
  if base.components.isPrefixOf p.components then
    some (ofPieces (trimPieces (dropPieces (base.components.length - 1) p.pieces)))
  else none

/-- Goes on from resolved components, the last one first. Nothing lies above the root. -/
def resolveStep : List Component → Component → List Component
  | stack, .current => stack
  | .name _ :: stack, .parent => stack
  | .root :: stack, .parent => .root :: stack
  | stack, c => c :: stack

/-- A path without `.`, and without `..` behind a name. -/
def normalize (p : Path) : Path := ofComponents (p.components.foldl resolveStep []).reverse

end Path

end ComponentBuild
