import ComponentBuild.Path

namespace ComponentBuild

inductive FileError where
  | missing
  | exists
  | notFolder
  | isFolder
  | other (text : String)
  deriving DecidableEq, Repr, Inhabited

def FileError.message : FileError → String
  | .missing => "No such file or directory (os error 2)"
  | .exists => "File exists (os error 17)"
  | .notFolder => "Not a directory (os error 20)"
  | .isFolder => "Is a directory (os error 21)"
  | .other text => text

inductive FileStep where
  | read (p : Path)
  /-- Writes a file in a folder that is there. -/
  | write (p : Path) (content : String)
  | makeFolders (p : Path)
  | exists (p : Path)
  | isFile (p : Path)
  /-- The absolute path without dots, if there is such a file or folder. -/
  | resolve (p : Path)
  | filesBelow (p : Path)

def FileStep.Answer : FileStep → Type
  | read _ => Except FileError String
  | write _ _ => Except FileError Unit
  | makeFolders _ => Except FileError Unit
  | .exists _ => Bool
  | isFile _ => Bool
  | resolve _ => Option Path
  | filesBelow _ => List Path

inductive FileEntry where
  | file (content : String)
  | folder
  deriving DecidableEq, Repr, Inhabited

/-- Where a file or folder is: the names from the root on. -/
abbrev FileLocation := List String

/-- Files and folders by their locations. The root is a folder without an entry. -/
structure FileTree where
  entries : List (FileLocation × FileEntry)
  /-- Where relative paths start. -/
  here : FileLocation
  deriving DecidableEq, Repr, Inhabited

namespace FileTree

def empty : FileTree := ⟨[], []⟩

def find? (t : FileTree) : FileLocation → Option FileEntry
  | [] => some .folder
  | l => t.entries.lookup l

def put (t : FileTree) (l : FileLocation) (e : FileEntry) : FileTree :=
  { t with entries := (l, e) :: t.entries.filter (·.1 != l) }

def addFile (t : FileTree) (l : FileLocation) (content : String) : FileTree :=
  let folders := (List.range l.length).drop 1 |>.map (l.take ·)
  (folders.foldl (fun t f => if (t.find? f).isNone then t.put f .folder else t) t).put l
    (.file content)

/-- Goes from a location along the pieces of a path. All but the last have to be folders. -/
def walk (t : FileTree) (l : FileLocation) : List (List Char) → Except FileError FileLocation
  | [] => .ok l
  | piece :: pieces =>
    match t.find? l with
    | none => .error .missing
    | some (.file _) => .error .notFolder
    | some .folder =>
      if Path.isIdle piece then t.walk l pieces
      else if piece = ['.', '.'] then t.walk l.dropLast pieces
      else t.walk (l ++ [String.ofList piece]) pieces

/-- The place a path names, whether anything is there or not. -/
def locate (t : FileTree) (p : Path) : Except FileError FileLocation :=
  if p.text.isEmpty then .error .missing
  else t.walk (if p.isAbsolute then [] else t.here) p.pieces

def entry? (t : FileTree) (p : Path) : Option FileEntry :=
  match t.locate p with
  | .ok l => t.find? l
  | .error _ => none

def isFolder (t : FileTree) (p : Path) : Bool := t.entry? p == some .folder

def isFile (t : FileTree) (p : Path) : Bool :=
  match t.entry? p with
  | some (.file _) => true
  | _ => false

def read (t : FileTree) (p : Path) : Except FileError String := do
  match t.find? (← t.locate p) with
  | none => throw .missing
  | some .folder => throw .isFolder
  | some (.file content) => return content

def write (t : FileTree) (p : Path) (content : String) : Except FileError FileTree := do
  let l ← t.locate p
  if t.find? l = some .folder then throw .isFolder
  return t.put l (.file content)

def makeFolder (t : FileTree) (p : Path) : Except FileError FileTree := do
  let l ← t.locate p
  if (t.find? l).isSome then throw .exists
  return t.put l .folder

/-- Makes a folder, given by its components from the last one on, and those above it. What is there
already has to be a folder. -/
def makeFolders (t : FileTree) : List Path.Component → Except FileError FileTree
  | [] => .ok t
  | c :: cs =>
    let p := Path.ofComponents (c :: cs).reverse
    let settle (t : FileTree) (e : FileError) : Except FileError FileTree :=
      if t.isFolder p then .ok t else .error e
    match t.makeFolder p with
    | .ok t => .ok t
    | .error .missing =>
      match t.makeFolders cs with
      | .error e => .error e
      | .ok t =>
        match t.makeFolder p with
        | .ok t => .ok t
        | .error e => settle t e
    | .error e => settle t e

def pathOf (l : FileLocation) : Path := ⟨"/" ++ "/".intercalate l⟩

def resolve? (t : FileTree) (p : Path) : Option Path :=
  match t.locate p with
  | .ok l => if (t.find? l).isSome then some (pathOf l) else none
  | .error _ => none

def filesBelow (t : FileTree) (p : Path) : List Path :=
  match t.locate p with
  | .error _ => []
  | .ok folder =>
    t.entries.filterMap fun
      | (l, .file _) => if folder.isPrefixOf l then some (pathOf l) else none
      | _ => none

/-- A change of the tree that may fail and then leaves it as it is. -/
def attempt (change : FileTree → Except FileError FileTree) :
    StateM FileTree (Except FileError Unit) := fun t =>
  match change t with
  | .ok t => (.ok (), t)
  | .error e => (.error e, t)

def answer : (q : FileStep) → StateM FileTree q.Answer
  | .read p => fun t => (t.read p, t)
  | .write p content => attempt (·.write p content)
  | .makeFolders p => attempt (·.makeFolders p.components.reverse)
  | .exists p => fun t => ((t.entry? p).isSome, t)
  | .isFile p => fun t => (t.isFile p, t)
  | .resolve p => fun t => (t.resolve? p, t)
  | .filesBelow p => fun t => (t.filesBelow p, t)

end FileTree

end ComponentBuild
