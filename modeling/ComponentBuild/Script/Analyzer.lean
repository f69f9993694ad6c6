import ComponentBuild.Script.Scope

namespace ComponentBuild.Script

/-- A scope that the walk has entered. The one around it is told by its number. -/
structure Scope where
  parent? : Option Nat
  ofFunction : Bool
  declarations : List Name

structure Analyzer where
  scopes : List Scope
  current : Nat
  references : List (Name × Nat)

namespace Scope

/-- The names that are declared in a scope so far. -/
def namesOf (scopes : List Scope) (id : Nat) : List Name :=
  (scopes[id]?.map declarations).getD []

/-- The scope around a scope, which was entered before it. -/
def above? (scopes : List Scope) (id : Nat) : Option { parent : Nat // parent < id } :=
  (scopes[id]?.bind parent?).bind fun parent =>
    if h : parent < id then some ⟨parent, h⟩ else none

/-- The nearest scope of a function, from a scope outwards. -/
def home (scopes : List Scope) (id : Nat) : Nat :=
  if (scopes[id]?.map ofFunction).getD true then id
  else match above? scopes id with
    | some parent => home scopes parent.1
    | none => id
termination_by id
decreasing_by exact parent.2

/-- Whether a name is declared in a scope or in one around it. -/
def resolves (scopes : List Scope) (n : Name) (id : Nat) : Bool :=
  (namesOf scopes id).contains n ||
    match above? scopes id with
    | some parent => resolves scopes n parent.1
    | none => false
termination_by id
decreasing_by exact parent.2

/-- The names of those references that are declared in no scope around them. -/
def unresolved (scopes : List Scope) (references : List (Name × Nat)) : List Name :=
  (references.filter fun r => !resolves scopes r.1 r.2).map Prod.fst

def addName (scopes : List Scope) (id : Nat) (n : Name) : List Scope :=
  scopes.modify id fun scope => { scope with declarations := n :: scope.declarations }

end Scope

namespace Analyzer

/-- Before the walk there is the scope of the module. -/
def start : Analyzer := ⟨[⟨none, true, []⟩], 0, []⟩

def enter (ofFunction : Bool) (a : Analyzer) : Analyzer :=
  { a with
    scopes := a.scopes ++ [⟨some a.current, ofFunction, []⟩]
    current := a.scopes.length }

def exit (a : Analyzer) : Analyzer :=
  match a.scopes[a.current]?.bind Scope.parent? with
  | some parent => { a with current := parent }
  | none => a

def declare (n : Name) (a : Analyzer) : Analyzer :=
  { a with scopes := Scope.addName a.scopes a.current n }

/-- Declares a name for the function around it. -/
def hoist (n : Name) (a : Analyzer) : Analyzer :=
  { a with scopes := Scope.addName a.scopes (Scope.home a.scopes a.current) n }

def reference (n : Name) (a : Analyzer) : Analyzer :=
  { a with references := a.references ++ [(n, a.current)] }

mutual

def visit : Part → Analyzer → Analyzer
  | .reference n, a => a.reference n
  | .declare n, a => a.declare n
  | .hoist n, a => a.hoist n
  | .scope ofFunction parts, a => (visitAll parts (a.enter ofFunction)).exit

def visitAll : List Part → Analyzer → Analyzer
  | [], a => a
  | part :: parts, a => visitAll parts (visit part a)

end

/-- The analyzer behind the items of a module. -/
def walk (items : List Stmt) : Analyzer :=
  items.foldl (fun a s => visitAll s.parts a) start

/-- The names that no scope around their references declares. -/
def globals (a : Analyzer) : List Name := Scope.unresolved a.scopes a.references

end Analyzer

/-- The names a module refers to and does not declare, by one walk. -/
def analyze (items : List Stmt) : List Name := (Analyzer.walk items).globals

end ComponentBuild.Script
