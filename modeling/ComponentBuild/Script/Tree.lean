import ComponentBuild.Text.Span

namespace ComponentBuild.Script

/-- The characters of an identifier. -/
abbrev Name := List Char

inductive VariableKind where
  | var
  | lexical
  | constant
  deriving DecidableEq, Repr

/-- Ways to write a type beside an expression. -/
inductive Cast where
  | asType
  | satisfies
  | assertion
  | asConst
  | nonNull
  | instantiation
  deriving DecidableEq, Repr

/-- Operators of two operands, told apart only as far as they may not be mixed. -/
inductive Operator where
  | both
  | either
  | nullish
  | other
  deriving DecidableEq, Repr

mutual

inductive Expr where
  | name (start : Nat) (n : Name)
  | literal (start : Nat) (text : List Char)
  | this (start : Nat)
  | super (start : Nat)
  /-- The word before a dynamic import. -/
  | importer (start : Nat)
  /-- `new.target` or `import.meta`. -/
  | metaProperty (start : Nat)
  | privateName (start : Nat)
  | array (start : Nat) (items : List Item) (trailingComma? : Option Nat)
  | object (start : Nat) (properties : List Property) (trailingComma? : Option Nat)
  | function (start : Nat) (name? : Option Name) (function : Function)
  | classDef (start : Nat) (name? : Option Name) (definition : Class)
  | arrow (start : Nat) (function : Function)
  | template (start : Nat) (holes : List Expr)
  | tagged (start : Nat) (tag : Expr) (holes : List Expr)
  | unary (start : Nat) (operand : Expr)
  | update (start : Nat) (operand : Expr)
  | binary (start : Nat) (operator : Operator) (left right : Expr)
  /-- An assignment; `plain` if nothing is computed with the old value. -/
  | assign (start : Nat) (plain : Bool) (target : Pattern) (value : Expr)
  | conditional (start : Nat) (test yes no : Expr)
  /-- A property by its name; `chained` if it is in an optional chain. -/
  | member (start : Nat) (chained : Bool) (object : Expr)
  | index (start : Nat) (chained : Bool) (object key : Expr)
  | call (start : Nat) (chained : Bool) (callee : Expr) (arguments : List Item)
  /-- An instantiation; `bare` without parentheses for arguments. -/
  | construct (start : Nat) (bare : Bool) (callee : Expr) (arguments : List Item)
  | sequence (start : Nat) (parts : List Expr)
  | yield (start : Nat) (value? : Option Expr)
  | await (start : Nat) (operand : Expr)
  | paren (start : Nat) (inner : Expr)
  | cast (start : Nat) (kind : Cast) (inner : Expr)
  | invalid (start : Nat)

/-- An element of an array or an argument of a call. -/
inductive Item where
  | hole
  | plain (value : Expr)
  | spread (start : Nat) (value : Expr)

inductive Key where
  | name (start : Nat) (n : Name)
  | string (start : Nat) (text : List Char)
  | number (start : Nat)
  | privateName (start : Nat) (n : Name)
  | computed (start : Nat) (value : Expr)

inductive Property where
  | shorthand (start : Nat) (n : Name)
  | keyValue (key : Key) (value : Expr)
  /-- `n = value`, which only means something where the object is a pattern. -/
  | withDefault (start : Nat) (n : Name) (value : Expr)
  | method (start : Nat) (key : Key) (function : Function)
  | spread (start : Nat) (value : Expr)

/-- What binds names, or is assigned to. -/
inductive Pattern where
  | name (start : Nat) (n : Name)
  /-- Nothing, in the place of a pattern that is left out. -/
  | hole
  | array (start : Nat) (elements : List Pattern)
  | object (start : Nat) (properties : List PatternProperty)
  | withDefault (start : Nat) (left : Pattern) (value : Expr)
  | rest (start : Nat) (inner : Pattern)
  /-- An expression that can be assigned to. -/
  | target (e : Expr)
  | invalid (start : Nat)

inductive PatternProperty where
  | keyValue (key : Key) (value : Pattern)
  | shorthand (start : Nat) (n : Name) (value? : Option Expr)
  | rest (start : Nat) (inner : Pattern)

inductive Function where
  | mk (parameters : List Pattern) (body : Body)

inductive Body where
  | block (statements : List Stmt)
  | expr (e : Expr)
  /-- Of a declaration without code. -/
  | absent

inductive Class where
  | mk (superClass? : Option Expr) (implemented : List Expr) (members : List Member)

inductive Member where
  | constructor (function : Function)
  | method (key : Key) (function : Function)
  | field (key : Key) (value? : Option Expr)
  | staticBlock (statements : List Stmt)
  /-- A member that only has a type. -/
  | signature

inductive Declarator where
  | mk (target : Pattern) (value? : Option Expr)

inductive Case where
  | mk (test? : Option Expr) (statements : List Stmt)

/-- What is done with an exception. The parameter is a hole where none is written. -/
inductive Handler where
  | mk (parameter : Pattern) (statements : List Stmt)

/-- What a loop over values assigns each of them to. -/
inductive LoopHead where
  | declaration (kind : VariableKind) (declarators : List Declarator)
  | resources (declarators : List Declarator)
  | target (pattern : Pattern)

/-- Statements, and the items of a module that are none. -/
inductive Stmt where
  | empty
  | block (statements : List Stmt)
  | expr (e : Expr)
  | branch (test : Expr) (yes no : Stmt)
  | result (value? : Option Expr)
  | throw (value : Expr)
  | labeled (statement body : Span) (label : Name) (inner : Stmt)
  /-- A jump to the start or behind the end of a statement. -/
  | jump
  | withObject (object : Expr) (body : Stmt)
  | switch (value : Expr) (cases : List Case)
  | attempt (body : List Stmt) (handler? : Option Handler) (last : List Stmt)
  | loop (test : Expr) (body : Stmt)
  | countLoop (start : Stmt) (test? update? : Option Expr) (body : Stmt)
  | valueLoop (head : LoopHead) (values : Expr) (body : Stmt)
  | variables (kind : VariableKind) (declarators : List Declarator)
  /-- Variables that are disposed of at the end of their block. -/
  | resources (declarators : List Declarator)
  | function (name : Name) (function : Function)
  | classDef (name : Name) (definition : Class)
  | enumeration (name : Name) (values : List Expr)
  | container (name? : Option Name) (statements : List Stmt)
  /-- A declaration of types alone. -/
  | types
  | importNames (locals : List Name)
  | importAlias (name : Name)
  /-- Names of this module given out, for values or for types alone. -/
  | exportNames (values types : List Name)
  | exportDeclaration (declaration : Stmt)
  /-- The default export. A function or a class that is not in parentheses is a declaration. -/
  | exportDefault (value : Expr)

end

namespace Expr

/-- Where the expression starts. -/
def start : Expr → Nat
  | name s _ | literal s _ | this s | super s | importer s | metaProperty s | privateName s
  | array s _ _ | object s _ _ | function s _ _ | classDef s _ _ | arrow s _ | template s _
  | tagged s _ _ | unary s _ | update s _ | binary s _ _ _ | assign s _ _ _
  | conditional s _ _ _ | member s _ _ | index s _ _ _ | call s _ _ _ | construct s _ _ _
  | sequence s _ | yield s _ | await s _ | paren s _ | cast s _ _ | invalid s => s

def isArrow : Expr → Bool
  | arrow _ _ => true
  | _ => false

def isName : Expr → Bool
  | name _ _ => true
  | _ => false

/-- The expression in all its parentheses. -/
def withoutParens : Expr → Expr
  | paren _ e => e.withoutParens
  | e => e

def withoutNonNull : Expr → Expr
  | cast _ .nonNull e => e.withoutNonNull
  | e => e

/-- Whether a further step of the expression stays in an optional chain. -/
def isChain : Expr → Bool
  | member _ chained _ | index _ chained _ _ | call _ chained _ _ => chained
  | _ => false

end Expr

namespace Item

/-- The offset of an element that is there. -/
def start : Item → Nat
  | hole => 0
  | plain e => e.start
  | spread s _ => s

end Item

namespace Key

def start : Key → Nat
  | name s _ | string s _ | number s | privateName s _ | computed s _ => s

def isPrivate : Key → Bool
  | privateName _ _ => true
  | _ => false

/-- The key as an identifier. -/
def name? : Key → Option Name
  | name _ n => some n
  | _ => none

end Key

namespace Property

def start : Property → Nat
  | shorthand s _ | withDefault s _ _ | method s _ _ | spread s _ => s
  | keyValue key _ => key.start

end Property

namespace Pattern

def start : Pattern → Nat
  | name s _ | array s _ | object s _ | withDefault s _ _ | rest s _ | invalid s => s
  | target e => e.start
  | hole => 0

def isName : Pattern → Bool
  | name _ _ => true
  | _ => false

def isRest : Pattern → Bool
  | rest _ _ => true
  | _ => false

end Pattern

end ComponentBuild.Script
