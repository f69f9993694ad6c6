import ComponentBuild.Script.Parser.State

namespace ComponentBuild.Script

structure Grammar where
  expression : P Expr
  assignment : P Expr
  unary : P Expr
  leftHand : P Expr
  /-- Members and instantiations, without calls. -/
  member : P Expr
  /-- Goes on behind an expression; without calls or without keys in brackets, if told so. -/
  subscripts : Expr → (noCall noIndex : Bool) → P Expr
  binding : (noLet : Bool) → P Pattern
  type : P Unit
  /-- A type without a condition. -/
  plainType : P Unit
  /-- A type without `&` and `|`. -/
  typeOperator : P Unit
  /-- A statement; a declaration too or an item of a module, if told so. -/
  statement : (declarations item : Bool) → P Stmt
  block : P (List Stmt)
  ifStatement : P Stmt

namespace Grammar

/-- No parser at all. -/
def empty : Grammar where
  expression := failHere .nestedTooDeep
  assignment := failHere .nestedTooDeep
  unary := failHere .nestedTooDeep
  leftHand := failHere .nestedTooDeep
  member := failHere .nestedTooDeep
  subscripts := fun _ _ _ => failHere .nestedTooDeep
  binding := fun _ => failHere .nestedTooDeep
  type := failHere .nestedTooDeep
  plainType := failHere .nestedTooDeep
  typeOperator := failHere .nestedTooDeep
  statement := fun _ _ => failHere .nestedTooDeep
  block := failHere .nestedTooDeep
  ifStatement := failHere .nestedTooDeep

def fullAssignment (g : Grammar) : P Expr :=
  within (fun c => { c with inOperator := true }) g.assignment

def fullExpression (g : Grammar) : P Expr :=
  within (fun c => { c with inOperator := true }) g.expression

def typeAnnotation (g : Grammar) : P Bool := do
  if ← eatTypeMark .colon then
    g.type
    return true
  return false

end Grammar

end ComponentBuild.Script
