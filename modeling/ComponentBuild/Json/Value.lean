namespace ComponentBuild

/-- A number written with digits alone has a value here; of all others only the text is kept. -/
inductive Json.Number where
  | natural (n : Nat)
  | other (text : String)
  deriving DecidableEq, Repr, Inhabited

inductive Json where
  | null
  | bool (b : Bool)
  | number (n : Json.Number)
  | string (s : String)
  | array (items : List Json)
  | object (fields : List (String × Json))
  deriving Repr, Inhabited

namespace Json

def nat (n : Nat) : Json := .number (.natural n)

def ofOption {α : Type} (f : α → Json) : Option α → Json
  | none => .null
  | some a => f a

def ofStrings (items : List String) : Json := .array (items.map .string)

/-- A field that may be missing but not repeated. -/
def field? (fields : List (String × Json)) (name : String) : Option (Option Json) :=
  match fields.filter (·.1 == name) with
  | [] => some none
  | [(_, v)] => some (some v)
  | _ => none

def toBool? : Json → Option Bool
  | .bool b => some b
  | _ => none

def toText? : Json → Option String
  | .string s => some s
  | _ => none

/-- A number of 32 bits, written as a whole number. -/
def toWord? : Json → Option UInt32
  | .number (.natural n) => if n < 4294967296 then some n.toUInt32 else none
  | _ => none

/-- A number of 64 bits, written as a whole number. -/
def toWord64? : Json → Option Nat
  | .number (.natural n) => if n < 18446744073709551616 then some n else none
  | _ => none

def toList? {α : Type} (f : Json → Option α) : Json → Option (List α)
  | .array items => items.mapM f
  | _ => none

def toOption? {α : Type} (f : Json → Option α) : Json → Option (Option α)
  | .null => some none
  | v => (f v).map some

/-- A field that may be missing or `null`. -/
def optional? {α : Type} (fields : List (String × Json)) (name : String)
    (f : Json → Option α) : Option (Option α) :=
  match field? fields name with
  | none => none
  | some none => some none
  | some (some v) => toOption? f v

def required? {α : Type} (fields : List (String × Json)) (name : String)
    (f : Json → Option α) : Option α :=
  (field? fields name).bind fun v => v.bind f

end Json

end ComponentBuild
