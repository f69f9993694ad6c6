import ComponentBuild.Json.Value

namespace ComponentBuild.Json

def hexChar (n : Nat) : Char :=
  if n < 10 then Char.ofNat ('0'.toNat + n) else Char.ofNat ('a'.toNat + (n - 10))

def escape (c : Char) : List Char :=
  if c = '"' then ['\\', '"']
  else if c = '\\' then ['\\', '\\']
  else if c = '\x08' then ['\\', 'b']
  else if c = '\x0c' then ['\\', 'f']
  else if c = '\n' then ['\\', 'n']
  else if c = '\r' then ['\\', 'r']
  else if c = '\t' then ['\\', 't']
  else if c.val < 0x20 then
    ['\\', 'u', '0', '0', hexChar (c.toNat / 16), hexChar (c.toNat % 16)]
  else [c]

def quote (s : String) : List Char := '"' :: s.toList.flatMap escape ++ ['"']

def writeNumber : Number → List Char
  | .natural n => Nat.toDigits 10 n
  | .other text => text.toList

mutual

def write : Json → List Char
  | .null => "null".toList
  | .bool true => "true".toList
  | .bool false => "false".toList
  | .number n => writeNumber n
  | .string s => quote s
  | .array [] => "[]".toList
  | .array (v :: vs) => '[' :: write v ++ writeItems vs
  | .object [] => ['\x7b', '\x7d']
  | .object ((name, v) :: vs) => '\x7b' :: quote name ++ ':' :: write v ++ writeFields vs

def writeItems : List Json → List Char
  | [] => [']']
  | v :: vs => ',' :: write v ++ writeItems vs

def writeFields : List (String × Json) → List Char
  | [] => ['\x7d']
  | (name, v) :: vs => ',' :: quote name ++ ':' :: write v ++ writeFields vs

end

def render (v : Json) : String := String.ofList (write v)

end ComponentBuild.Json
