import ComponentBuild.Json.Value

namespace ComponentBuild.Json

def isBlank (c : Char) : Bool := c == ' ' || c == '\n' || c == '\r' || c == '\t'

def skipBlanks (cs : List Char) : List Char := cs.dropWhile isBlank

def hexDigit? (c : Char) : Option Nat :=
  if '0' ≤ c ∧ c ≤ '9' then some (c.toNat - '0'.toNat)
  else if 'a' ≤ c ∧ c ≤ 'f' then some (c.toNat - 'a'.toNat + 10)
  else if 'A' ≤ c ∧ c ≤ 'F' then some (c.toNat - 'A'.toNat + 10)
  else none

/-- The value of four hexadecimal digits. -/
def hex4? (a b c d : Char) : Option Nat := do
  let a ← hexDigit? a
  let b ← hexDigit? b
  let c ← hexDigit? c
  let d ← hexDigit? d
  return ((a * 16 + b) * 16 + c) * 16 + d

/-- The character behind a one-letter escape. -/
def shortEscape? : Char → Option Char
  | '"' => some '"'
  | '\\' => some '\\'
  | '/' => some '/'
  | 'b' => some '\x08'
  | 'f' => some '\x0c'
  | 'n' => some '\n'
  | 'r' => some '\r'
  | 't' => some '\t'
  | _ => none

def isHighSurrogate (n : Nat) : Bool := 0xD800 ≤ n && n < 0xDC00

def isLowSurrogate (n : Nat) : Bool := 0xDC00 ≤ n && n < 0xE000

/-- The rest of a string behind its opening quote, and the text behind its closing one. -/
def readString : List Char → Option (List Char × List Char)
  | [] => none
  | '"' :: rest => some ([], rest)
  | '\\' :: 'u' :: a :: b :: c :: d :: rest =>
    match hex4? a b c d with
    | none => none
    | some n =>
      if isHighSurrogate n then
        match rest with
        | '\\' :: 'u' :: e :: f :: g :: h :: rest =>
          match hex4? e f g h with
          | none => none
          | some m =>
            if isLowSurrogate m then
              (readString rest).map fun (s, r) =>
                (Char.ofNat (0x10000 + (n - 0xD800) * 0x400 + (m - 0xDC00)) :: s, r)
            else none
        | _ => none
      else if isLowSurrogate n then none
      else (readString rest).map fun (s, r) => (Char.ofNat n :: s, r)
  | '\\' :: e :: rest =>
    match shortEscape? e with
    | none => none
    | some c => (readString rest).map fun (s, r) => (c :: s, r)
  | c :: rest =>
    if c.val < 0x20 ∨ c = '\\' then none
    else (readString rest).map fun (s, r) => (c :: s, r)

/-- Digits behind a point, at least one. -/
def readFraction (cs : List Char) : Option (List Char × List Char) :=
  match cs with
  | '.' :: rest =>
    if (rest.takeWhile Char.isDigit).isEmpty then none
    else some ('.' :: rest.takeWhile Char.isDigit, rest.dropWhile Char.isDigit)
  | _ => some ([], cs)

def readSign : List Char → List Char × List Char
  | '+' :: rest => (['+'], rest)
  | '-' :: rest => (['-'], rest)
  | rest => ([], rest)

def readExponent (cs : List Char) : Option (List Char × List Char) :=
  match cs with
  | c :: rest =>
    if c = 'e' ∨ c = 'E' then
      let (sign, rest) := readSign rest
      if (rest.takeWhile Char.isDigit).isEmpty then none
      else some (c :: sign ++ rest.takeWhile Char.isDigit, rest.dropWhile Char.isDigit)
    else some ([], cs)
  | [] => some ([], cs)

def natOfDigits (ds : List Char) : Nat :=
  ds.foldl (fun n d => n * 10 + (d.toNat - '0'.toNat)) 0

/-- A number; a leading zero stands alone. -/
def readNumber (cs : List Char) : Option (Number × List Char) := do
  let (negative, unsigned) := match cs with
    | '-' :: rest => (true, rest)
    | _ => (false, cs)
  let digits := unsigned.takeWhile Char.isDigit
  if digits.isEmpty ∨ (digits.length > 1 ∧ digits.head? = some '0') then none
  let (fraction, rest) ← readFraction (unsigned.dropWhile Char.isDigit)
  let (exponent, rest) ← readExponent rest
  if !negative && fraction.isEmpty && exponent.isEmpty then
    return (.natural (natOfDigits digits), rest)
  return (.other (String.ofList ((if negative then ['-'] else []) ++ digits ++ fraction ++ exponent)),
    rest)

def dropWord? (word : String) (cs : List Char) : Option (List Char) :=
  if word.toList.isPrefixOf cs then some (cs.drop word.length) else none

mutual

/-- One value of at most the given depth, and the text behind it. -/
def readValue : Nat → Nat → List Char → Option (Json × List Char)
  | 0, _, _ => none
  | fuel + 1, depth, cs =>
    match skipBlanks cs with
    | '"' :: rest => (readString rest).map fun (s, r) => (.string (String.ofList s), r)
    | '[' :: rest =>
      if depth = 0 then none
      else
        match skipBlanks rest with
        | ']' :: rest => some (.array [], rest)
        | rest => (readItems fuel (depth - 1) rest).map fun (xs, r) => (.array xs, r)
    | '\x7b' :: rest =>
      if depth = 0 then none
      else
        match skipBlanks rest with
        | '\x7d' :: rest => some (.object [], rest)
        | rest => (readFields fuel (depth - 1) rest).map fun (xs, r) => (.object xs, r)
    | 'n' :: rest => (dropWord? "ull" rest).map fun r => (.null, r)
    | 't' :: rest => (dropWord? "rue" rest).map fun r => (.bool true, r)
    | 'f' :: rest => (dropWord? "alse" rest).map fun r => (.bool false, r)
    | cs => (readNumber cs).map fun (n, r) => (.number n, r)

/-- The items of an array up to its closing bracket, at least one. -/
def readItems : Nat → Nat → List Char → Option (List Json × List Char)
  | 0, _, _ => none
  | fuel + 1, depth, cs =>
    match readValue fuel depth cs with
    | none => none
    | some (v, rest) =>
      match skipBlanks rest with
      | ']' :: rest => some ([v], rest)
      | ',' :: rest => (readItems fuel depth rest).map fun (vs, r) => (v :: vs, r)
      | _ => none

/-- The fields of an object up to its closing brace, at least one. -/
def readFields : Nat → Nat → List Char → Option (List (String × Json) × List Char)
  | 0, _, _ => none
  | fuel + 1, depth, cs =>
    match skipBlanks cs with
    | '"' :: rest =>
      match readString rest with
      | none => none
      | some (name, rest) =>
        match skipBlanks rest with
        | ':' :: rest =>
          match readValue fuel depth rest with
          | none => none
          | some (v, rest) =>
            match skipBlanks rest with
            | '\x7d' :: rest => some ([(String.ofList name, v)], rest)
            | ',' :: rest =>
              (readFields fuel depth rest).map fun (vs, r) => ((String.ofList name, v) :: vs, r)
            | _ => none
        | _ => none
    | _ => none

end

def parse? (cs : List Char) : Option Json :=
  match readValue (2 * cs.length + 2) 127 cs with
  | some (v, rest) => if (skipBlanks rest).isEmpty then some v else none
  | none => none

end ComponentBuild.Json
