namespace ComponentBuild.Vlq

inductive Error where
  | leftover
  | noValues
  | overflow
  deriving DecidableEq, Repr

def digitChar (n : Nat) : Char :=
  if n < 26 then Char.ofNat (n + 65)
  else if n < 52 then Char.ofNat (n + 71)
  else if n < 62 then Char.ofNat (n - 4)
  else if n = 62 then '+'
  else '/'

def digit? (c : Char) : Option Nat :=
  if 'A' ≤ c ∧ c ≤ 'Z' then some (c.toNat - 65)
  else if 'a' ≤ c ∧ c ≤ 'z' then some (c.toNat - 71)
  else if '0' ≤ c ∧ c ≤ '9' then some (c.toNat + 4)
  else if c = '+' then some 62
  else if c = '/' then some 63
  else none

/-- The digits of a number whose sign is its lowest bit. -/
def encodeBits (n : Nat) : List Char :=
  if n < 32 then [digitChar n] else digitChar (n % 32 + 32) :: encodeBits (n / 32)

def encode (d : Int) : List Char :=
  if d < 0 then encodeBits (2 * d.natAbs + 1) else encodeBits (2 * d.natAbs)

/-- The number of a 64-bit pattern whose sign is its lowest bit. -/
def ofBits (bits : Nat) : Int :=
  let word : Int := if bits < UInt64.size / 2 then bits else bits - UInt64.size
  if bits % 2 = 0 then word / 2 else -(word / 2)

/-- Each character is one digit per byte; one that is no digit counts as the greatest. -/
def digits (cs : List Char) : List Nat :=
  cs.flatMap fun c => List.replicate c.utf8Size ((digit? c).getD 63)

/-- The numbers of a run of digits, behind `bits` already read below `shift`. -/
def decodeDigits (bits shift : Nat) : List Nat → Except Error (List Int)
  | [] => if bits = 0 ∧ shift = 0 then .ok [] else .error .leftover
  | d :: ds =>
    if 64 ≤ shift then .error .overflow
    else
      let bits := bits + d % 32 * 2 ^ shift % 2 ^ 64
      if d < 32 then (decodeDigits 0 0 ds).map (ofBits bits :: ·)
      else decodeDigits bits (shift + 5) ds

/-- The numbers of one segment, at least one. -/
def decode (cs : List Char) : Except Error (List Int) :=
  match decodeDigits 0 0 (digits cs) with
  | .ok [] => .error .noValues
  | other => other

end ComponentBuild.Vlq
