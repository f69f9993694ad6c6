namespace ComponentBuild

/-- A sum that a 32-bit word cannot hold. -/
structure Overflow where
  deriving DecidableEq, Repr, Inhabited

/-- What is worked out with words, unless a sum on the way does not fit. -/
abbrev Checked := Except Overflow

def fitting (n : Nat) : Checked Nat := if n < UInt32.size then .ok n else .error ⟨⟩

def addWords (a b : UInt32) : Checked UInt32 := (fitting (a.toNat + b.toNat)).map Nat.toUInt32

end ComponentBuild
