namespace ComponentBuild.Text

/-- The number of bytes the characters take in UTF-8. -/
def byteLength : List Char → Nat
  | [] => 0
  | c :: cs => c.utf8Size + byteLength cs

/-- The number of UTF-16 units of a character: two beyond the first plane. -/
def units (c : Char) : Nat := if c.val < 0x10000 then 1 else 2

/-- The number of UTF-16 units the characters take. -/
def unitLength : List Char → Nat
  | [] => 0
  | c :: cs => units c + unitLength cs

/-- The text before and after a byte offset, if the offset is a character boundary. -/
def splitAt? : List Char → Nat → Option (List Char × List Char)
  | cs, 0 => some ([], cs)
  | [], _ + 1 => none
  | c :: cs, n + 1 =>
    if c.utf8Size ≤ n + 1 then
      (splitAt? cs (n + 1 - c.utf8Size)).map fun (front, back) => (c :: front, back)
    else none

/-- The text from one byte offset up to another. -/
def slice? (cs : List Char) (start stop : Nat) : Option (List Char) :=
  if start ≤ stop then
    (splitAt? cs start).bind fun (_, back) => (splitAt? back (stop - start)).map Prod.fst
  else none

/-- The text from one byte offset up to another; empty where they name no such text. -/
def between (cs : List Char) (start stop : Nat) : String :=
  String.ofList ((slice? cs start stop).getD [])

/-- The text from a byte offset on; empty where the offset names no place. -/
def dropBytes (cs : List Char) (offset : Nat) : List Char :=
  ((splitAt? cs offset).map Prod.snd).getD []

/-- The byte offset of the first character that passes. -/
def offsetOf? (p : Char → Bool) : List Char → Option Nat
  | [] => none
  | c :: cs => if p c then some 0 else (offsetOf? p cs).map (c.utf8Size + ·)

/-- The byte offset of the first occurrence of a pattern. -/
def find? (pattern : List Char) : List Char → Option Nat
  | [] => if pattern.isEmpty then some 0 else none
  | c :: cs =>
    if pattern.isPrefixOf (c :: cs) then some 0
    else (find? pattern cs).map (c.utf8Size + ·)

/-- The pieces between the separators: one more than there are separators. -/
def splitOn (separator : Char) : List Char → List (List Char)
  | [] => [[]]
  | c :: cs =>
    if c = separator then [] :: splitOn separator cs
    else
      match splitOn separator cs with
      | [] => [[c]]
      | piece :: pieces => (c :: piece) :: pieces

theorem byteLength_append (a b : List Char) :
    byteLength (a ++ b) = byteLength a + byteLength b := by
  induction a with
  | nil => simp [byteLength]
  | cons c a ih => simp [byteLength, ih]; omega

theorem unitLength_append (a b : List Char) :
    unitLength (a ++ b) = unitLength a + unitLength b := by
  induction a with
  | nil => simp [unitLength]
  | cons c a ih => simp [unitLength, ih]; omega

theorem splitAt?_zero (cs : List Char) : splitAt? cs 0 = some ([], cs) := by
  cases cs <;> rfl

theorem splitAt?_byteLength (a b : List Char) :
    splitAt? (a ++ b) (byteLength a) = some (a, b) := by
  induction a with
  | nil => simp [byteLength, splitAt?_zero]
  | cons c a ih =>
    have hc := c.utf8Size_pos
    obtain ⟨n, hn⟩ : ∃ n, c.utf8Size + byteLength a = n + 1 := ⟨c.utf8Size + byteLength a - 1, by omega⟩
    simp only [List.cons_append, byteLength, hn, splitAt?]
    rw [if_pos (by omega), show n + 1 - c.utf8Size = byteLength a by omega, ih]
    rfl

theorem eq_of_splitAt? {cs a b : List Char} {n : Nat} (h : splitAt? cs n = some (a, b)) :
    cs = a ++ b ∧ n = byteLength a := by
  induction cs generalizing n a with
  | nil =>
    cases n with
    | zero => simp [splitAt?] at h; obtain ⟨rfl, rfl⟩ := h; simp [byteLength]
    | succ n => simp [splitAt?] at h
  | cons c cs ih =>
    cases n with
    | zero => simp [splitAt?] at h; obtain ⟨rfl, rfl⟩ := h; simp [byteLength]
    | succ n =>
      simp only [splitAt?] at h
      split at h
      next hle =>
        obtain ⟨⟨x, y⟩, hxy, he⟩ := Option.map_eq_some_iff.1 h
        simp only [Prod.mk.injEq] at he
        obtain ⟨rfl, rfl⟩ := he
        obtain ⟨rfl, hn⟩ := ih hxy
        exact ⟨rfl, by simp only [byteLength]; omega⟩
      next => contradiction

theorem slice?_byteLength (a m b : List Char) :
    slice? (a ++ (m ++ b)) (byteLength a) (byteLength a + byteLength m) = some m := by
  simp [slice?, splitAt?_byteLength]

end ComponentBuild.Text
