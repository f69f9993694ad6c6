namespace ComponentBuild.Text

/-- Marks the first free character `c` between two places; `i` is the place of the first
character. -/
def markFirst (c : Char) (low high : Nat) : Nat → List (Char × Bool) → Option (List (Char × Bool))
  | _, [] => none
  | i, (d, taken) :: rest =>
    if high ≤ i then none
    else if low ≤ i && d == c && !taken then some ((d, true) :: rest)
    else (markFirst c low high (i + 1) rest).map ((d, taken) :: ·)

/-- The characters of the first word that are paired, and the other word with its paired characters
marked. Pairs are at most `reach` places apart. -/
def pairUp (reach : Nat) : Nat → List Char → List (Char × Bool) → List Char × List (Char × Bool)
  | _, [], other => ([], other)
  | i, c :: cs, other =>
    match markFirst c (i - reach) (i + reach + 1) 0 other with
    | none => pairUp reach (i + 1) cs other
    | some other =>
      let (paired, other) := pairUp reach (i + 1) cs other
      (c :: paired, other)

/-- One for equal words, zero for words without pairs. -/
def similarity (a b : List Char) : Rat :=
  let (left, marked) := pairUp (max a.length b.length / 2 - 1) 0 a (b.map (·, false))
  let right := (marked.filter Prod.snd).map Prod.fst
  let pairs := left.length
  let moved := ((left.zip right).filter fun (c, d) => c != d).length / 2
  if a.isEmpty && b.isEmpty then 1
  else if pairs = 0 then 0
  else ((pairs : Rat) / a.length + pairs / b.length + ((pairs - moved : Nat) : Rat) / pairs) / 3

/-- The name most like a word, if it is like it enough. Of equally good ones it is the last. -/
def closest? (word : String) (names : List String) : Option String :=
  (names.foldl (fun best name =>
    let s := similarity word.toList name.toList
    match best with
    | none => if 7 / 10 < s then some (s, name) else none
    | some (t, _) => if t ≤ s then some (s, name) else best) (none : Option (Rat × String))).map
      Prod.snd

end ComponentBuild.Text
