import ComponentBuild.Proofs.Files.Resolved

namespace ComponentBuild

namespace Path

variable {p q : Path} {here : FileLocation}

/-- What a path starts with: the root, a `.`, or nothing. -/
def start (p : Path) : List Component :=
  if p.isAbsolute then [.root]
  else if p.pieces.head? = some ['.'] then [.current]
  else []

/-- The components behind the start of a path. -/
def steps (p : Path) : List Component :=
  (p.pieces.filter (!isIdle ·)).map Component.ofPiece

theorem components_eq (p : Path) : p.components = p.start ++ p.steps := by
  cases habsolute : p.isAbsolute with
  | true => simp [start, steps, habsolute, components_of_isAbsolute habsolute]
  | false =>
    simp only [components, start, steps, habsolute, Bool.false_eq_true, if_false]
    split
    next pieces hpieces =>
      have hdot : isIdle ['.'] = true := by decide
      simp [hpieces, hdot]
    next hpieces =>
      have hhead : p.pieces.head? ≠ some ['.'] := by
        intro h
        obtain ⟨pieces, h⟩ := List.head?_eq_some_iff.1 h
        exact hpieces pieces h
      simp [hhead]

theorem join_of_isAbsolute (p : Path) (hq : q.isAbsolute = true) : p.join q = q := by
  simp [join, hq]

theorem join_of_isEmpty (hp : p.text.isEmpty = true) : p.join q = q := by
  simp [join, hp]

theorem eq_of_isEmpty (hp : p.text.isEmpty = true) : p = ⟨""⟩ := by
  obtain ⟨text⟩ := p
  obtain rfl : text = "" := String.isEmpty_iff.1 hp
  rfl

/-- A relative path behind another one has one slash between the two. -/
theorem join_toList (hp : p.text.isEmpty = false) (hq : q.isAbsolute = false) :
    ∃ front, (p.join q).text.toList = front ++ '/' :: q.text.toList ∧
      (p.text.toList = front ∨ p.text.toList = front ++ ['/']) := by
  unfold join
  rw [hq, hp, Bool.or_self, if_neg Bool.false_ne_true]
  split
  · next hlast =>
    obtain ⟨front, hfront⟩ := List.getLast?_eq_some_iff.1 (beq_iff_eq.1 hlast)
    refine ⟨front, ?_, .inr hfront⟩
    rw [String.toList_append, hfront, List.append_assoc]
    rfl
  · refine ⟨p.text.toList, ?_, .inl rfl⟩
    rw [String.toList_append, String.toList_append, List.append_assoc]
    rfl

theorem isAbsolute_join_relative (hp : p.text.isEmpty = false) (hq : q.isAbsolute = false) :
    (p.join q).isAbsolute = p.isAbsolute := by
  have hne : p.text.toList ≠ [] := by
    intro h
    rw [String.toList_eq_nil_iff.1 h] at hp
    cases hp
  obtain ⟨front, hjoin, hfront⟩ := join_toList hp hq
  unfold isAbsolute
  rw [hjoin]
  rcases hfront with hfront | hfront
  · obtain ⟨c, cs, hcs⟩ := List.exists_cons_of_ne_nil hne
    simp [← hfront, hcs]
  · rw [hfront]
    cases front <;> rfl

theorem isAbsolute_join (hp : p.isAbsolute = true) (q : Path) : (p.join q).isAbsolute = true := by
  have hempty : p.text.isEmpty = false := by
    rw [Bool.eq_false_iff]
    intro h
    rw [eq_of_isEmpty h] at hp
    cases hp
  cases hq : q.isAbsolute with
  | true => rw [join_of_isAbsolute p hq, hq]
  | false => rw [isAbsolute_join_relative hempty hq, hp]

/-- A slash at the end of a path in front is no piece of the joined path. -/
theorem exists_pieces_join (hp : p.text.isEmpty = false) (hq : q.isAbsolute = false) :
    ∃ front back, front ≠ [] ∧ back.filter (!isIdle ·) = [] ∧ p.pieces = front ++ back ∧
      (p.join q).pieces = front ++ q.pieces := by
  obtain ⟨front, hjoin, hfront⟩ := join_toList hp hq
  have hpieces : (p.join q).pieces = Text.splitOn '/' front ++ q.pieces := by
    rw [pieces, hjoin, Text.splitOn_append_separator]
    rfl
  rcases hfront with hfront | hfront
  · refine ⟨_, [], Text.splitOn_ne_nil _ _, rfl, ?_, hpieces⟩
    rw [pieces, hfront, List.append_nil]
  · refine ⟨_, [[]], Text.splitOn_ne_nil _ _, by decide, ?_, hpieces⟩
    rw [pieces, hfront, Text.splitOn_append_separator]
    rfl

theorem components_join (hp : p.text.isEmpty = false) (hq : q.isAbsolute = false) :
    (p.join q).components = p.components ++ q.steps := by
  obtain ⟨front, back, hfront, hback, hpieces, hjoin⟩ := exists_pieces_join hp hq
  have hstart : (p.join q).start = p.start := by
    simp [start, isAbsolute_join_relative hp hq, hpieces, hjoin,
      List.head?_append_of_ne_nil _ hfront]
  have hsteps : (p.join q).steps = p.steps ++ q.steps := by
    simp [steps, hpieces, hjoin, hback]
  rw [components_eq, components_eq p, hstart, hsteps, List.append_assoc]

/-- Where a relative path leads from the place of another one. -/
theorem location_join (p : Path) (hq : q.isAbsolute = false) :
    (p.join q).location here = follow (p.location here) q.pieces := by
  cases hp : p.text.isEmpty with
  | true =>
    rw [join_of_isEmpty hp, eq_of_isEmpty hp, location, hq]
    rfl
  | false =>
    obtain ⟨front, back, -, hback, hpieces, hjoin⟩ := exists_pieces_join hp hq
    have hfollow (l : FileLocation) : follow l p.pieces = follow l front := by
      rw [hpieces, follow_append, ← follow_filter _ back, hback]
      rfl
    rw [location, location, isAbsolute_join_relative hp hq, hjoin, follow_append, hfollow]

theorem ofComponents_concat (cs : List Component) (c : Component) :
    ofComponents (cs ++ [c]) = (ofComponents cs).join ⟨c.text⟩ := by
  cases cs with
  | nil => exact (join_of_isEmpty rfl).symm
  | cons d cs =>
    show (cs ++ [c]).foldl _ _ = _
    rw [List.foldl_append]
    rfl

end Path

end ComponentBuild
