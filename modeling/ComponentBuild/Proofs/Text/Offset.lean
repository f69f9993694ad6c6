import ComponentBuild.Text.Offset

namespace ComponentBuild.Text

/-- A byte offset names a place between two characters. -/
def IsBoundary (cs : List Char) (n : Nat) : Prop :=
  ∃ front back, cs = front ++ back ∧ n = byteLength front

@[simp] theorem byteLength_nil : byteLength [] = 0 := rfl

@[simp] theorem byteLength_cons (c : Char) (cs : List Char) :
    byteLength (c :: cs) = c.utf8Size + byteLength cs := rfl

theorem byteLength_eq_zero {cs : List Char} : byteLength cs = 0 ↔ cs = [] := by
  cases cs with
  | nil => simp
  | cons c cs =>
    have hc := c.utf8Size_pos
    simp only [byteLength_cons, reduceCtorEq, iff_false]
    omega

theorem byteLength_pos {cs : List Char} : 0 < byteLength cs ↔ cs ≠ [] := by
  rw [Nat.pos_iff_ne_zero, Ne, byteLength_eq_zero]

theorem units_le (c : Char) : units c ≤ c.utf8Size := by
  unfold units Char.utf8Size
  have h : ∀ n : UInt32, c.val ≤ n ↔ c.val.toNat ≤ n.toNat := fun _ => UInt32.le_iff_toNat_le
  have h' : c.val < 0x10000 ↔ c.val.toNat < 0x10000 := UInt32.lt_iff_toNat_lt
  simp only [h, h', UInt32.toNat_ofNatLT]
  split <;> repeat' split
  all_goals omega

theorem units_pos (c : Char) : 0 < units c := by
  unfold units
  split <;> decide

/-- Of two boundaries the smaller one parts the text in front of the other. -/
theorem exists_middle {a b c d : List Char} (h : a ++ b = c ++ d)
    (hn : byteLength a ≤ byteLength c) : ∃ m, c = a ++ m ∧ b = m ++ d := by
  rcases List.append_eq_append_iff.1 h with hm | ⟨m, rfl, rfl⟩
  · exact hm
  · have hm : m = [] := by
      rw [byteLength_append] at hn
      exact byteLength_eq_zero.1 (by omega)
    exact ⟨[], by rw [hm, List.append_nil, List.append_nil], by rw [hm]; rfl⟩

theorem isBoundary_iff {cs : List Char} {n : Nat} :
    IsBoundary cs n ↔ (splitAt? cs n).isSome = true := by
  constructor
  · rintro ⟨front, back, rfl, rfl⟩
    rw [splitAt?_byteLength]
    rfl
  · intro h
    obtain ⟨⟨front, back⟩, hs⟩ := Option.isSome_iff_exists.1 h
    exact ⟨front, back, eq_of_splitAt? hs⟩

instance (cs : List Char) (n : Nat) : Decidable (IsBoundary cs n) :=
  decidable_of_iff _ isBoundary_iff.symm

theorem slice?_eq_some_iff {cs m : List Char} {start stop : Nat} :
    slice? cs start stop = some m ↔
      ∃ front back, cs = front ++ (m ++ back) ∧ start = byteLength front ∧
        stop = start + byteLength m := by
  constructor
  · intro h
    unfold slice? at h
    split at h
    next hle =>
      obtain ⟨⟨front, rest⟩, hfront, h⟩ := Option.bind_eq_some_iff.1 h
      obtain ⟨⟨m', back⟩, hm, he⟩ := Option.map_eq_some_iff.1 h
      obtain rfl : m' = m := he
      obtain ⟨rfl, hstart⟩ := eq_of_splitAt? hfront
      obtain ⟨rfl, hstop⟩ := eq_of_splitAt? hm
      exact ⟨front, back, rfl, hstart, by omega⟩
    next => contradiction
  · rintro ⟨front, back, rfl, rfl, rfl⟩
    exact slice?_byteLength front m back

/-- A part of a text is a part of each text that holds it. -/
theorem slice?_shift {cs m : List Char} {start stop : Nat} (h : slice? cs start stop = some m)
    (front back : List Char) :
    slice? (front ++ (cs ++ back)) (byteLength front + start) (byteLength front + stop) =
      some m := by
  obtain ⟨x, y, rfl, rfl, rfl⟩ := slice?_eq_some_iff.1 h
  refine slice?_eq_some_iff.2 ⟨front ++ x, y ++ back, ?_, ?_, ?_⟩
  · simp only [List.append_assoc]
  · rw [byteLength_append]
  · rw [Nat.add_assoc]

theorem slice?_between {cs : List Char} {start stop : Nat} (hstart : IsBoundary cs start)
    (hstop : IsBoundary cs stop) (hle : start ≤ stop) :
    slice? cs start stop = some (between cs start stop).toList := by
  obtain ⟨a, b, rfl, rfl⟩ := hstart
  obtain ⟨c, d, h, rfl⟩ := hstop
  obtain ⟨m, rfl, rfl⟩ := exists_middle h hle
  rw [between, byteLength_append, slice?_byteLength, Option.getD_some, String.toList_ofList]

theorem between_front (front back : List Char) :
    between (front ++ back) 0 (byteLength front) = String.ofList front := by
  have hs := slice?_byteLength [] front back
  rw [List.nil_append, byteLength_nil, Nat.zero_add] at hs
  rw [between, hs, Option.getD_some]

theorem isBoundary_zero (cs : List Char) : IsBoundary cs 0 := ⟨[], cs, rfl, rfl⟩

theorem isBoundary_byteLength (cs : List Char) : IsBoundary cs (byteLength cs) :=
  ⟨cs, [], (List.append_nil cs).symm, rfl⟩

theorem IsBoundary.le {cs : List Char} {n : Nat} (h : IsBoundary cs n) : n ≤ byteLength cs := by
  obtain ⟨front, back, rfl, rfl⟩ := h
  rw [byteLength_append]
  exact Nat.le_add_right _ _

/-- From an offset on a text goes on with `cs`. -/
def StandsAt (source : List Char) (offset : Nat) (cs : List Char) : Prop :=
  ∃ front, source = front ++ cs ∧ offset = byteLength front

variable {source cs front back : List Char} {offset : Nat}

theorem StandsAt.zero (source : List Char) : StandsAt source 0 source := ⟨[], rfl, rfl⟩

theorem StandsAt.isBoundary (h : StandsAt source offset cs) : IsBoundary source offset := by
  obtain ⟨front, rfl, rfl⟩ := h
  exact ⟨front, cs, rfl, rfl⟩

theorem StandsAt.drop (front : List Char) (h : StandsAt source offset (front ++ back)) :
    StandsAt source (offset + byteLength front) back := by
  obtain ⟨x, rfl, rfl⟩ := h
  exact ⟨x ++ front, (List.append_assoc _ _ _).symm, (byteLength_append _ _).symm⟩

/-- A place with less to read behind it is further behind. -/
theorem StandsAt.lt {rest : List Char} {n : Nat} (h : StandsAt source offset cs)
    (hrest : StandsAt source n rest) (hlt : rest.length < cs.length) : offset < n := by
  obtain ⟨x, rfl, rfl⟩ := h
  obtain ⟨y, happend, rfl⟩ := hrest
  refine Nat.lt_of_not_le fun hge => ?_
  obtain ⟨m, rfl, rfl⟩ := exists_middle happend.symm hge
  rw [List.length_append] at hlt
  omega

theorem StandsAt.unique {cs' : List Char} (h : StandsAt source offset cs)
    (h' : StandsAt source offset cs') : cs = cs' := by
  obtain ⟨x, rfl, rfl⟩ := h
  obtain ⟨y, happend, hlength⟩ := h'
  obtain ⟨m, rfl, rfl⟩ := exists_middle happend (Nat.le_of_eq hlength)
  rw [byteLength_append] at hlength
  rw [byteLength_eq_zero.1 (show byteLength m = 0 by omega), List.nil_append]

/-- Up to each boundary behind the offset there is a part of what stands there. -/
theorem StandsAt.exists_front {n : Nat} (h : StandsAt source offset cs) (hn : IsBoundary source n)
    (hle : offset ≤ n) :
    ∃ front back, cs = front ++ back ∧ n = offset + byteLength front ∧ StandsAt source n back := by
  obtain ⟨x, rfl, rfl⟩ := h
  obtain ⟨y, z, hsource, rfl⟩ := hn
  obtain ⟨m, rfl, rfl⟩ := exists_middle hsource hle
  exact ⟨m, z, rfl, byteLength_append x m, x ++ m, (List.append_assoc _ _ _).symm, rfl⟩

theorem StandsAt.slice? (front : List Char) (h : StandsAt source offset (front ++ back)) :
    slice? source offset (offset + byteLength front) = some front := by
  obtain ⟨x, rfl, rfl⟩ := h
  exact slice?_byteLength x front back

theorem StandsAt.between (front : List Char) (h : StandsAt source offset (front ++ back)) :
    between source offset (offset + byteLength front) = String.ofList front := by
  rw [Text.between, h.slice?, Option.getD_some]

end ComponentBuild.Text
