import ComponentBuild.Position.LineIndex
import ComponentBuild.Proofs.Position.Spot
import ComponentBuild.Proofs.Text.Offset
import Mathlib.Data.List.Induction

namespace ComponentBuild

namespace LineCol

/-- The position behind one more character. -/
def advance (p : LineCol) (c : Char) : LineCol :=
  if c = '\n' then ⟨p.line + 1, 0⟩ else ⟨p.line, p.col + (Text.units c).toUInt32⟩

/-- The position behind a text. -/
def after (cs : List Char) : LineCol := cs.foldl advance ⟨0, 0⟩

theorem after_concat (cs : List Char) (c : Char) :
    after (cs ++ [c]) = (after cs).advance c := by
  rw [after, List.foldl_append]
  rfl

theorem after_toNat_le (cs : List Char) :
    (after cs).line.toNat ≤ Text.byteLength cs ∧ (after cs).col.toNat ≤ Text.byteLength cs := by
  induction cs using List.reverseRecOn with
  | nil => exact ⟨Nat.le_refl _, Nat.le_refl _⟩
  | append_singleton cs c ih =>
    have hc := c.utf8Size_pos
    have hu := Text.units_le c
    rw [after_concat, Text.byteLength_append, advance]
    simp only [Text.byteLength]
    split
    · simp only [UInt32.toNat_add, UInt32.toNat_one, UInt32.toNat_zero]
      omega
    · simp only [UInt32.toNat_add, UInt32.toNat_ofNat', Nat.toUInt32]
      omega

theorem lt_advance {p : LineCol} {c : Char} (hline : p.line.toNat + 1 < UInt32.size)
    (hcol : p.col.toNat + Text.units c < UInt32.size) : p < p.advance c := by
  have hu := Text.units_pos c
  simp only [UInt32.size] at hline hcol
  rw [lt_iff, advance]
  simp only [UInt32.lt_iff_toNat_lt]
  split
  · simp only [UInt32.toNat_add, UInt32.toNat_one]
    omega
  · simp only [UInt32.toNat_add, UInt32.toNat_ofNat', Nat.toUInt32, true_and]
    omega

/-- Longer texts end at later positions. -/
theorem after_lt {front back : List Char}
    (h : Text.byteLength (front ++ back) < UInt32.size) (hback : back ≠ []) :
    after front < after (front ++ back) := by
  induction back using List.reverseRecOn with
  | nil => exact absurd rfl hback
  | append_singleton back c ih =>
    have hn := after_toNat_le (front ++ back)
    have hu := Text.units_le c
    have hp := c.utf8Size_pos
    rw [← List.append_assoc, Text.byteLength_append] at h
    simp only [Text.byteLength] at h
    have hlast : after (front ++ back) < after (front ++ back ++ [c]) := by
      rw [after_concat]
      exact lt_advance (by omega) (by omega)
    rw [← List.append_assoc]
    by_cases hb : back = []
    · rwa [hb, List.append_nil] at hlast ⊢
    · have hle := le_of_lt (ih (by omega) hb)
      rw [← not_le_iff]
      intro hge
      exact (not_le_iff _ _).2 hlast (le_trans hge hle)

theorem after_le {front back : List Char} (h : Text.byteLength (front ++ back) < UInt32.size) :
    after front ≤ after (front ++ back) := by
  by_cases hback : back = []
  · simp only [hback, List.append_nil, le_refl]
  · exact le_of_lt (after_lt h hback)

theorem after_line_append {front back : List Char} (h : '\n' ∉ back) :
    (after (front ++ back)).line = (after front).line := by
  induction back using List.reverseRecOn with
  | nil => rw [List.append_nil]
  | append_singleton back c ih =>
    rw [List.mem_append, List.mem_singleton, not_or] at h
    rw [← List.append_assoc, after_concat, advance, if_neg (Ne.symm h.2)]
    exact ih h.1

theorem toNat_add_one {line : UInt32} (h : line.toNat + 1 < UInt32.size) :
    (line + 1).toNat = line.toNat + 1 := by
  rw [UInt32.toNat_add, UInt32.toNat_one, Nat.mod_eq_of_lt h]

theorem add_one_ne_zero {line : UInt32} (h : line.toNat + 1 < UInt32.size) : line + 1 ≠ 0 := by
  rw [← UInt32.toNat_inj.ne, toNat_add_one h]
  exact Nat.succ_ne_zero _

/-- The position behind a text that stands behind another one counts from the end of that. -/
theorem after_append {front back : List Char} (h : Text.byteLength back < UInt32.size) :
    after (front ++ back) = (after back).moved (after front) := by
  induction back using List.reverseRecOn with
  | nil =>
    rw [List.append_nil]
    change _ = (⟨0, 0⟩ : LineCol).moved _
    rw [moved, if_pos rfl, UInt32.add_zero]
  | append_singleton back c ih =>
    have hn := (after_toNat_le back).1
    have hp := c.utf8Size_pos
    rw [Text.byteLength_append] at h
    simp only [Text.byteLength, UInt32.size] at h ih
    rw [← List.append_assoc, after_concat, after_concat, ih (by omega)]
    unfold advance
    split
    · -- The text is too short for its last line to wrap to the first.
      have hne : (after back).line + 1 ≠ 0 := by
        apply add_one_ne_zero
        simp only [UInt32.size]
        omega
      unfold moved
      rw [if_neg hne]
      split
      next h0 => rw [h0, UInt32.zero_add]
      next => rw [UInt32.add_assoc]
    · unfold moved
      split
      · rw [UInt32.add_assoc]
      · rfl

/-- A position of a text, be it one in front of a character or not: it is not behind the end of the
text, nor further right than the text is long. -/
structure IsIn (p : LineCol) (cs : List Char) : Prop where
  le : p ≤ after cs
  col_le : p.col.toNat ≤ Text.byteLength cs

theorem IsIn.line_le {p : LineCol} {cs : List Char} (h : p.IsIn cs) :
    p.line.toNat ≤ Text.byteLength cs := by
  have hle := h.le
  have hafter := (after_toNat_le cs).1
  simp only [le_iff, ← UInt32.toNat_inj, UInt32.lt_iff_toNat_lt] at hle
  omega

theorem after_isIn (cs : List Char) : (after cs).IsIn cs := ⟨le_refl _, (after_toNat_le cs).2⟩

theorem zero_isIn (cs : List Char) : (⟨0, 0⟩ : LineCol).IsIn cs := by
  refine ⟨?_, Nat.zero_le _⟩
  simp only [le_iff, ← UInt32.toNat_inj, UInt32.lt_iff_toNat_lt, UInt32.le_iff_toNat_le,
    UInt32.toNat_zero]
  omega

section

variable {p q : LineCol} {front inside : List Char}

/-- A place in a text fits where that text stands. -/
theorem fits_of_isIn (hp : p.IsIn inside) (h : Text.byteLength (front ++ inside) < UInt32.size) :
    (p.spot.relativeTo (after front).spot).Fits := by
  have hline := hp.line_le
  have hcol := hp.col_le
  have hafter := after_toNat_le front
  rw [Text.byteLength_append] at h
  refine (Spot.fits_relativeTo_iff p.spot_fits (spot_fits _)).2 ?_
  simp only [spot]
  omega

/-- In front of text, lines can count from one. -/
theorem fits_fromOne_after {front back : List Char} (hback : back ≠ [])
    (h : Text.byteLength (front ++ back) < UInt32.size) : (after front).spot.fromOne.Fits := by
  have hline := (after_toNat_le front).1
  have hpos := Text.byteLength_pos.2 hback
  rw [Text.byteLength_append] at h
  refine ⟨?_, (spot_fits _).2⟩
  simp only [spot, Spot.fromOne]
  omega

/-- The sums do not wrap, so positions stay in order. -/
theorem moved_le_iff (hp : p.IsIn inside) (hq : q.IsIn inside)
    (h : Text.byteLength (front ++ inside) < UInt32.size) :
    p.moved (after front) ≤ q.moved (after front) ↔ p ≤ q := by
  have hpl := hp.line_le
  have hpc := hp.col_le
  have hql := hq.line_le
  have hqc := hq.col_le
  obtain ⟨hline, hcol⟩ := after_toNat_le front
  rw [Text.byteLength_append, UInt32.size] at h
  unfold moved
  split <;> split <;>
    simp only [le_iff, ← UInt32.toNat_inj, UInt32.lt_iff_toNat_lt, UInt32.le_iff_toNat_le,
      UInt32.toNat_add, UInt32.toNat_zero, true_and] at * <;>
    omega

theorem moved_line_iff (hp : p.IsIn inside) (hq : q.IsIn inside)
    (h : Text.byteLength (front ++ inside) < UInt32.size) :
    (p.moved (after front)).line = (q.moved (after front)).line ↔ p.line = q.line := by
  have hpl := hp.line_le
  have hql := hq.line_le
  have hline := (after_toNat_le front).1
  rw [Text.byteLength_append, UInt32.size] at h
  unfold moved
  split <;> split <;>
    simp only [← UInt32.toNat_inj, UInt32.toNat_add, UInt32.toNat_zero, true_iff] at * <;>
    omega

theorem le_moved (hp : p.IsIn inside)
    (h : Text.byteLength (front ++ inside) < UInt32.size) :
    after front ≤ p.moved (after front) := by
  have hzero := (moved_le_iff (zero_isIn inside) hp h).2 (by
    simp only [le_iff, ← UInt32.toNat_inj, UInt32.lt_iff_toNat_lt, UInt32.le_iff_toNat_le,
      UInt32.toNat_zero]
    omega)
  rwa [moved, if_pos rfl, UInt32.add_zero] at hzero

theorem moved_le (hp : p.IsIn inside)
    (h : Text.byteLength (front ++ inside) < UInt32.size) :
    p.moved (after front) ≤ after (front ++ inside) := by
  rw [after_append (by rw [Text.byteLength_append] at h; omega)]
  exact (moved_le_iff hp (after_isIn inside) h).2 hp.le

end

end LineCol

namespace LineIndex

theorem startsAfter_append (n : Nat) (front back : List Char) :
    startsAfter n (front ++ back) =
      startsAfter n front ++ startsAfter (n + Text.byteLength front) back := by
  induction front generalizing n with
  | nil => rfl
  | cons c front ih =>
    simp only [List.cons_append, startsAfter, Text.byteLength, ih, Nat.add_assoc]
    split <;> rfl

theorem le_of_mem_startsAfter {n i : Nat} {cs : List Char} (h : i ∈ startsAfter n cs) :
    n < i ∧ i ≤ n + Text.byteLength cs := by
  induction cs generalizing n with
  | nil => cases h
  | cons c cs ih =>
    have hc := c.utf8Size_pos
    simp only [startsAfter] at h
    simp only [Text.byteLength]
    split at h
    · rcases List.mem_cons.1 h with rfl | h
      · omega
      · have := ih h
        omega
    · have := ih h
      omega

/-- The line starts up to a character boundary are those of the text in front of it. -/
theorem starts_takeWhile (front back : List Char) :
    (ofChars (front ++ back)).starts.takeWhile (· ≤ Text.byteLength front) =
      0 :: startsAfter 0 front := by
  have hin : ∀ i ∈ 0 :: startsAfter 0 front, decide (i ≤ Text.byteLength front) = true := by
    intro i hi
    rcases List.mem_cons.1 hi with rfl | hi
    · exact decide_eq_true (Nat.zero_le _)
    · have := (le_of_mem_startsAfter hi).2
      exact decide_eq_true (by omega)
  change (0 :: startsAfter 0 (front ++ back)).takeWhile _ = _
  rw [startsAfter_append, ← List.cons_append, List.takeWhile_append_of_pos hin, Nat.zero_add]
  have hout : (startsAfter (Text.byteLength front) back).takeWhile
      (decide <| · ≤ Text.byteLength front) = [] := by
    cases hs : startsAfter (Text.byteLength front) back with
    | nil => rfl
    | cons i rest =>
      have hi := (le_of_mem_startsAfter (hs ▸ List.mem_cons_self)).1
      exact List.takeWhile_cons_of_neg (by simpa using hi)
  rw [hout, List.append_nil]

/-- The last line of a text, and the text in front of it. -/
theorem exists_lastLine (cs : List Char) :
    ∃ front line, cs = front ++ line ∧
      (0 :: startsAfter 0 cs).getLast?.getD 0 = Text.byteLength front ∧
      LineCol.after cs =
        ⟨(startsAfter 0 cs).length.toUInt32, (Text.unitLength line).toUInt32⟩ := by
  induction cs using List.reverseRecOn with
  | nil => exact ⟨[], [], rfl, rfl, rfl⟩
  | append_singleton cs c ih =>
    obtain ⟨front, line, hcs, hlast, hafter⟩ := ih
    rw [LineCol.after_concat, LineCol.advance, hafter, startsAfter_append, Nat.zero_add]
    simp only [startsAfter]
    by_cases hc : c = '\n'
    · refine ⟨cs ++ [c], [], (List.append_nil _).symm, ?_, ?_⟩
      · rw [if_pos hc, ← List.cons_append, List.getLast?_concat, Text.byteLength_append]
        rfl
      · rw [if_pos hc, if_pos hc, List.length_append]
        simp only [Nat.toUInt32, UInt32.ofNat_add, List.length_singleton, Text.unitLength]
        rfl
    · refine ⟨front, line ++ [c], ?_, ?_, ?_⟩
      · rw [hcs, List.append_assoc]
      · rw [if_neg hc, List.append_nil, hlast]
      · rw [if_neg hc, if_neg hc, List.append_nil, Text.unitLength_append]
        simp only [Nat.toUInt32, UInt32.ofNat_add, Text.unitLength, Nat.add_zero]

/-- The position of a character boundary is the one behind the text in front of it. -/
theorem unitLineCol?_append (front back : List Char) :
    (ofChars (front ++ back)).unitLineCol? (front ++ back) (Text.byteLength front) =
      some (LineCol.after front) := by
  obtain ⟨x, line, rfl, hlast, hafter⟩ := exists_lastLine front
  have hsize : ¬ (ofChars (x ++ line ++ back)).size < Text.byteLength (x ++ line) := by
    change ¬ Text.byteLength (x ++ line ++ back) < _
    rw [Text.byteLength_append (x ++ line)]
    omega
  unfold unitLineCol?
  rw [if_neg hsize, lineAt, starts_takeWhile]
  simp only [hlast, Text.byteLength_append, List.append_assoc, Text.slice?_byteLength]
  simp only [Option.map_some, List.length_cons, Nat.add_sub_cancel, hafter]

theorem unitLineCol?_eq_some_iff {cs : List Char} {n : Nat} {p : LineCol} :
    (ofChars cs).unitLineCol? cs n = some p ↔
      ∃ front back, cs = front ++ back ∧ n = Text.byteLength front ∧ p = LineCol.after front := by
  constructor
  · intro h
    have hn : Text.IsBoundary cs n := by
      unfold unitLineCol? at h
      split at h
      · cases h
      · obtain ⟨line, hline, -⟩ := Option.map_eq_some_iff.1 h
        obtain ⟨front, back, rfl, hstart, hstop⟩ := Text.slice?_eq_some_iff.1 hline
        refine ⟨front ++ line, back, (List.append_assoc _ _ _).symm, ?_⟩
        rw [hstop, hstart, Text.byteLength_append]
    obtain ⟨front, back, rfl, rfl⟩ := hn
    rw [unitLineCol?_append] at h
    exact ⟨front, back, rfl, rfl, (Option.some.inj h).symm⟩
  · rintro ⟨front, back, rfl, rfl, rfl⟩
    exact unitLineCol?_append front back

end LineIndex

namespace Text

/-- The position of a character boundary. -/
abbrev position? (cs : List Char) (n : Nat) : Option LineCol :=
  (LineIndex.ofChars cs).unitLineCol? cs n

theorem exists_position? {cs : List Char} {n : Nat} (h : IsBoundary cs n) :
    ∃ p, position? cs n = some p := by
  obtain ⟨front, back, rfl, rfl⟩ := h
  exact ⟨_, LineIndex.unitLineCol?_append front back⟩

theorem position?_eq_none {cs : List Char} {n : Nat} (h : ¬ IsBoundary cs n) :
    position? cs n = none := by
  refine Option.eq_none_iff_forall_ne_some.2 fun p hp => h ?_
  obtain ⟨front, back, hcs, hn, -⟩ := LineIndex.unitLineCol?_eq_some_iff.1 hp
  exact ⟨front, back, hcs, hn⟩

theorem position?_lt {cs : List Char} {i j : Nat} {p q : LineCol}
    (h : byteLength cs < UInt32.size) (hp : position? cs i = some p)
    (hq : position? cs j = some q) (hij : i < j) : p < q := by
  obtain ⟨a, b, rfl, rfl, rfl⟩ := LineIndex.unitLineCol?_eq_some_iff.1 hp
  obtain ⟨c, d, hcd, rfl, rfl⟩ := LineIndex.unitLineCol?_eq_some_iff.1 hq
  obtain ⟨m, rfl, -⟩ := exists_middle hcd (Nat.le_of_lt hij)
  apply LineCol.after_lt
  · rw [hcd, byteLength_append] at h
    omega
  · rintro rfl
    rw [List.append_nil] at hij
    exact Nat.lt_irrefl _ hij

theorem position?_le_iff {cs : List Char} {i j : Nat} {p q : LineCol}
    (h : byteLength cs < UInt32.size) (hp : position? cs i = some p)
    (hq : position? cs j = some q) : p ≤ q ↔ i ≤ j := by
  constructor
  · intro hpq
    by_contra hij
    exact (LineCol.not_le_iff _ _).2 (position?_lt h hq hp (Nat.lt_of_not_le hij)) hpq
  · intro hij
    rcases Nat.lt_or_eq_of_le hij with hlt | rfl
    · exact LineCol.le_of_lt (position?_lt h hp hq hlt)
    · rw [hp] at hq
      cases hq
      exact LineCol.le_refl p

theorem position?_eq_iff {cs : List Char} {i j : Nat} {p q : LineCol}
    (h : byteLength cs < UInt32.size) (hp : position? cs i = some p)
    (hq : position? cs j = some q) : p = q ↔ i = j := by
  constructor
  · rintro rfl
    exact Nat.le_antisymm ((position?_le_iff h hp hq).1 (LineCol.le_refl _))
      ((position?_le_iff h hq hp).1 (LineCol.le_refl _))
  · rintro rfl
    rw [hp] at hq
    exact Option.some.inj hq

/-- Without a line end on the way, a place is on the line of the places in front of it. -/
theorem position?_line {front inside back : List Char} {n : Nat} {p : LineCol}
    (hp : position? (front ++ (inside ++ back)) n = some p) (hline : '\n' ∉ inside)
    (hle : byteLength front ≤ n) (hn : n ≤ byteLength front + byteLength inside) :
    p.line = (LineCol.after (front ++ inside)).line := by
  obtain ⟨x, y, hxy, rfl, rfl⟩ := LineIndex.unitLineCol?_eq_some_iff.1 hp
  obtain ⟨m, rfl, hm⟩ := exists_middle hxy hle
  rw [byteLength_append] at hn
  obtain ⟨m', rfl, -⟩ := exists_middle hm.symm (Nat.le_of_add_le_add_left hn)
  rw [List.mem_append, not_or] at hline
  rw [← List.append_assoc, LineCol.after_line_append hline.2]

theorem isIn_of_position? {cs : List Char} {n : Nat} {p : LineCol} (hp : position? cs n = some p)
    (h : byteLength cs < UInt32.size) : p.IsIn cs := by
  obtain ⟨front, back, rfl, -, rfl⟩ := LineIndex.unitLineCol?_eq_some_iff.1 hp
  refine ⟨LineCol.after_le h, ?_⟩
  rw [byteLength_append]
  exact Nat.le_add_right_of_le (LineCol.after_toNat_le front).2

/-- In a text that holds another one, positions of that count from where it starts. -/
theorem position?_shift {cs : List Char} {n : Nat} (hn : n ≤ byteLength cs)
    (h : byteLength cs < UInt32.size) (front back : List Char) :
    position? (front ++ (cs ++ back)) (byteLength front + n) =
      (position? cs n).map (·.moved (LineCol.after front)) := by
  ext p
  simp only [Option.map_eq_some_iff, LineIndex.unitLineCol?_eq_some_iff]
  constructor
  · rintro ⟨x, y, hxy, hx, rfl⟩
    obtain ⟨m, rfl, hm⟩ := exists_middle hxy (by omega)
    rw [byteLength_append] at hx
    obtain ⟨m', rfl, -⟩ := exists_middle hm.symm (by omega)
    refine ⟨_, ⟨m, m', rfl, by omega, rfl⟩, (LineCol.after_append ?_).symm⟩
    rw [byteLength_append] at h
    omega
  · rintro ⟨_, ⟨m, m', rfl, rfl, rfl⟩, rfl⟩
    refine ⟨front ++ m, m' ++ back, ?_, ?_, (LineCol.after_append ?_).symm⟩
    · simp only [List.append_assoc]
    · rw [byteLength_append]
    · rw [byteLength_append] at h
      omega

/-- A place in a text that stands in another one is told there exactly. -/
theorem exists_position?_shift {front cs back : List Char} {n : Nat} {p : LineCol}
    (hp : position? cs n = some p) (h : byteLength (front ++ (cs ++ back)) < UInt32.size) :
    ∃ q, p.relativeTo (LineCol.after front) = .ok q ∧
      position? (front ++ (cs ++ back)) (byteLength front + n) = some q := by
  have hfront : byteLength (front ++ cs) < UInt32.size := by
    rw [← List.append_assoc, byteLength_append] at h
    omega
  have hcs : byteLength cs < UInt32.size := by
    rw [byteLength_append] at hfront
    omega
  obtain ⟨x, y, hxy, rfl, -⟩ := LineIndex.unitLineCol?_eq_some_iff.1 hp
  refine ⟨_, LineCol.relativeTo_of_fits
    (LineCol.fits_of_isIn (isIn_of_position? hp hcs) hfront), ?_⟩
  rw [position?_shift (by rw [hxy, byteLength_append]; omega) hcs, hp, Option.map_some]

end Text

end ComponentBuild
