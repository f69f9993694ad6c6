import ComponentBuild.Proofs.Position.LineIndex
import ComponentBuild.Proofs.Text.Split
import Mathlib.Data.List.TakeWhile

namespace ComponentBuild

namespace Text

/-- The lines of a text, without the ends of lines between them. -/
def lines (cs : List Char) : List (List Char) := splitOn '\n' cs

/-- A line of a text, by its number and with what stands in front of it and behind it. -/
structure IsLine (cs : List Char) (i : Nat) (front line back : List Char) : Prop where
  text : cs = front ++ (line ++ back)
  number : front.count '\n' = i
  starts : front = [] ∨ ∃ f, front = f ++ ['\n']
  plain : '\n' ∉ line
  ends : back = [] ∨ ∃ b, back = '\n' :: b

theorem lines_length (cs : List Char) : (lines cs).length = cs.count '\n' + 1 := by
  induction cs with
  | nil => rfl
  | cons c cs ih =>
    obtain ⟨line, others, hlines⟩ := List.exists_cons_of_ne_nil (splitOn_ne_nil '\n' cs)
    unfold lines at ih ⊢
    rw [splitOn]
    split
    next hc => rw [List.length_cons, ih, hc, List.count_cons_self]
    next hc =>
      rw [hlines] at ih ⊢
      rw [List.count_cons_of_ne hc, ← ih]
      rfl

section

variable {cs front line back : List Char} {i : Nat} {c : Char}

/-- An end of a line in front of a text makes its lines later ones. -/
theorem IsLine.cons_end (h : IsLine cs i front line back) :
    IsLine ('\n' :: cs) (i + 1) ('\n' :: front) line back := by
  refine ⟨by rw [h.text]; rfl, ?_, ?_, h.plain, h.ends⟩
  · rw [List.count_cons_self, h.number]
  · right
    rcases h.starts with rfl | ⟨f, rfl⟩
    · exact ⟨[], rfl⟩
    · exact ⟨'\n' :: f, rfl⟩

/-- Any other character in front of a text leaves all lines but the first alone. -/
theorem IsLine.cons_later (hc : c ≠ '\n') (h : IsLine cs (i + 1) front line back) :
    IsLine (c :: cs) (i + 1) (c :: front) line back := by
  refine ⟨by rw [h.text]; rfl, ?_, ?_, h.plain, h.ends⟩
  · rw [List.count_cons_of_ne hc, h.number]
  · right
    rcases h.starts with rfl | ⟨f, rfl⟩
    · cases h.number
    · exact ⟨c :: f, rfl⟩

theorem IsLine.front_eq_nil (h : IsLine cs 0 front line back) : front = [] := by
  rcases h.starts with rfl | ⟨f, rfl⟩
  · rfl
  · have hnumber := h.number
    rw [List.count_append, List.count_singleton_self] at hnumber
    omega

/-- The first line goes on to the front. -/
theorem IsLine.cons_first (hc : c ≠ '\n') (h : IsLine cs 0 front line back) :
    IsLine (c :: cs) 0 [] (c :: line) back := by
  refine ⟨by rw [h.text, h.front_eq_nil]; rfl, rfl, .inl rfl, ?_, h.ends⟩
  exact List.not_mem_cons_of_ne_of_not_mem (Ne.symm hc) h.plain

theorem exists_isLine (h : (lines cs)[i]? = some line) :
    ∃ front back, IsLine cs i front line back := by
  induction cs generalizing i line with
  | nil =>
    cases i with
    | zero =>
      cases h
      exact ⟨[], [], rfl, rfl, .inl rfl, List.not_mem_nil, .inl rfl⟩
    | succ i => cases h
  | cons c cs ih =>
    obtain ⟨first, others, hlines⟩ := List.exists_cons_of_ne_nil (splitOn_ne_nil '\n' cs)
    unfold lines at ih h
    rw [splitOn] at h
    by_cases hc : c = '\n'
    · rw [if_pos hc] at h
      subst hc
      cases i with
      | zero =>
        cases h
        exact ⟨[], '\n' :: cs, rfl, rfl, .inl rfl, List.not_mem_nil, .inr ⟨cs, rfl⟩⟩
      | succ i =>
        obtain ⟨front, back, hline⟩ := ih h
        exact ⟨_, back, hline.cons_end⟩
    · rw [if_neg hc, hlines] at h
      rw [hlines] at ih
      cases i with
      | zero =>
        cases h
        obtain ⟨front, back, hline⟩ := ih (i := 0) rfl
        exact ⟨[], back, hline.cons_first hc⟩
      | succ i =>
        obtain ⟨front, back, hline⟩ := ih (i := i + 1) h
        exact ⟨_, back, hline.cons_later hc⟩

end

/-- The start of the line that a text ends with. -/
theorem exists_lineStart (cs : List Char) :
    ∃ front x, cs = front ++ x ∧ (front = [] ∨ ∃ f, front = f ++ ['\n']) ∧ '\n' ∉ x := by
  induction cs using List.reverseRecOn with
  | nil => exact ⟨[], [], rfl, .inl rfl, List.not_mem_nil⟩
  | append_singleton cs c ih =>
    obtain ⟨front, x, rfl, hstarts, hx⟩ := ih
    by_cases hc : c = '\n'
    · exact ⟨front ++ x ++ [c], [], (List.append_nil _).symm, .inr ⟨front ++ x, by rw [hc]⟩,
        List.not_mem_nil⟩
    · refine ⟨front, x ++ [c], List.append_assoc _ _ _, hstarts, ?_⟩
      rw [List.mem_append, List.mem_singleton, not_or]
      exact ⟨hx, Ne.symm hc⟩

/-- The end of the line that a text starts with. -/
theorem exists_lineEnd (cs : List Char) :
    ∃ y back, cs = y ++ back ∧ '\n' ∉ y ∧ (back = [] ∨ ∃ b, back = '\n' :: b) := by
  induction cs with
  | nil => exact ⟨[], [], rfl, List.not_mem_nil, .inl rfl⟩
  | cons c cs ih =>
    obtain ⟨y, back, rfl, hy, hends⟩ := ih
    by_cases hc : c = '\n'
    · exact ⟨[], c :: (y ++ back), rfl, List.not_mem_nil, .inr ⟨y ++ back, by rw [hc]⟩⟩
    · exact ⟨c :: y, back, rfl, List.not_mem_cons_of_ne_of_not_mem (Ne.symm hc) hy, hends⟩

/-- Every place of a text is on a line. -/
theorem exists_isLine_at (a b : List Char) :
    ∃ i front x y back, IsLine (a ++ b) i front (x ++ y) back ∧ a = front ++ x := by
  obtain ⟨front, x, rfl, hstarts, hx⟩ := exists_lineStart a
  obtain ⟨y, back, rfl, hy, hends⟩ := exists_lineEnd b
  refine ⟨_, front, x, y, back, ⟨by simp only [List.append_assoc], rfl, hstarts, ?_, hends⟩, rfl⟩
  rw [List.mem_append, not_or]
  exact ⟨hx, hy⟩

theorem count_le_byteLength (c : Char) (cs : List Char) : cs.count c ≤ byteLength cs := by
  induction cs with
  | nil => exact Nat.zero_le _
  | cons d cs ih =>
    have hd := d.utf8Size_pos
    rw [List.count_cons, byteLength_cons]
    split <;> omega

theorem unitLength_le (cs : List Char) : unitLength cs ≤ byteLength cs := by
  induction cs with
  | nil => exact Nat.zero_le _
  | cons c cs ih => exact Nat.add_le_add (units_le c) ih

variable {cs front line back : List Char} {i : Nat}

/-- Behind each line but the last one there is another one. -/
theorem IsLine.lt_length_iff (h : IsLine cs i front line back) :
    i + 1 < (lines cs).length ↔ back ≠ [] := by
  have hline := List.count_eq_zero.2 h.plain
  rw [lines_length, h.text, List.count_append, List.count_append, h.number, hline]
  rcases h.ends with rfl | ⟨b, rfl⟩
  · simp
  · rw [List.count_cons_self]
    simp only [ne_eq, reduceCtorEq, not_false_eq_true, iff_true]
    omega

end Text

namespace LineCol

theorem after_line (cs : List Char) : (after cs).line = (cs.count '\n').toUInt32 := by
  induction cs using List.reverseRecOn with
  | nil => rfl
  | append_singleton cs c ih =>
    rw [after_concat, advance, List.count_append]
    by_cases hc : c = '\n'
    · rw [if_pos hc, ih, hc, List.count_singleton_self]
      simp only [Nat.toUInt32, UInt32.ofNat_add]
      rfl
    · rw [if_neg hc, ih, List.count_singleton, beq_eq_false_iff_ne.2 hc]
      rfl

end LineCol

namespace Text.IsLine

variable {cs front line back x y : List Char} {i : Nat}

/-- The position behind text of a line. -/
theorem after (h : IsLine cs i front line back) (hline : line = x ++ y) :
    LineCol.after (front ++ x) = ⟨i.toUInt32, (unitLength x).toUInt32⟩ := by
  have hx : '\n' ∉ x := by
    have hplain := h.plain
    rw [hline, List.mem_append, not_or] at hplain
    exact hplain.1
  clear hline
  induction x using List.reverseRecOn with
  | nil =>
    rw [List.append_nil, ← h.number, ← LineCol.after_line]
    rcases h.starts with rfl | ⟨f, rfl⟩
    · rfl
    · rw [LineCol.after_concat, LineCol.advance, if_pos rfl]
      rfl
  | append_singleton x c ih =>
    rw [List.mem_append, List.mem_singleton, not_or] at hx
    rw [← List.append_assoc, LineCol.after_concat, LineCol.advance, ih hx.1, if_neg (Ne.symm hx.2),
      unitLength_append]
    simp only [Nat.toUInt32, UInt32.ofNat_add, unitLength, Nat.add_zero]

theorem position? (h : IsLine cs i front line back) (hline : line = x ++ y) :
    Text.position? cs (byteLength front + byteLength x) =
      some ⟨i.toUInt32, (unitLength x).toUInt32⟩ := by
  have htext : cs = front ++ x ++ (y ++ back) := by
    rw [h.text, hline]
    simp only [List.append_assoc]
  rw [htext, ← byteLength_append, ← h.after hline]
  exact LineIndex.unitLineCol?_append _ _

/-- Behind the end of a line the next one starts. -/
theorem position?_next (h : IsLine cs i front line ('\n' :: back)) :
    Text.position? cs (byteLength front + byteLength (line ++ ['\n'])) =
      some ⟨i.toUInt32 + 1, 0⟩ := by
  have htext : cs = front ++ line ++ ['\n'] ++ back := by
    rw [h.text]
    simp only [List.append_assoc, List.singleton_append]
  have hafter : LineCol.after (front ++ line ++ ['\n']) = ⟨i.toUInt32 + 1, 0⟩ := by
    rw [LineCol.after_concat, LineCol.advance, if_pos rfl, h.after (List.append_nil line).symm]
  rw [htext, ← byteLength_append, ← List.append_assoc, ← hafter]
  exact LineIndex.unitLineCol?_append _ _

end Text.IsLine

namespace LineIndex

variable {cs front line back : List Char} {i : Nat}

theorem startsAfter_length (n : Nat) (cs : List Char) :
    (startsAfter n cs).length = cs.count '\n' := by
  induction cs generalizing n with
  | nil => rfl
  | cons c cs ih =>
    simp only [startsAfter]
    split
    next hc => rw [List.length_cons, ih, hc, List.count_cons_self]
    next hc => rw [ih, List.count_cons_of_ne hc]

theorem starts_getElem? (hfront : front = [] ∨ ∃ f, front = f ++ ['\n']) (back : List Char) :
    (ofChars (front ++ back)).starts[front.count '\n']? = some (Text.byteLength front) := by
  rcases hfront with rfl | ⟨f, rfl⟩
  · rfl
  · have hstarts : startsAfter 0 (f ++ ['\n'] ++ back) =
        startsAfter 0 f ++ Text.byteLength (f ++ ['\n']) ::
          startsAfter (Text.byteLength (f ++ ['\n'])) back := by
      rw [startsAfter_append, startsAfter_append, List.append_assoc]
      simp only [startsAfter, Nat.zero_add, Text.byteLength_append, if_true, List.singleton_append]
      rfl
    have hlength := startsAfter_length 0 f
    unfold ofChars
    rw [hstarts, List.count_append, List.count_singleton_self, ← hlength]
    simp only [List.getElem?_cons_succ, List.getElem?_append_right, Nat.le_refl, Nat.sub_self,
      List.getElem?_cons_zero]

theorem start_of_isLine (h : Text.IsLine cs i front line back) :
    (ofChars cs).starts[i]? = some (Text.byteLength front) := by
  rw [h.text, ← h.number]
  exact starts_getElem? h.starts _

/-- A line stops where the next one starts, or at the end of the text. -/
theorem stop_of_isLine (h : Text.IsLine cs i front line back) :
    ((ofChars cs).starts[i + 1]?).getD (ofChars cs).size =
      Text.byteLength front + Text.byteLength (line ++ back.take 1) := by
  have hline := List.count_eq_zero.2 h.plain
  rcases h.ends with rfl | ⟨b, rfl⟩
  · have hlength : (ofChars cs).starts.length = i + 1 := by
      change (0 :: startsAfter 0 cs).length = _
      rw [List.length_cons, startsAfter_length, h.text, List.append_nil, List.count_append,
        h.number, hline]
    rw [List.getElem?_eq_none (Nat.le_of_eq hlength), Option.getD_none]
    change Text.byteLength cs = _
    rw [h.text, Text.byteLength_append]
    rfl
  · have htext : cs = front ++ line ++ ['\n'] ++ b := by
      rw [h.text]
      simp only [List.append_assoc, List.singleton_append]
    have hcount : (front ++ line ++ ['\n']).count '\n' = i + 1 := by
      rw [List.count_append, List.count_append, h.number, hline, List.count_singleton_self]
    have hstart := starts_getElem? (.inr ⟨front ++ line, rfl⟩) b
    rw [hcount, ← htext] at hstart
    rw [hstart, Option.getD_some, List.append_assoc, Text.byteLength_append]
    rfl

theorem bytesBefore_of_le {cs : List Char} {col units : Nat} (h : col ≤ units) :
    bytesBefore cs col units = 0 := by
  cases cs with
  | nil => rfl
  | cons c cs => rw [bytesBefore, if_pos h]

theorem bytesBefore_append {col units : Nat} (front back : List Char)
    (h : units + Text.unitLength front ≤ col) :
    bytesBefore (front ++ back) col units =
      Text.byteLength front + bytesBefore back col (units + Text.unitLength front) := by
  induction front generalizing units with
  | nil =>
    rw [List.nil_append, Text.byteLength_nil, Nat.zero_add]
    rfl
  | cons c front ih =>
    have hc := Text.units_pos c
    simp only [Text.unitLength] at h
    have hrest : units + Text.units c + Text.unitLength front ≤ col := by omega
    rw [List.cons_append, bytesBefore, if_neg (by omega), ih hrest, Text.byteLength_cons,
      Text.unitLength]
    simp only [Nat.add_assoc]

/-- The offset of a position on a line is looked for in the line and its end. -/
theorem unitOffset?_of_isLine {p : LineCol} (h : Text.IsLine cs i front line back)
    (hp : p.line.toNat = i) :
    (ofChars cs).unitOffset? cs p =
      some (Text.byteLength front + bytesBefore (line ++ back.take 1) p.col.toNat 0) := by
  have htext : cs = front ++ ((line ++ back.take 1) ++ back.drop 1) := by
    rw [List.append_assoc, List.take_append_drop]
    exact h.text
  have hslice : Text.slice? cs (Text.byteLength front)
      (Text.byteLength front + Text.byteLength (line ++ back.take 1)) =
        some (line ++ back.take 1) :=
    Text.slice?_eq_some_iff.2 ⟨front, back.drop 1, htext, rfl, rfl⟩
  unfold unitOffset?
  rw [hp, start_of_isLine h, Option.bind_some]
  simp only [stop_of_isLine h, hslice, Option.map_some]

section

variable {p : LineCol}

/-- A place that the column names is found. -/
theorem unitOffset?_of_col_eq (h : Text.IsLine cs i front line back) (hp : p.line.toNat = i)
    {x y : List Char} (hline : line = x ++ y) (hcol : p.col.toNat = Text.unitLength x) :
    (ofChars cs).unitOffset? cs p = some (Text.byteLength front + Text.byteLength x) := by
  have hx : 0 + Text.unitLength x ≤ p.col.toNat := by omega
  rw [unitOffset?_of_isLine h hp, hline, List.append_assoc, bytesBefore_append x _ hx,
    bytesBefore_of_le (by omega), Nat.add_zero]

/-- From inside a character on one goes to the end of it. -/
theorem unitOffset?_of_lt_col (h : Text.IsLine cs i front line back) (hp : p.line.toNat = i)
    {x y : List Char} {c : Char} (hline : line = x ++ c :: y)
    (hlt : Text.unitLength x < p.col.toNat) (hle : p.col.toNat ≤ Text.unitLength (x ++ [c])) :
    (ofChars cs).unitOffset? cs p = some (Text.byteLength front + Text.byteLength (x ++ [c])) := by
  rw [Text.unitLength_append] at hle
  simp only [Text.unitLength] at hle
  rw [unitOffset?_of_isLine h hp, hline, List.append_assoc, bytesBefore_append x _ (by omega),
    List.cons_append, bytesBefore, if_neg (by omega), bytesBefore_of_le (by omega),
    Text.byteLength_append]
  rfl

/-- Behind the text of a line one goes on to where the next line starts. -/
theorem unitOffset?_of_unitLength_lt (h : Text.IsLine cs i front line back)
    (hp : p.line.toNat = i) (hlt : Text.unitLength line < p.col.toNat) :
    (ofChars cs).unitOffset? cs p =
      some (Text.byteLength front + Text.byteLength (line ++ back.take 1)) := by
  have hends : Text.unitLength (back.take 1) ≤ 1 := by
    rcases h.ends with rfl | ⟨b, rfl⟩
    · exact Nat.zero_le _
    · exact Nat.le_refl _
  have hwhole : 0 + Text.unitLength (line ++ back.take 1) ≤ p.col.toNat := by
    rw [Text.unitLength_append]
    omega
  have hbytes := bytesBefore_append (line ++ back.take 1) [] hwhole
  rw [List.append_nil] at hbytes
  rw [unitOffset?_of_isLine h hp, hbytes]
  rfl

end

/-- The line of an offset is the last one that starts at or in front of it. -/
theorem lineAt_start (cs : List Char) (n : Nat) :
    (ofChars cs).starts[((ofChars cs).lineAt n).1]? = some ((ofChars cs).lineAt n).2 ∧
      ((ofChars cs).lineAt n).2 ≤ n := by
  let before := (ofChars cs).starts.takeWhile (· ≤ n)
  have hne : before ≠ [] := by
    have hcons : before = 0 :: (startsAfter 0 cs).takeWhile (· ≤ n) :=
      List.takeWhile_cons_of_pos (decide_eq_true (Nat.zero_le n))
    rw [hcons]
    exact List.cons_ne_nil _ _
  have hlast : ((ofChars cs).lineAt n).2 = before.getLast hne := by
    change before.getLast?.getD 0 = _
    rw [List.getLast?_eq_getLast_of_ne_nil hne, Option.getD_some]
  constructor
  · have hlt : before.length - 1 < before.length :=
      Nat.sub_lt (List.length_pos_iff.2 hne) Nat.one_pos
    have hprefix := (List.takeWhile_prefix (l := (ofChars cs).starts) (· ≤ n)).getElem hlt
    rw [hlast, List.getLast_eq_getElem hne]
    exact List.getElem?_eq_some_iff.2 ⟨_, hprefix.symm⟩
  · have hmem : before.getLast hne ∈ before := List.getLast_mem hne
    rw [hlast]
    exact of_decide_eq_true (List.mem_takeWhile_imp (p := (decide <| · ≤ n)) hmem)

theorem lineAt_mono (index : LineIndex) {m n : Nat} (h : m ≤ n) :
    (index.lineAt m).1 ≤ (index.lineAt n).1 := by
  have hboth : index.starts.takeWhile (· ≤ m) =
      (index.starts.takeWhile (· ≤ n)).takeWhile (· ≤ m) := by
    rw [List.takeWhile_takeWhile]
    congr 1
    funext i
    simp only [decide_eq_true_eq, decide_eq_decide]
    omega
  have hle := (List.takeWhile_prefix (l := index.starts.takeWhile (· ≤ n)) (· ≤ m)).length_le
  rw [← hboth] at hle
  exact Nat.sub_le_sub_right hle 1

/-- An offset of a text has a position, which holds the number and the start of its line in words
that do not wrap. -/
theorem lineCol?_of_le {cs : List Char} {n : Nat} (h : Text.byteLength cs < UInt32.size)
    (hn : n ≤ Text.byteLength cs) :
    ∃ p, (ofChars cs).lineCol? n = some p ∧ p.line.toNat = ((ofChars cs).lineAt n).1 ∧
      p.col.toNat = n - ((ofChars cs).lineAt n).2 := by
  have hline : ((ofChars cs).lineAt n).1 < UInt32.size := by
    obtain ⟨hlt, -⟩ := List.getElem?_eq_some_iff.1 (lineAt_start cs n).1
    have hlength : (ofChars cs).starts.length = cs.count '\n' + 1 := by
      rw [← startsAfter_length 0 cs]
      rfl
    have hcount := Text.count_le_byteLength '\n' cs
    omega
  have hcol : n - ((ofChars cs).lineAt n).2 < UInt32.size := by omega
  refine ⟨_, if_neg (Nat.not_lt.2 hn), ?_, ?_⟩
  · exact UInt32.toNat_ofNat_of_lt' hline
  · exact UInt32.toNat_ofNat_of_lt' hcol

theorem offset?_lineCol? {cs : List Char} {n : Nat} {p : LineCol}
    (h : Text.byteLength cs < UInt32.size) (hn : n ≤ Text.byteLength cs)
    (hp : (ofChars cs).lineCol? n = some p) : (ofChars cs).offset? p = .ok (some n) := by
  obtain ⟨q, hq, hline, hcol⟩ := lineCol?_of_le h hn
  obtain rfl : q = p := Option.some.inj (hq.symm.trans hp)
  obtain ⟨hstart, hle⟩ := lineAt_start cs n
  unfold offset?
  rw [hline, hcol, hstart, Option.mapM_some, Nat.add_sub_cancel' hle, fitting_of_lt (by omega)]
  rfl

theorem le_of_lineCol? {cs : List Char} {n : Nat} {p : LineCol}
    (h : (ofChars cs).lineCol? n = some p) : n ≤ Text.byteLength cs := by
  unfold lineCol? at h
  split at h
  · cases h
  next hn => exact Nat.le_of_not_lt hn

theorem lineCol?_lt {cs : List Char} {m n : Nat} {p q : LineCol}
    (h : Text.byteLength cs < UInt32.size) (hp : (ofChars cs).lineCol? m = some p)
    (hq : (ofChars cs).lineCol? n = some q) (hmn : m < n) : p < q := by
  have hn := le_of_lineCol? hq
  obtain ⟨p', hp', hpline, hpcol⟩ := lineCol?_of_le h (Nat.le_trans (Nat.le_of_lt hmn) hn)
  obtain ⟨q', hq', hqline, hqcol⟩ := lineCol?_of_le h hn
  obtain rfl : p' = p := Option.some.inj (hp'.symm.trans hp)
  obtain rfl : q' = q := Option.some.inj (hq'.symm.trans hq)
  obtain ⟨hpstart, hple⟩ := lineAt_start cs m
  obtain ⟨hqstart, -⟩ := lineAt_start cs n
  have hmono := lineAt_mono (ofChars cs) (Nat.le_of_lt hmn)
  rw [LineCol.lt_iff]
  simp only [UInt32.lt_iff_toNat_lt, ← UInt32.toNat_inj, hpline, hqline, hpcol, hqcol]
  rcases Nat.lt_or_eq_of_le hmono with hlt | heq
  · exact .inl hlt
  · -- On one line both columns count from the same start.
    have hsame : ((ofChars cs).lineAt m).2 = ((ofChars cs).lineAt n).2 :=
      Option.some.inj (hpstart.symm.trans (heq ▸ hqstart))
    exact .inr ⟨heq, by omega⟩

theorem unitOffset?_unitLineCol? {cs : List Char} {n : Nat} {p : LineCol}
    (h : Text.byteLength cs < UInt32.size) (hp : (ofChars cs).unitLineCol? cs n = some p) :
    (ofChars cs).unitOffset? cs p = some n := by
  obtain ⟨a, b, rfl, rfl, rfl⟩ := unitLineCol?_eq_some_iff.1 hp
  obtain ⟨i, front, x, y, back, hline, rfl⟩ := Text.exists_isLine_at a b
  have hfront := Text.count_le_byteLength '\n' front
  have hx := Text.unitLength_le x
  have hnumber := hline.number
  rw [Text.byteLength_append, Text.byteLength_append] at h
  rw [hline.after rfl, Text.byteLength_append]
  exact unitOffset?_of_col_eq hline (UInt32.toNat_ofNat_of_lt' (by omega)) rfl
    (UInt32.toNat_ofNat_of_lt' (by omega))

theorem unitLineCol?_unitOffset? {cs line x y : List Char} {p : LineCol}
    (hp : (Text.lines cs)[p.line.toNat]? = some line) (hline : line = x ++ y)
    (hcol : p.col.toNat = Text.unitLength x) :
    ∃ n, (ofChars cs).unitOffset? cs p = some n ∧
      (ofChars cs).unitLineCol? cs n = some p := by
  obtain ⟨front, back, h⟩ := Text.exists_isLine hp
  refine ⟨_, unitOffset?_of_col_eq h rfl hline hcol, ?_⟩
  have hposition := h.position? hline
  rw [← hcol] at hposition
  simpa only [Nat.toUInt32, UInt32.ofNat_toNat] using hposition

/-- Offsets and positions of a text below 4 GiB. With columns in bytes every offset has a position,
which leads back to it, and later offsets have later positions. With columns in UTF-16 units the
same holds of the character boundaries, and no other offset has a position; and each position that
names a place on a line, by what stands in front of it there, has an offset with that position. -/
theorem positions_of_offsets (cs : List Char) (h : Text.byteLength cs < UInt32.size) :
    let index := ofChars cs
    (∀ n ≤ Text.byteLength cs, ∃ p, index.lineCol? n = some p ∧ index.offset? p = .ok (some n)) ∧
    (∀ m n p q, index.lineCol? m = some p → index.lineCol? n = some q → m < n → p < q) ∧
    (∀ n, (∃ p, index.unitLineCol? cs n = some p) ↔ Text.IsBoundary cs n) ∧
    (∀ m n p q, index.unitLineCol? cs m = some p → index.unitLineCol? cs n = some q → m < n →
      p < q) ∧
    (∀ n p, index.unitLineCol? cs n = some p → index.unitOffset? cs p = some n) ∧
    ∀ p line front back, (Text.lines cs)[p.line.toNat]? = some line → line = front ++ back →
      p.col.toNat = Text.unitLength front →
      ∃ n, index.unitOffset? cs p = some n ∧ index.unitLineCol? cs n = some p := by
  refine ⟨?_, ?_, ?_, ?_, ?_, ?_⟩
  · intro n hn
    obtain ⟨p, hp, -⟩ := lineCol?_of_le h hn
    exact ⟨p, hp, offset?_lineCol? h hn hp⟩
  · intro m n p q hp hq hmn
    exact lineCol?_lt h hp hq hmn
  · intro n
    constructor
    · rintro ⟨p, hp⟩
      obtain ⟨front, back, hcs, hn, -⟩ := unitLineCol?_eq_some_iff.1 hp
      exact ⟨front, back, hcs, hn⟩
    · exact Text.exists_position?
  · intro m n p q hp hq hmn
    exact Text.position?_lt h hp hq hmn
  · intro n p hp
    exact unitOffset?_unitLineCol? h hp
  · intro p line front back hp hline hcol
    exact unitLineCol?_unitOffset? hp hline hcol

/-- The end of a line with characters of one, two and four bytes. -/
theorem positions_of_offsets_of_lineEnd :
    Text.byteLength "é😀\n\nx".toList < UInt32.size ∧
      (ofText "é😀\n\nx").unitOffset? "é😀\n\nx".toList ⟨0, 3⟩ = some 6 := by
  have hsize : Text.byteLength "é😀\n\nx".toList < UInt32.size := by decide
  have hposition : (ofText "é😀\n\nx").unitLineCol? "é😀\n\nx".toList 6 = some ⟨0, 3⟩ := by decide
  obtain ⟨-, -, -, -, hback, -⟩ := positions_of_offsets "é😀\n\nx".toList hsize
  exact ⟨hsize, hback 6 ⟨0, 3⟩ hposition⟩

end LineIndex

end ComponentBuild
