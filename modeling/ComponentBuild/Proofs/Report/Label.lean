import ComponentBuild.Proofs.Position.Lines
import ComponentBuild.Report.Render

namespace ComponentBuild

namespace Text

/-- A column of a line: a place between its characters, inside of one, or behind all. -/
theorem column_cases (line : List Char) (col : Nat) :
    (∃ front back, line = front ++ back ∧ unitLength front = col) ∨
    (∃ front c back, line = front ++ c :: back ∧ unitLength front < col ∧
      col < unitLength (front ++ [c])) ∨
    unitLength line < col := by
  induction line using List.reverseRecOn with
  | nil =>
    rcases Nat.eq_zero_or_pos col with rfl | hcol
    · exact .inl ⟨[], [], rfl, rfl⟩
    · exact .inr (.inr hcol)
  | append_singleton line c ih =>
    rcases ih with ⟨front, back, rfl, hcol⟩ | ⟨front, d, back, rfl, hlt, hgt⟩ | hlt
    · exact .inl ⟨front, back ++ [c], List.append_assoc _ _ _, hcol⟩
    · exact .inr (.inl ⟨front, d, back ++ [c], by simp, hlt, hgt⟩)
    · rcases Nat.lt_trichotomy (unitLength (line ++ [c])) col with hbehind | hend | hinside
      · exact .inr (.inr hbehind)
      · exact .inl ⟨line ++ [c], [], (List.append_nil _).symm, hend⟩
      · exact .inr (.inl ⟨line, c, [], rfl, hlt, hinside⟩)

end Text

namespace Report

variable {source front line back : List Char} {p : LineCol} {n : Nat}

/-- Where a column of a line leads: to the place that it names, from inside a character to the end
of that, and from behind the line to its end if the line is the last one, else to the next line. -/
structure Reaches (source line : List Char) (p : LineCol) (n : Nat) : Prop where
  named : ∀ x y, line = x ++ y → Text.unitLength x = p.col.toNat →
    Text.position? source n = some p
  inside : ∀ x c y, line = x ++ c :: y → Text.unitLength x < p.col.toNat →
    p.col.toNat < Text.unitLength (x ++ [c]) →
    Text.position? source n = some ⟨p.line, (Text.unitLength (x ++ [c])).toUInt32⟩
  behind : Text.unitLength line < p.col.toNat →
    Text.position? source n =
      some (if p.line.toNat + 1 = (Text.lines source).length then
          ⟨p.line, (Text.unitLength line).toUInt32⟩
        else ⟨p.line + 1, 0⟩)

theorem reaches_of_unitOffset? (h : Text.IsLine source p.line.toNat front line back)
    (hn : (LineIndex.ofChars source).unitOffset? source p = some n) :
    Reaches source line p n := by
  have hword : p.line.toNat.toUInt32 = p.line := UInt32.ofNat_toNat
  constructor
  · intro x y hline hcol
    rw [LineIndex.unitOffset?_of_col_eq h rfl hline hcol.symm] at hn
    obtain rfl := Option.some.inj hn
    have hcolumn : p.col.toNat.toUInt32 = p.col := UInt32.ofNat_toNat
    rw [h.position? hline, hword, hcol, hcolumn]
  · intro x c y hline hlt hgt
    rw [LineIndex.unitOffset?_of_lt_col h rfl hline hlt (Nat.le_of_lt hgt)] at hn
    obtain rfl := Option.some.inj hn
    have hends : line = (x ++ [c]) ++ y := by
      rw [hline, List.append_assoc]
      rfl
    rw [h.position? hends, hword]
  · intro hlt
    rw [LineIndex.unitOffset?_of_unitLength_lt h rfl hlt] at hn
    obtain rfl := Option.some.inj hn
    have hlast := h.lt_length_iff
    rw [Text.lines_length] at hlast ⊢
    rcases h.ends with rfl | ⟨b, rfl⟩
    · have hcount : p.line.toNat + 1 = source.count '\n' + 1 := by
        rw [h.text, List.append_nil, List.count_append, h.number, List.count_eq_zero.2 h.plain]
      rw [if_pos hcount, List.take_nil, List.append_nil, h.position? (List.append_nil line).symm,
        hword]
    · have hcount := hlast.2 (List.cons_ne_nil _ _)
      rw [if_neg (Nat.ne_of_lt hcount)]
      exact hword ▸ h.position?_next

/-- What keeps the place on the line. -/
theorem Reaches.exists_col (h : Reaches source line p n)
    (hcol : p.col.toNat ≤ Text.unitLength line ∨
      p.line.toNat + 1 = (Text.lines source).length) :
    ∃ col, Text.position? source n = some ⟨p.line, col⟩ := by
  rcases Text.column_cases line p.col.toNat with ⟨x, y, hline, hnamed⟩ |
    ⟨x, c, y, hline, hlt, hgt⟩ | hlt
  · exact ⟨_, h.named x y hline hnamed⟩
  · exact ⟨_, h.inside x c y hline hlt hgt⟩
  · have hlast := hcol.resolve_left (Nat.not_le.2 hlt)
    have hbehind := h.behind hlt
    rw [if_pos hlast] at hbehind
    exact ⟨_, hbehind⟩

theorem Reaches.le (h : Reaches source line p n) : n ≤ Text.byteLength source := by
  have hposition : ∃ q, Text.position? source n = some q := by
    rcases Text.column_cases line p.col.toNat with ⟨x, y, hline, hnamed⟩ |
      ⟨x, c, y, hline, hlt, hgt⟩ | hlt
    · exact ⟨_, h.named x y hline hnamed⟩
    · exact ⟨_, h.inside x c y hline hlt hgt⟩
    · exact ⟨_, h.behind hlt⟩
  obtain ⟨q, hq⟩ := hposition
  obtain ⟨a, b, hsource, hn, -⟩ := LineIndex.unitLineCol?_eq_some_iff.1 hq
  have hboundary : Text.IsBoundary source n := ⟨a, b, hsource, hn⟩
  exact hboundary.le

/-- Each position on a line of a document, however far its column goes, has an offset, and there
stands the label of an error at that position. It is on the line of the error, at the column or at
the end of the character around it, if the line goes as far, and at the end of the last line if that
does not. From behind any other line it is at the start of the next line. -/
theorem label_of_column (source line : List Char) (p : LineCol)
    (hline : (Text.lines source)[p.line.toNat]? = some line) :
    ∃ n, (LineIndex.ofChars source).unitOffset? source p = some n ∧ Reaches source line p n ∧
      (p.col.toNat ≤ Text.unitLength line ∨ p.line.toNat + 1 = (Text.lines source).length →
        ∃ col, Text.position? source n = some ⟨p.line, col⟩) ∧
      ∀ (e : DocumentError) (l : UInt32), e.line = some l → l ≠ 0 →
        p = ⟨l - 1, e.column.getD 0⟩ → errorPlace? source e = some n := by
  obtain ⟨front, back, h⟩ := Text.exists_isLine hline
  have hn := LineIndex.unitOffset?_of_isLine h rfl
  have hreaches := reaches_of_unitOffset? h hn
  refine ⟨_, hn, hreaches, hreaches.exists_col, ?_⟩
  intro e l he hl hp
  have hposition : e.position?.map ToolPosition.toLineCol = some p := by
    rw [DocumentError.position?, he, hp]
    simp only [Option.map_some, ToolPosition.toLineCol, if_neg hl]
  obtain ⟨q, hq, hqp⟩ := Option.map_eq_some_iff.1 hposition
  unfold errorPlace?
  rw [hq, Option.bind_some, hqp, hn, Option.map_some, Nat.min_eq_left hreaches.le]

/-- A column inside the second unit of a character. -/
theorem label_of_column_of_inside :
    (Text.lines "a😀b\nc".toList)[0]? = some "a😀b".toList ∧
      errorPlace? "a😀b\nc".toList ⟨"no", some 1, some 2⟩ = some 5 ∧
      ∃ col, Text.position? "a😀b\nc".toList 5 = some ⟨0, col⟩ := by
  have hline : (Text.lines "a😀b\nc".toList)[0]? = some "a😀b".toList := by decide
  obtain ⟨n, hn, -, hcol, hlabel⟩ := label_of_column "a😀b\nc".toList "a😀b".toList ⟨0, 2⟩ hline
  obtain rfl : 5 = n := Option.some.inj
    ((by decide : (LineIndex.ofChars "a😀b\nc".toList).unitOffset? "a😀b\nc".toList ⟨0, 2⟩ =
      some 5).symm.trans hn)
  exact ⟨hline, hlabel ⟨"no", some 1, some 2⟩ 1 rfl (by decide) rfl, hcol (.inl (by decide))⟩

/-- The label of an error behind the end of the first line is on the second. -/
theorem label_behind_line :
    (Text.lines "a\nb".toList)[0]? = some ['a'] ∧
      errorPlace? "a\nb".toList ⟨"no", some 1, some 9⟩ = some 2 ∧
      Text.position? "a\nb".toList 2 = some ⟨1, 0⟩ := by
  decide

end Report

end ComponentBuild
