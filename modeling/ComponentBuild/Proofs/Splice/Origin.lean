import ComponentBuild.Proofs.Splice.Lookup
import ComponentBuild.Proofs.Splice.Offset

namespace ComponentBuild

/-- The place of the original that is still marked where nothing is left of a span. -/
def Piece.leftover? (original : List Char) : Piece → Option LineCol
  | .replaced span text =>
    if text = "" ∧ span.start ≠ span.stop then Text.position? original span.start else none
  | _ => none

namespace Splice

/-- What is marked directly behind some pieces: the first leftover of those without text at their
end. -/
def leftoverBehind? (original : List Char) (before : List Piece) : Option LineCol :=
  (before.rtakeWhile (·.text = "")).findSome? (·.leftover? original)

/-- What is left of replaced text behind some pieces, where nothing stands in its place. -/
def leftoversBehind (original : List Char) (before : List Piece) : List LineCol :=
  (before.rtakeWhile (·.text = "")).filterMap (·.leftover? original)

theorem head?_leftoversBehind (original : List Char) (before : List Piece) :
    (leftoversBehind original before).head? = leftoverBehind? original before :=
  List.head?_filterMap

theorem leftoversBehind_concat (original : List Char) (before : List Piece) (piece : Piece) :
    leftoversBehind original (before ++ [piece]) =
      if piece.text = "" then
        leftoversBehind original before ++ (piece.leftover? original).toList
      else [] := by
  unfold leftoversBehind
  split
  next h =>
    rw [List.rtakeWhile_concat_pos _ _ _ (by simpa using h), List.filterMap_append]
    cases hleft : piece.leftover? original <;> simp [hleft]
  next h =>
    rw [List.rtakeWhile_concat_neg _ _ _ (by simpa using h)]
    rfl

theorem eq_zero_or_lt_length {original : List Char} {link : Link} {d : Nat}
    (hd : d ∈ anchors original link) : d = 0 ∨ d < link.generated.length := by
  unfold anchors at hd
  split at hd
  next old hold =>
    split at hd
    next hv =>
      obtain ⟨_, _, -, -, hstop⟩ := Text.slice?_eq_some_iff.1 hold
      have hlt := lt_of_mem_tokenStarts hd
      simp only [Link.isVerbatim, beq_iff_eq] at hv
      rw [hv, Span.length]
      omega
    next => exact .inl (List.mem_singleton.1 hd)
  next => exact .inl (List.mem_singleton.1 hd)

/-- A link with text is anchored at its start. -/
theorem zero_mem_anchors_of_lt (original : List Char) {link : Link}
    (h : link.generated.start < link.generated.stop) : 0 ∈ anchors original link := by
  unfold anchors
  split
  next old hold =>
    split
    next hv =>
      refine zero_mem_tokenStarts ?_
      rintro rfl
      obtain ⟨_, _, -, -, hstop⟩ := Text.slice?_eq_some_iff.1 hold
      rw [Text.byteLength_nil] at hstop
      simp only [Link.isVerbatim, Span.length, beq_iff_eq] at hv
      omega
    next => exact List.mem_singleton_self _
  next => exact List.mem_singleton_self _

theorem marks_within {piece : Piece} {original : List Char} {offset : Nat} {a : Mark}
    (ha : a ∈ piece.marks original offset) :
    offset ≤ a.generated ∧ (a.generated = offset ∨
      a.generated < offset + Text.byteLength piece.text.toList) := by
  cases piece with
  | copied start text =>
    obtain ⟨d, hd, rfl⟩ := List.mem_map.1 ha
    exact ⟨Nat.le_add_right _ _, .inr (Nat.add_lt_add_left (lt_of_mem_tokenStarts hd) _)⟩
  | replaced span text =>
    obtain ⟨d, hd, rfl⟩ := List.mem_map.1 ha
    refine ⟨Nat.le_add_right _ _, ?_⟩
    rcases eq_zero_or_lt_length hd with rfl | hlt
    · exact .inl rfl
    · rw [Span.length, Nat.add_sub_cancel_left] at hlt
      exact .inr (Nat.add_lt_add_left hlt _)
  | generated text =>
    simp only [Piece.marks] at ha
    split at ha
    · cases ha
    next => rw [List.mem_singleton.1 ha]; exact ⟨Nat.le_refl _, .inl rfl⟩
  | external text => cases ha

theorem marksFrom_within {pieces : List Piece} {original : List Char} {offset : Nat} {a : Mark}
    (ha : a ∈ marksFrom original offset pieces) :
    offset ≤ a.generated ∧ a.generated ≤ offset + size pieces := by
  obtain ⟨before, piece, after, rfl, hpiece⟩ := exists_of_mem_marksFrom ha
  have hwithin := marks_within hpiece
  rw [size_append, size_cons]
  omega

/-- Text without counterpart is marked at its start, which is not its end. -/
theorem marks_lt_of_none {piece : Piece} {original : List Char} {offset : Nat} {a : Mark}
    (ha : a ∈ piece.marks original offset) (hnone : a.original = none) :
    a.generated < offset + Text.byteLength piece.text.toList := by
  cases piece with
  | copied start text =>
    obtain ⟨d, -, rfl⟩ := List.mem_map.1 ha
    cases hnone
  | replaced span text =>
    obtain ⟨d, -, rfl⟩ := List.mem_map.1 ha
    cases hnone
  | generated text =>
    simp only [Piece.marks] at ha
    split at ha
    · cases ha
    next htext =>
      have hpos := Nat.pos_of_ne_zero (mt Piece.byteLength_text_eq_zero.1 htext)
      rw [List.mem_singleton.1 ha]
      exact Nat.lt_add_of_pos_right hpos
  | external text => cases ha

theorem marksFrom_lt_of_none {pieces : List Piece} {original : List Char} {offset : Nat} {a : Mark}
    (ha : a ∈ marksFrom original offset pieces) (hnone : a.original = none) :
    a.generated < offset + size pieces := by
  obtain ⟨before, piece, after, rfl, hpiece⟩ := exists_of_mem_marksFrom ha
  have hlt := marks_lt_of_none hpiece hnone
  rw [size_append, size_cons]
  omega

/-- The mapping of the first mark at an offset that makes one. -/
def firstAt? (generated original : List Char) (n : Nat) (marks : List Mark) : Option Mapping :=
  marks.findSome? fun a => if a.generated = n then a.mapping? generated original else none

section

variable {generated original : List Char} {n : Nat} {marks : List Mark}

theorem firstAt?_eq_head? (generated original : List Char) (n : Nat) (marks : List Mark) :
    firstAt? generated original n marks =
      ((marks.filter (·.generated = n)).filterMap (Mark.mapping? generated original)).head? := by
  rw [List.filterMap_filter, List.head?_filterMap]
  simp only [firstAt?, decide_eq_true_eq]

theorem firstAt?_append (xs ys : List Mark) :
    firstAt? generated original n (xs ++ ys) =
      (firstAt? generated original n xs).or (firstAt? generated original n ys) :=
  List.findSome?_append

theorem firstAt?_eq_none (h : ∀ a ∈ marks, a.generated ≠ n) :
    firstAt? generated original n marks = none :=
  List.findSome?_eq_none_iff.2 fun a ha => if_neg (h a ha)

theorem firstAt?_eq_some {a : Mark} {x : Mapping} (ha : a ∈ marks) (hn : a.generated = n)
    (hx : a.mapping? generated original = some x)
    (huniq : ∀ b ∈ marks, b.generated = n → b = a) :
    firstAt? generated original n marks = some x := by
  cases h : firstAt? generated original n marks with
  | none =>
    have hnone := List.findSome?_eq_none_iff.1 h a ha
    rw [if_pos hn, hx] at hnone
    cases hnone
  | some y =>
    obtain ⟨b, hb, hy⟩ := List.exists_of_findSome?_eq_some h
    split at hy
    next hbn =>
      rw [huniq b hb hbn, hx] at hy
      exact hy.symm
    next => cases hy

theorem position_of_firstAt {x : Mapping} (h : firstAt? generated original n marks = some x) :
    Text.position? generated n = some x.generated := by
  obtain ⟨a, -, hx⟩ := List.exists_of_findSome?_eq_some h
  split at hx
  next hn => exact hn ▸ Mark.position_of_mapping hx
  next => cases hx

/-- The first mapping at the position of an offset is that of the first mark there. -/
theorem find?_mappings (hsize : Text.byteLength generated < UInt32.size) {p : LineCol}
    (hp : Text.position? generated n = some p) :
    (marks.filterMap (Mark.mapping? generated original)).find? (·.generated = p) =
      firstAt? generated original n marks := by
  induction marks with
  | nil => rfl
  | cons a marks ih =>
    rw [firstAt?, List.findSome?_cons]
    cases hx : a.mapping? generated original with
    | none =>
      rw [List.filterMap_cons_none hx, ih, ite_self]
      rfl
    | some x =>
      have hxa := Mark.position_of_mapping hx
      have hat : x.generated = p ↔ a.generated = n := Text.position?_eq_iff hsize hxa hp
      rw [List.filterMap_cons_some hx]
      by_cases ha : a.generated = n
      · rw [List.find?_cons_of_pos (by simpa using hat.2 ha), if_pos ha]
      · rw [List.find?_cons_of_neg (by simpa using mt hat.1 ha), if_neg ha, ih]
        rfl

theorem mapping?_of_position {p q : LineCol} {o : Nat}
    (hp : Text.position? generated n = some p) (hq : Text.position? original o = some q) :
    (⟨n, some o⟩ : Mark).mapping? generated original = some ⟨p, some ⟨0, q⟩⟩ := by
  simp only [Mark.mapping?, hp, hq, Option.bind_some, Option.map_some]

/-- Without text a link is anchored all the same, if it is not without text on the other side. -/
theorem anchors_of_empty (original : List Char) (n : Nat) (span : Span) :
    anchors original ⟨⟨n, n⟩, span⟩ =
      if span.start = span.stop ∧ Text.IsBoundary original span.start then [] else [0] := by
  unfold anchors
  split
  next old hold =>
    dsimp only at hold
    obtain ⟨front, back, horiginal, hstart, hstop⟩ := Text.slice?_eq_some_iff.1 hold
    have hb : Text.IsBoundary original span.start := ⟨front, old ++ back, horiginal, hstart⟩
    simp only [hb, and_true, Link.isVerbatim, Span.length, Nat.sub_self, beq_iff_eq]
    by_cases hempty : span.start = span.stop
    · obtain rfl := Text.byteLength_eq_zero.1 (show Text.byteLength old = 0 by omega)
      simp [hempty, tokenStarts]
    · have hlong : ¬ 0 = span.stop - span.start := by omega
      rw [if_neg hempty, if_neg hlong]
  next hnone =>
    dsimp only at hnone
    rw [if_neg]
    rintro ⟨hempty, hb⟩
    have hslice := Text.slice?_between hb hb (Nat.le_refl _)
    rw [← hempty, hslice] at hnone
    cases hnone

/-- A piece without text makes a mapping for its leftover only. -/
theorem filterMap_marks_of_empty {piece : Piece} {p : LineCol} (htext : piece.text = "")
    (hp : Text.position? generated n = some p) :
    ((piece.marks original n).filter (·.original.isSome)).filterMap
        (Mark.mapping? generated original) =
      (piece.leftover? original).toList.map fun q => ⟨p, some ⟨0, q⟩⟩ := by
  cases piece with
  | copied start text =>
    obtain rfl : text = "" := htext
    rfl
  | generated text =>
    obtain rfl : text = "" := htext
    rfl
  | external text => rfl
  | replaced span text =>
    obtain rfl : text = "" := htext
    have hmarks : (Piece.replaced span "").marks original n =
        (anchors original ⟨⟨n, n⟩, span⟩).map fun d => ⟨n + d, some (span.start + d)⟩ := rfl
    rw [hmarks, anchors_of_empty]
    by_cases hstart : Text.IsBoundary original span.start
    · obtain ⟨q, hq⟩ := Text.exists_position? hstart
      by_cases hempty : span.start = span.stop
      · simp [Piece.leftover?, hempty, hempty ▸ hstart]
      · simp [Piece.leftover?, hempty, mapping?_of_position hp hq, hq]
    · have hnone := Text.position?_eq_none hstart
      simp [Piece.leftover?, hstart, hnone, Mark.mapping?]

/-- A way to mark pieces one behind the other, each with marks of its own. They stand in the text of
the piece, and without text they make a mapping for what is left there only. -/
structure Marking (generated original : List Char) (marks : List Piece → List Mark)
    (own : Nat → Piece → List Mark) : Prop where
  nil : marks [] = []
  concat (before : List Piece) (piece : Piece) :
    marks (before ++ [piece]) = marks before ++ own (size before) piece
  within {n : Nat} {piece : Piece} {a : Mark} (ha : a ∈ own n piece) :
    n ≤ a.generated ∧
      (a.generated = n ∨ a.generated < n + Text.byteLength piece.text.toList)
  empty {n : Nat} {piece : Piece} {p : LineCol} (htext : piece.text = "")
    (hp : Text.position? generated n = some p) :
    (own n piece).filterMap (Mark.mapping? generated original) =
      (piece.leftover? original).toList.map fun q => ⟨p, some ⟨0, q⟩⟩

namespace Marking

variable {marksOf : List Piece → List Mark} {own : Nat → Piece → List Mark}

theorem le_size (h : Marking generated original marksOf own) {before : List Piece} {a : Mark}
    (ha : a ∈ marksOf before) : a.generated ≤ size before := by
  induction before using List.reverseRecOn with
  | nil =>
    rw [h.nil] at ha
    cases ha
  | append_singleton before piece ih =>
    rw [h.concat, List.mem_append] at ha
    rw [size_append, size_singleton]
    rcases ha with ha | ha
    · have hle := ih ha
      omega
    · have hwithin := h.within ha
      omega

/-- Behind some pieces there are mappings for what is left there, and no others. -/
theorem filterMap_behind (h : Marking generated original marksOf own) (before : List Piece)
    {p : LineCol} (hp : Text.position? generated (size before) = some p) :
    ((marksOf before).filter (·.generated = size before)).filterMap
        (Mark.mapping? generated original) =
      (leftoversBehind original before).map fun q => ⟨p, some ⟨0, q⟩⟩ := by
  induction before using List.reverseRecOn with
  | nil =>
    rw [h.nil]
    rfl
  | append_singleton before piece ih =>
    have hsize : size (before ++ [piece]) = size before + Text.byteLength piece.text.toList := by
      rw [size_append, size_singleton]
    rw [h.concat, List.filter_append, List.filterMap_append, leftoversBehind_concat]
    by_cases htext : piece.text = ""
    · rw [Piece.byteLength_text_eq_zero.2 htext, Nat.add_zero] at hsize
      have hown : (own (size before) piece).filter (·.generated = size before) =
          own (size before) piece := by
        refine List.filter_eq_self.2 fun a ha => decide_eq_true ?_
        have hwithin := h.within ha
        rw [Piece.byteLength_text_eq_zero.2 htext] at hwithin
        omega
      rw [hsize] at hp ⊢
      rw [ih hp, hown, h.empty htext hp, if_pos htext, List.map_append]
    · have hpos := Nat.pos_of_ne_zero (mt Piece.byteLength_text_eq_zero.1 htext)
      have hbefore : (marksOf before).filter (·.generated = size (before ++ [piece])) = [] := by
        refine List.filter_eq_nil_iff.2 fun a ha => ?_
        have hle := h.le_size ha
        simp only [decide_eq_true_eq]
        omega
      have hown : (own (size before) piece).filter (·.generated = size (before ++ [piece])) =
          [] := by
        refine List.filter_eq_nil_iff.2 fun a ha => ?_
        have hwithin := h.within ha
        simp only [decide_eq_true_eq]
        omega
      rw [hbefore, hown, if_neg htext]
      rfl

end Marking

theorem marking_marksFrom (generated original : List Char) :
    Marking generated original
      (fun pieces => (marksFrom original 0 pieces).filter (·.original.isSome))
      (fun n piece => (piece.marks original n).filter (·.original.isSome)) where
  nil := rfl
  concat before piece := by
    rw [marksFrom_append, Nat.zero_add, marksFrom, marksFrom, List.append_nil,
      List.filter_append]
  within ha := marks_within (List.mem_filter.1 ha).1
  empty := filterMap_marks_of_empty

/-- Behind some pieces the first mark with a counterpart is the first leftover. -/
theorem firstAt?_behind (before : List Piece) {p : LineCol}
    (hp : Text.position? generated (size before) = some p) :
    firstAt? generated original (size before)
        ((marksFrom original 0 before).filter (·.original.isSome)) =
      (leftoverBehind? original before).map fun q => ⟨p, some ⟨0, q⟩⟩ := by
  rw [firstAt?_eq_head?, (marking_marksFrom generated original).filterMap_behind before hp,
    List.head?_map, head?_leftoversBehind]

end

/-- A place of a new text in one of its pieces, in front of a character of that. -/
structure Place (pieces : List Piece) where
  before : List Piece
  piece : Piece
  after : List Piece
  inside : List Char
  rest : List Char
  pieces_eq : pieces = before ++ piece :: after
  text_eq : piece.text.toList = inside ++ rest
  rest_ne : rest ≠ []

namespace Place

variable {pieces : List Piece}

def offset (place : Place pieces) : Nat := size place.before + Text.byteLength place.inside

/-- Each character starts at a place. -/
theorem exists_of_isBoundary {g : Nat} (hg : Text.IsBoundary (codeChars pieces) g)
    (hlt : g < size pieces) : ∃ place : Place pieces, place.offset = g := by
  obtain ⟨front, back, hcode, rfl⟩ := hg
  have hback : back ≠ [] := by
    rintro rfl
    rw [size, hcode, List.append_nil] at hlt
    exact Nat.lt_irrefl _ hlt
  obtain ⟨before, piece, after, inside, rest, hpieces, htext, hrest, rfl⟩ :=
    exists_piece hcode hback
  exact ⟨⟨before, piece, after, inside, rest, hpieces, htext, hrest⟩,
    (Text.byteLength_append _ _).symm⟩

theorem mem (place : Place pieces) : place.piece ∈ pieces := by
  rw [congrArg (place.piece ∈ ·) place.pieces_eq]
  simp

theorem offset_lt (place : Place pieces) :
    place.offset < size place.before + Text.byteLength place.piece.text.toList := by
  have hpos := Text.byteLength_pos.2 place.rest_ne
  rw [offset, place.text_eq, Text.byteLength_append]
  omega

theorem codeChars_eq (place : Place pieces) :
    codeChars pieces =
      codeChars place.before ++ (place.inside ++ (place.rest ++ codeChars place.after)) := by
  conv_lhs => rw [place.pieces_eq]
  rw [codeChars_append, codeChars_cons, place.text_eq, List.append_assoc]

/-- Another piece ends in front of the piece of a place, or starts behind it. -/
theorem cases_of_piece (place : Place pieces) {front back : List Piece} {piece : Piece}
    (h : pieces = front ++ piece :: back) (hne : piece ≠ place.piece) :
    size front + Text.byteLength piece.text.toList ≤ size place.before ∨
      size place.before + Text.byteLength place.piece.text.toList ≤ size front := by
  rcases List.append_eq_append_iff.1 (h.symm.trans place.pieces_eq) with
    ⟨between, hbefore, hrest⟩ | ⟨between, hfront, hrest⟩
  · cases between with
    | nil => exact absurd (List.cons.inj hrest).1 hne
    | cons x between =>
      obtain ⟨rfl, -⟩ := List.cons.inj hrest
      refine .inl ?_
      rw [hbefore, size_append, size_cons]
      omega
  · cases between with
    | nil => exact absurd (List.cons.inj hrest).1.symm hne
    | cons x between =>
      obtain ⟨rfl, -⟩ := List.cons.inj hrest
      refine .inr ?_
      rw [hfront, size_append, size_cons]
      omega

/-- The position of a place of the piece that is not behind this one. -/
theorem position?_of_front (place : Place pieces) {front token : List Char}
    (h : place.inside = front ++ token) :
    Text.position? (codeChars pieces) (size place.before + Text.byteLength front) =
      some (LineCol.after (codeChars place.before ++ front)) := by
  have hcode : codeChars pieces =
      (codeChars place.before ++ front) ++ (token ++ (place.rest ++ codeChars place.after)) := by
    rw [place.codeChars_eq, h]
    simp only [List.append_assoc]
  rw [hcode, size, ← Text.byteLength_append]
  exact LineIndex.unitLineCol?_append _ _

end Place

/-- The marks in the order in which the map takes them: those of text without counterpart first. -/
def orderedMarks (original : List Char) (pieces : List Piece) : List Mark :=
  (marksFrom original 0 pieces).filter (·.original.isNone) ++
    (marksFrom original 0 pieces).filter (·.original.isSome)

section

variable {pieces : List Piece} {original : String} {place : Place pieces}

theorem mem_orderedMarks {a : Mark} (ha : a ∈ orderedMarks original.toList pieces) :
    a ∈ marksFrom original.toList 0 pieces := by
  rcases List.mem_append.1 ha with ha | ha
  · exact (List.mem_filter.1 ha).1
  · exact (List.mem_filter.1 ha).1

/-- A mark stands in front of the piece of a place, is one of that piece, or stands behind it. -/
theorem Place.mark_cases (place : Place pieces) {a : Mark}
    (ha : a ∈ marksFrom original.toList 0 pieces) :
    a.generated ≤ size place.before ∨
      a ∈ place.piece.marks original.toList (size place.before) ∨ place.offset < a.generated := by
  have hlt := place.offset_lt
  rw [place.pieces_eq, marksFrom_append, Nat.zero_add, marksFrom, List.mem_append,
    List.mem_append] at ha
  rcases ha with ha | ha | ha
  · have hwithin := marksFrom_within ha
    exact .inl (by omega)
  · exact .inr (.inl ha)
  · have hwithin := marksFrom_within ha
    exact .inr (.inr (by omega))

/-- Of the marks at one offset, the first that makes a mapping speaks for the places up to the
next. -/
theorem lookup_of_firstAt? {source : String}
    (hcopies : ∀ piece ∈ pieces, piece.Copies original.toList)
    (hsize : size pieces < UInt32.size) {n : Nat} {x : Mapping} {p : LineCol}
    (hx : firstAt? (codeChars pieces) original.toList n (orderedMarks original.toList pieces) =
      some x)
    (hp : Text.position? (codeChars pieces) place.offset = some p) (hle : n ≤ place.offset)
    (hmax : ∀ a ∈ marksFrom original.toList 0 pieces, a.generated ≤ place.offset →
      a.generated ≤ n) :
    (toPositionMap pieces (code pieces) original source).lookup p =
      if x.generated.line = p.line then
        (toPositionMap pieces (code pieces) original source).resolve x
      else none := by
  have hxn := position_of_firstAt hx
  have hm := toPositionMap_holdsInOrder (code pieces) source hcopies
  rw [toList_code] at hm
  refine hm.lookup_eq ?_ ((Text.position?_le_iff hsize hxn hp).2 hle) fun y hy hyp => ?_
  · exact (find?_mappings hsize hxn).trans hx
  · obtain ⟨a, ha, hay⟩ := List.mem_filterMap.1 hy
    have hya := Mark.position_of_mapping hay
    refine (Text.position?_le_iff hsize hya hxn).2 (hmax a (mem_orderedMarks ha) ?_)
    exact (Text.position?_le_iff hsize hya hp).1 hyp

theorem Place.marksFrom_eq (original : String) (place : Place pieces) :
    marksFrom original.toList 0 pieces = marksFrom original.toList 0 place.before ++
      (place.piece.marks original.toList (size place.before) ++
        marksFrom original.toList (size place.before + Text.byteLength place.piece.text.toList)
          place.after) := by
  conv_lhs => rw [place.pieces_eq]
  rw [marksFrom_append, Nat.zero_add, marksFrom]

/-- Text without counterpart is told to come from nowhere before any leftover speaks. -/
theorem firstAt?_generated {text : String} (hpiece : place.piece = .generated text) :
    firstAt? (codeChars pieces) original.toList (size place.before)
        (orderedMarks original.toList pieces) =
      some ⟨LineCol.after (codeChars place.before), none⟩ := by
  have htext : text ≠ "" := by
    rintro rfl
    have hnil := place.text_eq
    rw [hpiece] at hnil
    exact place.rest_ne (List.append_eq_nil_iff.1 hnil.symm).2
  have hp := place.position?_of_front (List.nil_append place.inside).symm
  rw [Text.byteLength_nil, Nat.add_zero, List.append_nil] at hp
  have hmarks : place.piece.marks original.toList (size place.before) =
      [⟨size place.before, none⟩] := by
    rw [hpiece]
    exact if_neg htext
  have hbefore : firstAt? (codeChars pieces) original.toList (size place.before)
      ((marksFrom original.toList 0 place.before).filter (·.original.isNone)) = none := by
    refine firstAt?_eq_none fun a ha => ?_
    obtain ⟨ha, hnone⟩ := List.mem_filter.1 ha
    have hlt := marksFrom_lt_of_none ha (Option.isNone_iff_eq_none.1 hnone)
    omega
  rw [orderedMarks, place.marksFrom_eq original, hmarks, List.filter_append, firstAt?_append,
    firstAt?_append, hbefore, Option.none_or]
  simp [firstAt?, Mark.mapping?, hp]

/-- Copied text is marked at its tokens, its first one behind the leftovers in front of it. -/
theorem firstAt?_copied (place : Place pieces) {start token : Nat} {text : String} {p q : LineCol}
    (hpiece : place.piece = .copied start text) (htoken : token ∈ tokenStarts 0 none text.toList)
    (hp : Text.position? (codeChars pieces) (size place.before + token) = some p)
    (hq : Text.position? original.toList (start + token) = some q) :
    firstAt? (codeChars pieces) original.toList (size place.before + token)
        (orderedMarks original.toList pieces) =
      some ⟨p, some ⟨0, if token = 0 then
        (leftoverBehind? original.toList place.before).getD q else q⟩⟩ := by
  have hlt : token < Text.byteLength place.piece.text.toList := by
    rw [hpiece]
    exact lt_of_mem_tokenStarts htoken
  have hvoid : firstAt? (codeChars pieces) original.toList (size place.before + token)
      ((marksFrom original.toList 0 pieces).filter (·.original.isNone)) = none := by
    refine firstAt?_eq_none fun a ha => ?_
    obtain ⟨ha, hnone⟩ := List.mem_filter.1 ha
    rw [place.marksFrom_eq original, hpiece, List.mem_append, List.mem_append] at ha
    rcases ha with ha | ha | ha
    · have hbefore := marksFrom_lt_of_none ha (Option.isNone_iff_eq_none.1 hnone)
      omega
    · obtain ⟨d, -, rfl⟩ := List.mem_map.1 ha
      cases hnone
    · have hwithin := marksFrom_within ha
      rw [← hpiece] at hwithin
      omega
  have hown : firstAt? (codeChars pieces) original.toList (size place.before + token)
      ((place.piece.marks original.toList (size place.before)).filter (·.original.isSome)) =
        some ⟨p, some ⟨0, q⟩⟩ := by
    rw [hpiece]
    refine firstAt?_eq_some (a := ⟨size place.before + token, some (start + token)⟩)
      (List.mem_filter.2 ⟨List.mem_map.2 ⟨token, htoken, rfl⟩, rfl⟩) rfl
      (mapping?_of_position hp hq) fun b hb hbn => ?_
    obtain ⟨d, -, rfl⟩ := List.mem_map.1 (List.mem_filter.1 hb).1
    rw [Nat.add_left_cancel hbn]
  have hbefore : firstAt? (codeChars pieces) original.toList (size place.before + token)
      ((marksFrom original.toList 0 place.before).filter (·.original.isSome)) =
        (if token = 0 then leftoverBehind? original.toList place.before else none).map
          fun q => ⟨p, some ⟨0, q⟩⟩ := by
    split
    next h =>
      rw [h, Nat.add_zero] at hp ⊢
      exact firstAt?_behind place.before hp
    next h =>
      refine firstAt?_eq_none fun a ha => ?_
      have hwithin := marksFrom_within (List.mem_filter.1 ha).1
      omega
  rw [orderedMarks, firstAt?_append, hvoid, Option.none_or, place.marksFrom_eq original,
    List.filter_append, List.filter_append, firstAt?_append, firstAt?_append, hbefore, hown,
    Option.some_or]
  split
  · cases leftoverBehind? original.toList place.before <;> rfl
  · rfl

theorem resolve_toPositionMap (source : String) (p q : LineCol) :
    (toPositionMap pieces (code pieces) original source).resolve ⟨p, some ⟨0, q⟩⟩ =
      some ⟨source, q⟩ :=
  PositionMap.resolve_singleton (toPositionMap_sources _ _ _ _) p q

theorem Place.position? (place : Place pieces) :
    Text.position? (codeChars pieces) place.offset =
      some (LineCol.after (codeChars place.before ++ place.inside)) :=
  place.position?_of_front (List.append_nil _).symm

theorem Place.answers_of_shows (place : Place pieces) {m : PositionMap} {source : String}
    {content? : Option String} (hs : m.sources = [⟨source, content?⟩])
    (hwf : WellFormed original.toList pieces)
    (hm : m.Shows (codeChars pieces) original.toList (marksFrom original.toList 0 pieces)) :
    place.piece.Answers original.toList source (Text.byteLength place.inside)
      (m.lookup (LineCol.after (codeChars place.before ++ place.inside))) := by
  obtain ⟨before, piece, after, inside, rest, rfl, htext, hrest⟩ := place
  exact Splice.answers_of_shows hs hwf hm htext hrest

theorem lookup_generated_place (source : String)
    (hcopies : ∀ piece ∈ pieces, piece.Copies original.toList)
    (hsize : size pieces < UInt32.size) {text : String} (hpiece : place.piece = .generated text) :
    (toPositionMap pieces (code pieces) original source).lookup
      (LineCol.after (codeChars place.before ++ place.inside)) = none := by
  rw [lookup_of_firstAt? hcopies hsize (firstAt?_generated hpiece) place.position?
    (Nat.le_add_right _ _)]
  · split <;> rfl
  · intro a ha hle
    rcases place.mark_cases ha with hbefore | hown | hbehind
    · exact hbefore
    · rw [hpiece] at hown
      have hwithin := marks_within hown
      simp only [Piece.marks] at hown
      split at hown
      · cases hown
      · rw [List.mem_singleton.1 hown]
    · omega

theorem lookup_copied_place (source : String)
    (hcopies : ∀ piece ∈ pieces, piece.Copies original.toList)
    (hsize : size pieces < UInt32.size) {start : Nat} {text : String}
    (hpiece : place.piece = .copied start text) :
    ∃ token q, IsTokenOf text.toList (Text.byteLength place.inside) token ∧
      Text.position? original.toList (start + token) = some q ∧
      (toPositionMap pieces (code pieces) original source).lookup
          (LineCol.after (codeChars place.before ++ place.inside)) =
        some ⟨source, if token = 0 then
          (leftoverBehind? original.toList place.before).getD q else q⟩ := by
  obtain ⟨c, rest, hrest⟩ := List.exists_cons_of_ne_nil place.rest_ne
  obtain ⟨front, token, hinside, hline, htoken⟩ := exists_isTokenOf place.inside c rest
  have htext : text.toList = front ++ (token ++ place.rest) := by
    rw [← List.append_assoc, ← hinside, ← place.text_eq, hpiece, Piece.text]
  rw [hinside, ← hrest, List.append_assoc, ← htext, ← hinside] at htoken
  have hcopy := hcopies place.piece place.mem
  rw [hpiece] at hcopy
  obtain ⟨x, y, horiginal, rfl, -⟩ := Text.slice?_eq_some_iff.1 hcopy
  have hq : Text.position? original.toList (Text.byteLength x + Text.byteLength front) =
      some (LineCol.after (x ++ front)) := by
    have hsplit : original.toList = (x ++ front) ++ (token ++ place.rest ++ y) := by
      rw [horiginal, htext]
      simp only [List.append_assoc]
    rw [← Text.byteLength_append, hsplit]
    exact LineIndex.unitLineCol?_append _ _
  refine ⟨Text.byteLength front, _, htoken, hq, ?_⟩
  rw [lookup_of_firstAt? hcopies hsize
    (firstAt?_copied place hpiece htoken.mem (place.position?_of_front hinside) hq) place.position?
    (Nat.add_le_add_left htoken.le _)]
  · rw [if_pos, resolve_toPositionMap]
    dsimp only
    rw [hinside, ← List.append_assoc, LineCol.after_line_append hline]
  · intro a ha hle
    rcases place.mark_cases ha with hbefore | hown | hbehind
    · omega
    · rw [hpiece] at hown
      obtain ⟨d, hd, rfl⟩ := List.mem_map.1 hown
      exact Nat.add_le_add_left (htoken.greatest d hd (Nat.le_of_add_le_add_left hle)) _
    · omega

/-- Where a line starts in copied text, a token does. -/
theorem IsTokenOf.eq_of_lineStart {inside rest : List Char} {token : Nat} (hrest : rest ≠ [])
    (h : IsTokenOf (inside ++ rest) (Text.byteLength inside) token)
    (hline : inside.getLast? = some '\n') : token = Text.byteLength inside := by
  obtain ⟨c, rest, rfl⟩ := List.exists_cons_of_ne_nil hrest
  have hmem : Text.byteLength inside ∈ tokenStarts 0 none (inside ++ c :: rest) := by
    refine mem_tokenStarts.2 ⟨inside, c, rest, rfl, (Nat.zero_add _).symm, ?_⟩
    rw [hline]
    rfl
  exact Nat.le_antisymm h.le (h.greatest _ hmem (Nat.le_refl _))

/-- The offset of a place in copied text is known to the byte, and its position to the token. In
text that came from nowhere neither is known. One thing gets in the way: where nothing is left of
some text directly in front, the first token is looked up as the start of that text, and a search
that stops at the link of that text knows no offset for the first byte. -/
theorem origin_of_place (source : String)
    (hcopies : ∀ piece ∈ pieces, piece.Copies original.toList)
    (hsize : size pieces < UInt32.size) :
    (∀ g, Text.IsBoundary (codeChars pieces) g → g < size pieces →
      ∃ place : Place pieces, place.offset = g) ∧
    ∀ place : Place pieces, ∃ p, Text.position? (codeChars pieces) place.offset = some p ∧
      (∀ start text, place.piece = .copied start text →
        let origin := start + Text.byteLength place.inside
        (∀ search, originalOffset? search pieces place.offset = some origin ∨
          originalOffset? search pieces place.offset = none) ∧
        ((∀ search, originalOffset? search pieces place.offset = some origin) ↔
          ¬ (place.inside = [] ∧ EndsEmptied place.before)) ∧
        ∃ token q, IsTokenOf text.toList (Text.byteLength place.inside) token ∧
          (place.inside.getLast? = some '\n' → token = Text.byteLength place.inside) ∧
          Text.position? original.toList (start + token) = some q ∧
          (toPositionMap pieces (code pieces) original source).lookup p =
            some ⟨source, if token = 0 then
              (leftoverBehind? original.toList place.before).getD q else q⟩) ∧
      (∀ text, place.piece = .generated text →
        (∀ search, originalOffset? search pieces place.offset = none) ∧
        (toPositionMap pieces (code pieces) original source).lookup p = none) := by
  refine ⟨fun g => Place.exists_of_isBoundary, fun place => ⟨_, place.position?, ?_, ?_⟩⟩
  · intro start text hpiece
    have hlt := place.offset_lt
    obtain ⟨token, q, htoken, hq, hlookup⟩ := lookup_copied_place source hcopies hsize hpiece
    have htext : text.toList = place.inside ++ place.rest := by
      rw [← place.text_eq, hpiece, Piece.text]
    have hpieces : pieces = place.before ++ .copied start text :: place.after :=
      place.pieces_eq.trans (by rw [hpiece])
    rw [hpiece] at hlt
    have hoffset := originalOffset?_copied hpieces (Nat.le_add_right _ _) hlt
    have hfirst : place.offset = size place.before ↔ place.inside = [] :=
      Nat.add_eq_left.trans Text.byteLength_eq_zero
    rw [Nat.add_sub_cancel_left, ← Place.offset, hfirst] at hoffset
    refine ⟨hoffset.1, hoffset.2, token, q, htoken, fun hline => ?_, hq, hlookup⟩
    · rw [htext] at htoken
      exact htoken.eq_of_lineStart place.rest_ne hline
  · intro text hpiece
    have hlt := place.offset_lt
    refine ⟨?_, lookup_generated_place source hcopies hsize hpiece⟩
    have hpieces : pieces = place.before ++ .generated text :: place.after :=
      place.pieces_eq.trans (by rw [hpiece])
    rw [hpiece] at hlt
    intro search
    rw [congrArg (originalOffset? search · place.offset) hpieces]
    exact originalOffset?_of_unlinked rfl (Nat.le_add_right _ _) hlt search

end

/-- Of the first line of `let\nx = 1;\n` nothing is left, and a line stands in its place. -/
def withLeftover : List Piece :=
  [.generated "ü😀\n", .replaced ⟨0, 4⟩ "", .external "", .copied 4 "x = 1;\n"]

theorem origin_of_place_of_leftover :
    (∀ piece ∈ withLeftover, piece.Copies "let\nx = 1;\n".toList) ∧
      size withLeftover < UInt32.size ∧
      (∀ search, originalOffset? search withLeftover 7 = some 4 ∨
        originalOffset? search withLeftover 7 = none) ∧
      ¬ (∀ search, originalOffset? search withLeftover 7 = some 4) ∧
      (∀ search, originalOffset? search withLeftover 8 = some 5) ∧
      (toPositionMap withLeftover (code withLeftover) "let\nx = 1;\n" "a.js").lookup ⟨1, 0⟩ =
        some ⟨"a.js", ⟨0, 0⟩⟩ ∧
      (∀ search, originalOffset? search withLeftover 2 = none) ∧
      (toPositionMap withLeftover (code withLeftover) "let\nx = 1;\n" "a.js").lookup ⟨0, 1⟩ =
        none := by
  have hcopies : ∀ piece ∈ withLeftover, piece.Copies "let\nx = 1;\n".toList := by decide
  have hsize : size withLeftover < UInt32.size := by decide
  obtain ⟨-, hplaces⟩ := origin_of_place "a.js" hcopies hsize
  obtain ⟨p, hp, hfirst, -⟩ := hplaces ⟨[.generated "ü😀\n", .replaced ⟨0, 4⟩ "", .external ""],
    .copied 4 "x = 1;\n", [], [], "x = 1;\n".toList, rfl, rfl, by decide⟩
  obtain ⟨_, -, hsecond, -⟩ := hplaces ⟨[.generated "ü😀\n", .replaced ⟨0, 4⟩ "", .external ""],
    .copied 4 "x = 1;\n", [], ['x'], " = 1;\n".toList, rfl, rfl, by decide⟩
  obtain ⟨r, hr, -, hgenerated⟩ := hplaces ⟨[], .generated "ü😀\n",
    [.replaced ⟨0, 4⟩ "", .external "", .copied 4 "x = 1;\n"], ['ü'], ['😀', '\n'], rfl, rfl,
    by decide⟩
  obtain ⟨hsome, hall, token, q, htoken, -, hq, hlookup⟩ := hfirst 4 _ rfl
  obtain ⟨-, hexact, -⟩ := hsecond 4 _ rfl
  obtain ⟨hnone, hlost⟩ := hgenerated _ rfl
  obtain rfl : p = ⟨1, 0⟩ := by
    rw [← Option.some_inj, ← hp]
    decide
  obtain rfl : r = ⟨0, 1⟩ := by
    rw [← Option.some_inj, ← hr]
    decide
  have hfirst : token = 0 := Nat.le_zero.1 htoken.le
  rw [if_pos hfirst] at hlookup
  have hemptied : EndsEmptied [.generated "ü😀\n", .replaced ⟨0, 4⟩ "", .external ""] :=
    ⟨⟨0, 4⟩, by decide⟩
  exact ⟨hcopies, hsize, hsome, fun h => hall.1 h ⟨rfl, hemptied⟩,
    hexact.2 fun h => List.cons_ne_nil _ _ h.1, hlookup, hnone, hlost⟩

/-- The first place of copied text is not always looked up as itself. -/
theorem lookup_of_leftover :
    ¬ ∀ (pieces : List Piece) (original source : String),
      (∀ piece ∈ pieces, piece.Copies original.toList) → size pieces < UInt32.size →
      ∀ (place : Place pieces) (start : Nat) (text : String) (p : LineCol),
        place.piece = .copied start text → place.inside = [] →
        Text.position? (codeChars pieces) place.offset = some p →
        (toPositionMap pieces (code pieces) original source).lookup p =
          (Text.position? original.toList start).map (⟨source, ·⟩) := by
  intro h
  have hcopies : ∀ piece ∈ withLeftover, piece.Copies "let\nx = 1;\n".toList := by decide
  have hplace := h withLeftover "let\nx = 1;\n" "a.js" hcopies (by decide)
    ⟨[.generated "ü😀\n", .replaced ⟨0, 4⟩ "", .external ""], .copied 4 "x = 1;\n", [], [],
      "x = 1;\n".toList, rfl, rfl, by decide⟩ 4 "x = 1;\n" ⟨1, 0⟩ rfl rfl (by decide)
  revert hplace
  decide

end Splice

end ComponentBuild
