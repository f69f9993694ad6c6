import ComponentBuild.Proofs.Position.LineIndex
import ComponentBuild.Proofs.Position.Order
import ComponentBuild.Proofs.Splice.Token

namespace ComponentBuild

namespace PositionMap

theorem setContent_sources {m : PositionMap} {s : Source} (h : m.sources = [s]) (text : String) :
    (m.setContent 0 text).sources = [⟨s.name, some text⟩] := by
  simp [setContent, h]

end PositionMap

/-- A place in a new text, and the place of the original it stands for if there is one. -/
structure Mark where
  generated : Nat
  original : Option Nat

namespace Mark

/-- The mapping that a mark makes, if it stands at character boundaries. -/
def mapping? (generated original : List Char) (a : Mark) : Option Mapping :=
  (Text.position? generated a.generated).bind fun p =>
    match a.original with
    | none => some ⟨p, none⟩
    | some o => (Text.position? original o).map fun q => ⟨p, some ⟨0, q⟩⟩

theorem position_of_mapping {generated original : List Char} {a : Mark} {x : Mapping}
    (h : a.mapping? generated original = some x) :
    Text.position? generated a.generated = some x.generated := by
  obtain ⟨p, hp, h⟩ := Option.bind_eq_some_iff.1 h
  rw [hp]
  split at h
  · cases h
    rfl
  · obtain ⟨q, -, rfl⟩ := Option.map_eq_some_iff.1 h
    rfl

theorem mapping_of_some {generated original : List Char} {n o : Nat} {x : Mapping}
    (h : (⟨n, some o⟩ : Mark).mapping? generated original = some x) :
    ∃ q, Text.position? original o = some q ∧ x.original = some ⟨0, q⟩ := by
  obtain ⟨p, -, h⟩ := Option.bind_eq_some_iff.1 h
  obtain ⟨q, hq, rfl⟩ := Option.map_eq_some_iff.1 h
  exact ⟨q, hq, rfl⟩

/-- Where a text and the one it is from stand in larger texts, mappings fit. -/
theorem fitsAt_of_mapping {generated original before front : List Char} {a : Mark} {x : Mapping}
    (h : a.mapping? generated original = some x)
    (hbefore : Text.byteLength (before ++ generated) < UInt32.size)
    (hfront : Text.byteLength (front ++ original) < UInt32.size) :
    PositionMap.FitsAt (LineCol.after before) (LineCol.after front) x := by
  have hshort {u v : List Char} (huv : Text.byteLength (u ++ v) < UInt32.size) :
      Text.byteLength v < UInt32.size := by
    rw [Text.byteLength_append] at huv
    omega
  refine ⟨LineCol.fits_of_isIn (Text.isIn_of_position? (position_of_mapping h) (hshort hbefore))
    hbefore, fun o ho => ?_⟩
  obtain ⟨n, original?⟩ := a
  cases original? with
  | none =>
    obtain ⟨p, -, hx⟩ := Option.bind_eq_some_iff.1 h
    cases hx
    cases ho
  | some m =>
    obtain ⟨q, hq, hx⟩ := mapping_of_some h
    obtain rfl := Option.some.inj (hx.symm.trans ho)
    exact LineCol.fits_of_isIn (Text.isIn_of_position? hq (hshort hfront)) hfront

def shift (generated original : Nat) (a : Mark) : Mark :=
  ⟨generated + a.generated, a.original.map (original + ·)⟩

theorem mapping?_shift {generated original : List Char} {a : Mark}
    (hgenerated : Text.byteLength generated < UInt32.size)
    (horiginal : Text.byteLength original < UInt32.size)
    (ha : a.generated ≤ Text.byteLength generated)
    (ho : ∀ o, a.original = some o → o ≤ Text.byteLength original) (gfront gback ofront oback) :
    (a.shift (Text.byteLength gfront) (Text.byteLength ofront)).mapping?
        (gfront ++ (generated ++ gback)) (ofront ++ (original ++ oback)) =
      (a.mapping? generated original).map
        (PositionMap.shifted (LineCol.after gfront) (LineCol.after ofront) 0) := by
  unfold mapping? shift
  rw [Text.position?_shift ha hgenerated]
  cases hp : Text.position? generated a.generated with
  | none => rfl
  | some p =>
    cases hao : a.original with
    | none => rfl
    | some o =>
      simp only [Option.map_some, Option.bind_some]
      rw [Text.position?_shift (ho o hao) horiginal]
      cases Text.position? original o <;> rfl

end Mark

namespace Piece

/-- A piece fits an original if it names text that is there, as it stands where it is copied. -/
def Fits (original : List Char) : Piece → Prop
  | copied start text =>
    Text.slice? original start (start + Text.byteLength text.toList) = some text.toList
  | replaced span text => text ≠ "" ∧ ∃ old, Text.slice? original span.start span.stop = some old
  | generated _ => True
  | external _ => True

/-- What a piece copies stands in the original where it is copied from. -/
def Copies (original : List Char) : Piece → Prop
  | copied start text =>
    Text.slice? original start (start + Text.byteLength text.toList) = some text.toList
  | _ => True

instance (original : List Char) : DecidablePred (Copies original)
  | copied start _ => inferInstanceAs (Decidable (Text.slice? original start _ = _))
  | generated _ => inferInstanceAs (Decidable True)
  | external _ => inferInstanceAs (Decidable True)
  | replaced _ _ => inferInstanceAs (Decidable True)

theorem Fits.copies {original : List Char} {piece : Piece} (h : piece.Fits original) :
    piece.Copies original := by
  cases piece with
  | copied start text => exact h
  | generated text => trivial
  | external text => trivial
  | replaced span text => trivial

theorem copied_between_fits {cs : List Char} {start stop : Nat}
    (hstart : Text.IsBoundary cs start) (hstop : Text.IsBoundary cs stop) (hle : start ≤ stop) :
    (copied start (Text.between cs start stop)).Fits cs := by
  have hslice := Text.slice?_between hstart hstop hle
  obtain ⟨_, _, -, -, hlen⟩ := Text.slice?_eq_some_iff.1 hslice
  change Text.slice? cs start (start + _) = _
  rwa [← hlen]

/-- The marks of a piece that starts at an offset of the new text. -/
def marks (original : List Char) (offset : Nat) : Piece → List Mark
  | copied start text =>
    (Splice.tokenStarts 0 none text.toList).map fun d => ⟨offset + d, some (start + d)⟩
  | replaced span text =>
    (Splice.anchors original ⟨⟨offset, offset + Text.byteLength text.toList⟩, span⟩).map
      fun d => ⟨offset + d, some (span.start + d)⟩
  | generated text => if text = "" then [] else [⟨offset, none⟩]
  | external _ => []

/-- The piece, as one of a text that holds the original from an offset on. -/
def shift (offset : Nat) : Piece → Piece
  | copied start text => copied (offset + start) text
  | replaced span text => replaced ⟨offset + span.start, offset + span.stop⟩ text
  | generated text => generated text
  | external text => external text

@[simp] theorem shift_text (offset : Nat) (piece : Piece) :
    (piece.shift offset).text = piece.text := by
  cases piece <;> rfl

theorem byteLength_text_eq_zero {text : String} :
    Text.byteLength text.toList = 0 ↔ text = "" := by
  rw [Text.byteLength_eq_zero, String.toList_eq_nil_iff]

end Piece

namespace Splice

/-- A link is anchored at its start, or at the tokens of a text that stays as it is. -/
theorem eq_zero_or_lt_of_mem_anchors {original old : List Char} {link : Link} {d : Nat}
    (hold : Text.slice? original link.original.start link.original.stop = some old)
    (hd : d ∈ anchors original link) :
    d = 0 ∨ link.isVerbatim = true ∧ d < Text.byteLength old := by
  unfold anchors at hd
  simp only [hold] at hd
  split at hd
  next hv => exact .inr ⟨hv, lt_of_mem_tokenStarts hd⟩
  next => exact .inl (List.mem_singleton.1 hd)

theorem mem_anchors_lt {original old : List Char} {offset d : Nat} {span : Span} {text : String}
    (htext : text ≠ "") (hold : Text.slice? original span.start span.stop = some old)
    (hd : d ∈ anchors original ⟨⟨offset, offset + Text.byteLength text.toList⟩, span⟩) :
    d < Text.byteLength text.toList ∧ d ≤ Text.byteLength old := by
  have hpos : 0 < Text.byteLength text.toList :=
    Nat.pos_of_ne_zero (mt Piece.byteLength_text_eq_zero.1 htext)
  obtain ⟨_, _, -, -, hstop⟩ := Text.slice?_eq_some_iff.1 hold
  rcases eq_zero_or_lt_of_mem_anchors hold hd with rfl | ⟨hv, hlt⟩
  · exact ⟨hpos, Nat.zero_le _⟩
  · simp only [Link.isVerbatim, Span.length, beq_iff_eq] at hv
    omega

theorem marks_bounds {piece : Piece} {original : List Char} {offset : Nat} {a : Mark}
    (h : piece.Fits original) (ha : a ∈ piece.marks original offset) :
    offset ≤ a.generated ∧ a.generated < offset + Text.byteLength piece.text.toList ∧
      ∀ o, a.original = some o → o ≤ Text.byteLength original := by
  cases piece with
  | copied start text =>
    obtain ⟨d, hd, rfl⟩ := List.mem_map.1 ha
    obtain ⟨front, back, horiginal, hstart, -⟩ := Text.slice?_eq_some_iff.1 h
    have hlt := lt_of_mem_tokenStarts hd
    refine ⟨Nat.le_add_right _ _, Nat.add_lt_add_left hlt _, fun o ho => ?_⟩
    cases ho
    rw [horiginal, Text.byteLength_append, Text.byteLength_append]
    omega
  | replaced span text =>
    obtain ⟨htext, old, hold⟩ := h
    obtain ⟨d, hd, rfl⟩ := List.mem_map.1 ha
    obtain ⟨hlt, hle⟩ := mem_anchors_lt htext hold hd
    obtain ⟨front, back, horiginal, hstart, -⟩ := Text.slice?_eq_some_iff.1 hold
    refine ⟨Nat.le_add_right _ _, Nat.add_lt_add_left hlt _, fun o ho => ?_⟩
    cases ho
    rw [horiginal, Text.byteLength_append, Text.byteLength_append]
    omega
  | generated text =>
    simp only [Piece.marks] at ha
    split at ha
    · cases ha
    next htext =>
      have hpos := Nat.pos_of_ne_zero (mt Piece.byteLength_text_eq_zero.1 htext)
      cases List.mem_singleton.1 ha
      exact ⟨Nat.le_refl _, Nat.lt_add_of_pos_right hpos, fun o ho => by cases ho⟩
  | external text => cases ha

theorem marks_shift {piece : Piece} {original : List Char} (h : piece.Fits original)
    (front back : List Char) (delta offset : Nat) :
    (piece.shift (Text.byteLength front)).marks (front ++ (original ++ back)) (delta + offset) =
      (piece.marks original offset).map (Mark.shift delta (Text.byteLength front)) := by
  cases piece with
  | copied start text =>
    simp only [Piece.shift, Piece.marks, List.map_map, Function.comp_def, Mark.shift,
      Option.map_some, Nat.add_assoc]
  | replaced span text =>
    obtain ⟨-, old, hold⟩ := h
    have hanchors : anchors (front ++ (original ++ back))
          ⟨⟨delta + offset, delta + (offset + Text.byteLength text.toList)⟩,
            ⟨Text.byteLength front + span.start, Text.byteLength front + span.stop⟩⟩ =
        anchors original ⟨⟨offset, offset + Text.byteLength text.toList⟩, span⟩ := by
      unfold anchors
      simp only [Text.slice?_shift hold, hold, Link.isVerbatim, Span.length,
        Nat.add_sub_cancel_left, Nat.add_sub_add_left]
    simp only [Piece.shift, Piece.marks, hanchors, List.map_map, Function.comp_def, Mark.shift,
      Option.map_some, Nat.add_assoc]
  | generated text =>
    simp only [Piece.shift, Piece.marks]
    split <;> rfl
  | external text => rfl

theorem fits_shift {piece : Piece} {original : List Char} (h : piece.Fits original)
    (front back : List Char) :
    (piece.shift (Text.byteLength front)).Fits (front ++ (original ++ back)) := by
  cases piece with
  | copied start text =>
    have hs := Text.slice?_shift h front back
    rwa [← Nat.add_assoc] at hs
  | replaced span text =>
    obtain ⟨htext, old, hold⟩ := h
    exact ⟨htext, old, Text.slice?_shift hold front back⟩
  | generated text => trivial
  | external text => trivial

/-- The marks of pieces that start at an offset of the new text. -/
def marksFrom (original : List Char) (offset : Nat) : List Piece → List Mark
  | [] => []
  | piece :: pieces =>
    piece.marks original offset ++
      marksFrom original (offset + Text.byteLength piece.text.toList) pieces

@[simp] theorem codeChars_nil : codeChars [] = [] := rfl

@[simp] theorem codeChars_cons (piece : Piece) (pieces : List Piece) :
    codeChars (piece :: pieces) = piece.text.toList ++ codeChars pieces := rfl

@[simp] theorem codeChars_append (xs ys : List Piece) :
    codeChars (xs ++ ys) = codeChars xs ++ codeChars ys := List.flatMap_append

@[simp] theorem codeChars_shift (offset : Nat) (pieces : List Piece) :
    codeChars (pieces.map (Piece.shift offset)) = codeChars pieces := by
  simp [codeChars, List.flatMap_map]

@[simp] theorem toList_code (pieces : List Piece) : (code pieces).toList = codeChars pieces :=
  String.toList_ofList

theorem size_cons (piece : Piece) (pieces : List Piece) :
    size (piece :: pieces) = Text.byteLength piece.text.toList + size pieces := by
  rw [size, codeChars_cons, Text.byteLength_append, size]

theorem size_append (xs ys : List Piece) : size (xs ++ ys) = size xs + size ys := by
  rw [size, codeChars_append, Text.byteLength_append, size, size]

theorem size_singleton (piece : Piece) : size [piece] = Text.byteLength piece.text.toList := by
  rw [size, codeChars_cons, codeChars_nil, List.append_nil]

theorem marksFrom_append (original : List Char) (offset : Nat) (xs ys : List Piece) :
    marksFrom original offset (xs ++ ys) =
      marksFrom original offset xs ++ marksFrom original (offset + size xs) ys := by
  induction xs generalizing offset with
  | nil => rfl
  | cons x xs ih =>
    simp only [List.cons_append, marksFrom, ih, size_cons, List.append_assoc, Nat.add_assoc]

/-- A mark of pieces is one of a piece among them. -/
theorem exists_of_mem_marksFrom {pieces : List Piece} {original : List Char} {offset : Nat}
    {a : Mark} (ha : a ∈ marksFrom original offset pieces) :
    ∃ before piece after, pieces = before ++ piece :: after ∧
      a ∈ piece.marks original (offset + size before) := by
  induction pieces generalizing offset with
  | nil => cases ha
  | cons piece pieces ih =>
    rcases List.mem_append.1 ha with ha | ha
    · exact ⟨[], piece, pieces, rfl, ha⟩
    · obtain ⟨before, p, after, rfl, hp⟩ := ih ha
      refine ⟨piece :: before, p, after, rfl, ?_⟩
      rwa [size_cons, ← Nat.add_assoc]

theorem marksFrom_shift {pieces : List Piece} {original : List Char}
    (h : ∀ piece ∈ pieces, piece.Fits original) (front back : List Char) (delta offset : Nat) :
    marksFrom (front ++ (original ++ back)) (delta + offset)
        (pieces.map (Piece.shift (Text.byteLength front))) =
      (marksFrom original offset pieces).map (Mark.shift delta (Text.byteLength front)) := by
  induction pieces generalizing offset with
  | nil => rfl
  | cons piece pieces ih =>
    have hrest := ih (fun p hp => h p (List.mem_cons_of_mem _ hp))
      (offset + Text.byteLength piece.text.toList)
    simp only [List.map_cons, marksFrom, Piece.shift_text, List.map_append, Nat.add_assoc,
      marks_shift (h piece (List.mem_cons_self ..)), hrest]

theorem marksFrom_bounds {pieces : List Piece} {original : List Char} {offset : Nat} {a : Mark}
    (h : ∀ piece ∈ pieces, piece.Fits original) (ha : a ∈ marksFrom original offset pieces) :
    offset ≤ a.generated ∧ a.generated < offset + size pieces ∧
      ∀ o, a.original = some o → o ≤ Text.byteLength original := by
  obtain ⟨before, piece, after, rfl, hpiece⟩ := exists_of_mem_marksFrom ha
  obtain ⟨hle, hlt, ho⟩ := marks_bounds (h piece (by simp)) hpiece
  rw [size_append, size_cons]
  exact ⟨by omega, by omega, ho⟩

/-- The marks of text without counterpart are at its starts. -/
theorem map_syntheticFrom (original : List Char) (offset : Nat) (pieces : List Piece) :
    (syntheticFrom offset pieces).map (fun span => (⟨span.start, none⟩ : Mark)) =
      (marksFrom original offset pieces).filter (·.original.isNone) := by
  induction pieces generalizing offset with
  | nil => rfl
  | cons piece pieces ih =>
    rw [marksFrom, List.filter_append, ← ih]
    cases piece with
    | copied start text => simp [syntheticFrom, Piece.marks, Piece.text, List.filter_map]
    | replaced span text => simp [syntheticFrom, Piece.marks, Piece.text, List.filter_map]
    | external text => simp [syntheticFrom, Piece.marks, Piece.text]
    | generated text =>
      by_cases htext : text = ""
      · simp [syntheticFrom, Piece.marks, Piece.text, htext]
      · have hne := mt Piece.byteLength_text_eq_zero.1 htext
        simp [syntheticFrom, Piece.marks, Piece.text, htext, hne]

/-- The marks of a link are at its anchors. -/
def linkMarks (original : List Char) (link : Link) : List Mark :=
  (anchors original link).map fun d => ⟨link.generated.start + d, some (link.original.start + d)⟩

theorem linkMarks_copied {original : List Char} (offset : Nat) {start : Nat} {text : String}
    (h : (Piece.copied start text).Copies original) :
    linkMarks original ⟨⟨offset, offset + Text.byteLength text.toList⟩,
        ⟨start, start + Text.byteLength text.toList⟩⟩ =
      (Piece.copied start text).marks original offset := by
  unfold linkMarks anchors
  simp only [show Text.slice? original start _ = _ from h, Link.isVerbatim, Span.length,
    Nat.add_sub_cancel_left, beq_self_eq_true, if_true]
  rfl

theorem flatMap_linksFrom {original : List Char} {pieces : List Piece}
    (h : ∀ piece ∈ pieces, piece.Copies original) (offset : Nat) :
    (linksFrom offset pieces).flatMap (linkMarks original) =
      (marksFrom original offset pieces).filter (·.original.isSome) := by
  induction pieces generalizing offset with
  | nil => rfl
  | cons piece pieces ih =>
    have hrest := ih (fun p hp => h p (List.mem_cons_of_mem _ hp))
      (offset + Text.byteLength piece.text.toList)
    rw [marksFrom, List.filter_append, ← hrest]
    cases piece with
    | copied start text =>
      have hlink := linkMarks_copied offset (h _ (List.mem_cons_self ..))
      have hall : ((Piece.copied start text).marks original offset).filter (·.original.isSome) =
          (Piece.copied start text).marks original offset := by
        simp [Piece.marks, List.filter_map, Function.comp_def]
      by_cases htext : text = ""
      · subst htext
        simp [linksFrom, Piece.marks, Piece.text, tokenStarts]
      · have hne := mt Piece.byteLength_text_eq_zero.1 htext
        simp only [linksFrom, Piece.text, Nat.add_eq_left, hne, if_false, Nat.add_sub_cancel_left,
          List.flatMap_cons, hlink, hall]
    | replaced span text =>
      have hall : ((Piece.replaced span text).marks original offset).filter (·.original.isSome) =
          (Piece.replaced span text).marks original offset := by
        simp [Piece.marks, List.filter_map, Function.comp_def]
      rw [hall]
      rfl
    | generated text =>
      have hnone : ((Piece.generated text).marks original offset).filter (·.original.isSome) =
          [] := by
        simp only [Piece.marks]
        split <;> rfl
      rw [hnone]
      rfl
    | external text => rfl

theorem toPositionMap_sources (pieces : List Piece) (generated original source : String) :
    (toPositionMap pieces generated original source).sources = [⟨source, none⟩] := by
  unfold toPositionMap
  simp only
  rw [PositionMap.foldl_sources, PositionMap.foldl_sources]
  · rfl
  · intro m span
    split <;> rfl
  · intro m link
    apply PositionMap.foldl_sources
    intro m delta
    split <;> rfl

/-- The marks that a map takes in: those of text without counterpart, and behind them those of the
links. What a link says is copied need not be there. -/
def takenMarks (original : List Char) (pieces : List Piece) : List Mark :=
  (marksFrom original 0 pieces).filter (·.original.isNone) ++
    (links pieces).flatMap (linkMarks original)

theorem toPositionMap_holdsInOrder_taken (pieces : List Piece)
    (generated original source : String) :
    (toPositionMap pieces generated original source).HoldsInOrder
      ((takenMarks original.toList pieces).filterMap
        (Mark.mapping? generated.toList original.toList)) := by
  rw [takenMarks, ← map_syntheticFrom, List.filterMap_append, List.filterMap_map,
    List.filterMap_flatMap, List.filterMap_eq_flatMap_toList]
  unfold toPositionMap
  simp only
  have hnew : (PositionMap.empty.addSource source).1.HoldsInOrder [] := fun _ => rfl
  refine PositionMap.HoldsInOrder.foldl ?links _
    (PositionMap.HoldsInOrder.foldl ?spans (synthetic pieces) hnew)
  case spans =>
    intro m xs span hm
    simp only [Function.comp_apply, Mark.mapping?]
    split
    next p hp =>
      simp only [hp, Option.bind_some, Option.toList_some]
      exact hm.addMapping p none
    next hnone =>
      simp only [hnone, Option.bind_none, Option.toList_none, List.append_nil]
      exact hm
  case links =>
    intro m xs link hm
    rw [linkMarks, List.filterMap_map, List.filterMap_eq_flatMap_toList]
    refine PositionMap.HoldsInOrder.foldl (fun m xs d hm => ?_) _ hm
    simp only [Function.comp_apply, Mark.mapping?]
    split
    next p q hp hq =>
      simp only [hp, hq, Option.bind_some, Option.map_some, Option.toList_some]
      exact hm.addMapping p (some ⟨0, q⟩)
    next hnone =>
      have hlost : ((Text.position? generated.toList (link.generated.start + d)).bind fun p =>
          (Text.position? original.toList (link.original.start + d)).map fun q =>
            (⟨p, some ⟨0, q⟩⟩ : Mapping)) = none := by
        refine Option.bind_eq_none_iff.2 fun p hp => Option.map_eq_none_iff.2 ?_
        exact Option.eq_none_iff_forall_ne_some.2 fun q hq => hnone p q hp hq
      rwa [hlost, Option.toList_none, List.append_nil]

/-- Where what is copied is there, the marks are those of the pieces. -/
theorem toPositionMap_holdsInOrder {pieces : List Piece} {original : String}
    (generated source : String) (h : ∀ piece ∈ pieces, piece.Copies original.toList) :
    (toPositionMap pieces generated original source).HoldsInOrder
      (((marksFrom original.toList 0 pieces).filter (·.original.isNone) ++
          (marksFrom original.toList 0 pieces).filter (·.original.isSome)).filterMap
        (Mark.mapping? generated.toList original.toList)) := by
  rw [← flatMap_linksFrom h]
  exact toPositionMap_holdsInOrder_taken pieces generated original source

/-- The map holds the mappings that the marks make, and no others. -/
theorem mem_toPositionMap {pieces : List Piece} {generated original source : String}
    (h : ∀ piece ∈ pieces, piece.Fits original.toList) (x : Mapping) :
    x ∈ (toPositionMap pieces generated original source).mappings ↔
      ∃ a ∈ marksFrom original.toList 0 pieces,
        a.mapping? generated.toList original.toList = some x := by
  rw [(toPositionMap_holdsInOrder _ _ fun p hp => (h p hp).copies).mem_iff]
  have hall (o : Option Nat) : o.isNone = true ∨ o.isSome = true := by cases o <;> simp
  simp only [List.mem_filterMap, List.mem_append, List.mem_filter, ← and_or_left, hall, and_true]

end Splice

end ComponentBuild
