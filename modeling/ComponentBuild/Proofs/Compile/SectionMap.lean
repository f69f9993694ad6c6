import ComponentBuild.Proofs.Compile.Layout
import ComponentBuild.Proofs.Position.Compose

namespace ComponentBuild

open Text (StandsAt IsBoundary)

/-- What a place in the old content of a section is in the document, whose content starts at
`base`. -/
def Resolved.inDocument (r : Resolved) (path : Path) (base : LineCol) : Checked Resolved :=
  (r.position.relativeTo base).map fun p => ⟨path.text, p⟩

/-- A map of a text: its mappings stand in the text, and name sources that it has. -/
structure PositionMap.IsMapOf (m : PositionMap) (cs : List Char) : Prop where
  inside : ∀ x ∈ m.mappings, x.generated.IsIn cs
  named : ∀ x ∈ m.mappings, ∀ o, x.original = some o → ∃ name, m.sourceName? o.source = some name

namespace PositionMap.IsMapOf

variable {m part : PositionMap} {front inside : List Char} {x : Mapping} {q : LineCol}

/-- What a mapping of a part says in the whole: the same place, counted from where the part was. -/
theorem resolve_shifted (hpart : part.IsMapOf inside) {source : Source} (hm : m.sources = [source])
    (hx : x ∈ part.mappings) (start base : LineCol) :
    m.resolve (shifted start base 0 x) =
      (part.resolve x).map fun r => ⟨source.name, r.position.moved base⟩ := by
  cases ho : x.original with
  | none => simp [resolve, shifted, ho]
  | some o =>
    obtain ⟨name, hname⟩ := hpart.named x hx o ho
    simp only [shifted, ho, Option.map_some, resolve_singleton hm]
    simp only [resolve, ho, Option.bind_some, hname, Option.map_some]

theorem shifted_ordered (hpart : part.IsMapOf inside)
    (hsize : Text.byteLength (front ++ inside) < UInt32.size) (base : LineCol) :
    (part.mappings.map (shifted (LineCol.after front) base 0)).Pairwise
      fun a b => a.generated ≤ b.generated := by
  refine List.pairwise_map.2 (part.ordered.imp_of_mem fun {a b} ha hb hab => ?_)
  exact (LineCol.moved_le_iff (hpart.inside a ha) (hpart.inside b hb) hsize).2 hab

theorem nearest_shifted (hpart : part.IsMapOf inside)
    (hsize : Text.byteLength (front ++ inside) < UInt32.size) (base : LineCol) (hq : q.IsIn inside)
    (hx : nearest q part.mappings = some x) :
    nearest (q.moved (LineCol.after front))
        (part.mappings.map (shifted (LineCol.after front) base 0)) =
      some (shifted (LineCol.after front) base 0 x) := by
  have hle {y : Mapping} {p : LineCol} (hy : y ∈ part.mappings) (hp : p.IsIn inside) :
      y.generated.moved (LineCol.after front) ≤ p.moved (LineCol.after front) ↔
        y.generated ≤ p :=
    LineCol.moved_le_iff (hpart.inside y hy) hp hsize
  obtain ⟨before, behind, hm, hxq, hbefore, hbehind⟩ := (nearest_eq_some_iff part.ordered).1 hx
  have hmem : x ∈ part.mappings := by rw [hm]; simp
  have hmemBefore {y : Mapping} (hy : y ∈ before) : y ∈ part.mappings := by rw [hm]; simp [hy]
  have hmemBehind {y : Mapping} (hy : y ∈ behind) : y ∈ part.mappings := by rw [hm]; simp [hy]
  refine (nearest_eq_some_iff (hpart.shifted_ordered hsize base)).2
    ⟨before.map (shifted (LineCol.after front) base 0),
      behind.map (shifted (LineCol.after front) base 0), ?_, (hle hmem hq).2 hxq,
      fun y hy => ?_, fun y hy hyq => ?_⟩
  · rw [hm, List.map_append, List.map_cons]
  · obtain ⟨z, hz, rfl⟩ := List.mem_map.1 hy
    refine not_le.1 (mt (hle hmem (hpart.inside z (hmemBefore hz))).1 ?_)
    exact not_le.2 (hbefore z hz)
  · obtain ⟨z, hz, rfl⟩ := List.mem_map.1 hy
    refine (hle (hmemBehind hz) (hpart.inside x hmem)).2 (hbehind z hz ?_)
    exact (hle (hmemBehind hz) hq).1 hyq

end PositionMap.IsMapOf

namespace Preprocessed

def newText (source : List Char) (outputs : List (Section × SectionOutput)) : List Char :=
  Splice.codeChars (pieces source 0 outputs)

/-- The new document in front of the content of a section. -/
def textBefore (source : List Char) (before : List (Section × SectionOutput)) (s : Section) :
    List Char :=
  Splice.codeChars (piecesUpTo source 0 s.contentSpan.start before)

/-- The new document behind the content of a section. -/
def textBehind (source : List Char) (s : Section) (after : List (Section × SectionOutput)) :
    List Char :=
  Splice.codeChars (piecesUpTo source s.contentSpan.stop (Text.byteLength source) after)

theorem newText_split (source : List Char) (before after : List (Section × SectionOutput))
    (s : Section) (o : SectionOutput) :
    newText source (before ++ (s, o) :: after) =
      textBefore source before s ++ (o.code.toList ++ textBehind source s after) := by
  rw [newText, pieces_eq_piecesUpTo, codeChars_piecesUpTo_split]
  rfl

variable {source : List Char} {outputs before after : List (Section × SectionOutput)} {s : Section}
  {o : SectionOutput}

theorem position?_section (source : List Char) (before after : List (Section × SectionOutput))
    (s : Section) (o : SectionOutput) :
    Text.position? (newText source (before ++ (s, o) :: after))
        (Text.byteLength (textBefore source before s)) =
      some (LineCol.after (textBefore source before s)) := by
  rw [newText_split]
  exact LineIndex.unitLineCol?_append _ _

theorem position?_sectionEnd (source : List Char) (before after : List (Section × SectionOutput))
    (s : Section) (o : SectionOutput) :
    Text.position? (newText source (before ++ (s, o) :: after))
        (Text.byteLength (textBefore source before s ++ o.code.toList)) =
      some (LineCol.after (textBefore source before s ++ o.code.toList)) := by
  rw [newText_split, ← List.append_assoc]
  exact LineIndex.unitLineCol?_append _ _

/-- Every text up to the end of the content of a section is short enough for its positions. -/
theorem byteLength_content_lt (hsize : Text.byteLength (newText source (before ++ (s, o) :: after)) <
      UInt32.size) :
    Text.byteLength (textBefore source before s ++ o.code.toList) < UInt32.size := by
  rw [newText_split, ← List.append_assoc, Text.byteLength_append] at hsize
  omega

/-- The mappings of a part, as the map of the document takes them. -/
def partMappings (source code : List Char) (part : Part) : List Mapping :=
  part.map.mappings.map (PositionMap.shifted ((Text.position? code part.generated).getD ⟨0, 0⟩)
    ((Text.position? source part.original).getD ⟨0, 0⟩) 0)

/-- The map of the pieces alone. -/
def outerMap (k : SectionContext) (outputs : List (Section × SectionOutput)) : PositionMap :=
  Splice.toPositionMap (pieces k.source.toList 0 outputs)
    (Splice.code (pieces k.source.toList 0 outputs)) k.source k.path.text

/-- The mappings of the sections come behind those of the pieces. -/
theorem splice_holdsInOrder {k : SectionContext} (hindex : k.index = .ofText k.source)
    {outputs : List (Section × SectionOutput)} {plain : Preprocessed}
    (h : splice k outputs = .ok plain) :
    plain.code.toList = newText k.source.toList outputs ∧
      ∃ m, plain.map? = some m ∧ m.sources = [⟨k.path.text, some k.source⟩] ∧
        m.HoldsInOrder ((outerMap k outputs).mappings ++ (parts 0 0 outputs).flatMap
          (partMappings k.source.toList (newText k.source.toList outputs))) := by
  obtain ⟨m, hsome, hsources⟩ := splice_map_sources h
  obtain ⟨extended, hextended, rfl⟩ := splice_eq_ok_iff.1 h
  refine ⟨Splice.toList_code _, m, hsome, hsources, ?_⟩
  obtain rfl := Option.some.inj hsome
  rw [newText, ← Splice.toList_code]
  rw [hindex] at hextended
  exact (PositionMap.extendAll_eq_ok hextended).2 _ (PositionMap.HoldsInOrder.self _)

/-- A section comes with a map that tells a place that does not fit into the document. -/
def Overflows (source : List Char) (x : Section × SectionOutput) : Prop :=
  ∃ map base, x.2.map? = some map ∧ Text.position? source x.1.contentSpan.start = some base ∧
    ∃ y ∈ map.mappings, ∃ o ∈ y.original, o.position.relativeTo base = .error ⟨⟩

theorem outerMap_holdsInOrder {k : SectionContext} {outputs : List (Section × SectionOutput)}
    (h : InOrder k.source.toList 0 outputs) :
    (outerMap k outputs).HoldsInOrder
      ((Splice.orderedMarks k.source.toList (pieces k.source.toList 0 outputs)).filterMap
        (Mark.mapping? (newText k.source.toList outputs) k.source.toList)) := by
  have hholds := Splice.toPositionMap_holdsInOrder
    (Splice.code (pieces k.source.toList 0 outputs)) k.path.text
    (h.pieces_copies (StandsAt.zero _))
  rwa [Splice.toList_code] at hholds

/-- Each mapping of the pieces is that of a mark. -/
theorem exists_mark {k : SectionContext} {outputs : List (Section × SectionOutput)}
    (h : InOrder k.source.toList 0 outputs) {y : Mapping} (hy : y ∈ (outerMap k outputs).mappings) :
    ∃ a ∈ Splice.marksFrom k.source.toList 0 (pieces k.source.toList 0 outputs),
      a.mapping? (newText k.source.toList outputs) k.source.toList = some y := by
  obtain ⟨a, ha, hay⟩ := List.mem_filterMap.1 (((outerMap_holdsInOrder h).mem_iff y).1 hy)
  exact ⟨a, Splice.mem_orderedMarks ha, hay⟩

/-- Each map of a section is one of its new content. -/
def Mapped (outputs : List (Section × SectionOutput)) : Prop :=
  ∀ x ∈ outputs, ∀ map, x.2.map? = some map → map.IsMapOf x.2.code.toList

/-- New contents take the places of the old ones unless one of them tells a place that does not
fit. -/
theorem splice_eq_error_iff_overflows {k : SectionContext} (hindex : k.index = .ofText k.source)
    {outputs : List (Section × SectionOutput)} (h : InOrder k.source.toList 0 outputs)
    (hmaps : Mapped outputs)
    (hsize : Text.byteLength (newText k.source.toList outputs) < UInt32.size) :
    splice k outputs = .error ⟨⟩ ↔ ∃ x ∈ outputs, Overflows k.source.toList x := by
  have hfails : splice k outputs = .error ⟨⟩ ↔ ∃ part ∈ parts 0 0 outputs,
      ∃ y ∈ part.map.mappings, ¬ PositionMap.FitsAt
        ((Text.position? (newText k.source.toList outputs) part.generated).getD ⟨0, 0⟩)
        ((Text.position? k.source.toList part.original).getD ⟨0, 0⟩) y := by
    rw [splice_eq_error_iff, newText, ← Splice.toList_code]
    unfold Part.Overflows
    rw [hindex]
    rfl
  rw [hfails]
  constructor
  · rintro ⟨part, hpart, y, hy, hnot⟩
    obtain ⟨before, s, o, after, rfl, hmap, hgenerated, horiginal⟩ :=
      h.exists_of_mem_parts (StandsAt.zero _) hpart
    obtain ⟨front, back, hfront, hstart, -⟩ :=
      Text.slice?_eq_some_iff.1 (h.placed (s, o) (by simp)).standsIn
    obtain ⟨base, hbase⟩ := Text.exists_position? ⟨front, _, hfront, hstart⟩
    rw [hgenerated, horiginal, Nat.zero_add] at hnot
    change ¬ PositionMap.FitsAt ((Text.position? _
      (Text.byteLength (textBefore k.source.toList before s))).getD _) _ y at hnot
    rw [position?_section, hbase] at hnot
    refine ⟨(s, o), by simp, part.map, base, hmap, hbase, y, hy, ?_⟩
    by_contra hnone
    refine hnot ⟨LineCol.fits_of_isIn ((hmaps (s, o) (by simp) _ hmap).inside y hy)
      (byteLength_content_lt hsize), fun r hr => ?_⟩
    by_contra hfits
    exact hnone ⟨r, hr, LineCol.relativeTo_eq_error_iff.2 hfits⟩
  · rintro ⟨⟨s, o⟩, hx, map, base, hmap, hbase, y, hy, r, hr, hnot⟩
    obtain ⟨before, after, rfl⟩ := List.append_of_mem hx
    refine ⟨⟨Text.byteLength (textBefore k.source.toList before s), s.contentSpan.start, map⟩, ?_, y,
      hy, fun hfits => ?_⟩
    · rw [h.parts_split (StandsAt.zero _) rfl, hmap]
      simp [textBefore, Splice.size]
    · rw [hbase] at hfits
      exact LineCol.relativeTo_eq_error_iff.1 hnot (hfits.2 r hr)

/-- The mappings of a part stand in its text. -/
theorem within_of_mem_partMappings {code front inside behind : List Char} {part : Part}
    {y : Mapping} (hcode : code = front ++ (inside ++ behind))
    (hgenerated : part.generated = Text.byteLength front) (hmap : part.map.IsMapOf inside)
    (hsize : Text.byteLength code < UInt32.size) (hy : y ∈ partMappings source code part) :
    LineCol.after front ≤ y.generated ∧ y.generated ≤ LineCol.after (front ++ inside) := by
  have hp : Text.position? code part.generated = some (LineCol.after front) := by
    rw [hcode, hgenerated]
    exact LineIndex.unitLineCol?_append _ _
  have hshort : Text.byteLength (front ++ inside) < UInt32.size := by
    rw [hcode, ← List.append_assoc, Text.byteLength_append] at hsize
    omega
  obtain ⟨x, hx, rfl⟩ := List.mem_map.1 hy
  rw [hp, Option.getD_some]
  exact ⟨LineCol.le_moved (hmap.inside x hx) hshort,
    LineCol.moved_le (hmap.inside x hx) hshort⟩

/-- Parts in front of a section end in front of its opening tag. -/
theorem le_of_mem_parts {opening : List Char} {y : Mapping}
    (h : InOrder source 0 (before ++ (s, o) :: after)) (hmaps : Mapped (before ++ (s, o) :: after))
    (hsize : Text.byteLength (newText source (before ++ (s, o) :: after)) < UInt32.size)
    (hopening : textBefore source before s = opening ++ ['>'])
    (hy : y ∈ (parts 0 0 before).flatMap
      (partMappings source (newText source (before ++ (s, o) :: after)))) :
    y.generated ≤ LineCol.after opening := by
  obtain ⟨part, hpart, hmem⟩ := List.mem_flatMap.1 hy
  obtain ⟨front, t, p, back, rfl, hmap, hgenerated, -⟩ :=
    h.before.exists_of_mem_parts (StandsAt.zero _) hpart
  have hin := hmaps (t, p) (by simp) part.map hmap
  have h' : InOrder source 0 (front ++ (t, p) :: (back ++ (s, o) :: after)) := by
    rwa [List.append_assoc, List.cons_append] at h
  obtain ⟨rest, hrest⟩ := h'.standsAt_after
  obtain ⟨between, hbetween⟩ := h'.after.exists_angle hrest
  have hbefore := codeChars_piecesUpTo_split source 0 s.contentSpan.start front back t p
  rw [hbetween] at hbefore
  have hsplit : opening = (textBefore source front t ++ p.code.toList) ++ between := by
    refine List.append_cancel_right (?_ : _ ++ ['>'] = _ ++ ['>'])
    rw [← hopening, List.append_assoc, List.append_assoc]
    exact hbefore
  have hcode : newText source (front ++ (t, p) :: back ++ (s, o) :: after) =
      textBefore source front t ++ (p.code.toList ++
        (between ++ (['>'] ++ (o.code.toList ++ textBehind source s after)))) := by
    rw [newText_split, hopening, hsplit]
    simp only [List.append_assoc]
  have hend := (within_of_mem_partMappings hcode (hgenerated.trans (Nat.zero_add _)) hin hsize
    hmem).2
  refine le_trans hend ?_
  rw [hsplit]
  refine LineCol.after_le ?_
  rw [← hsplit]
  have hshort := byteLength_content_lt hsize
  rw [hopening, Text.byteLength_append, Text.byteLength_append] at hshort
  omega

/-- Parts behind a section start behind its content. -/
theorem le_of_mem_parts_behind {y : Mapping}
    (h : InOrder source 0 (before ++ (s, o) :: after)) (hmaps : Mapped (before ++ (s, o) :: after))
    (hsize : Text.byteLength (newText source (before ++ (s, o) :: after)) < UInt32.size)
    (hy : y ∈ (parts (Text.byteLength (textBefore source before s ++ o.code.toList))
      s.contentSpan.stop after).flatMap
        (partMappings source (newText source (before ++ (s, o) :: after)))) :
    LineCol.after (textBefore source before s ++ o.code.toList) ≤ y.generated := by
  obtain ⟨part, hpart, hmem⟩ := List.mem_flatMap.1 hy
  obtain ⟨rest, hrest⟩ := h.standsAt_after
  obtain ⟨front, t, p, back, rfl, hmap, hgenerated, -⟩ := h.after.exists_of_mem_parts hrest hpart
  have hin := hmaps (t, p) (by simp) part.map hmap
  have hcode := newText_split source before (front ++ (t, p) :: back) s o
  rw [textBehind, codeChars_piecesUpTo_split, ← List.append_assoc, ← List.append_assoc] at hcode
  have hstart := (within_of_mem_partMappings hcode
    (hgenerated.trans (Text.byteLength_append _ _).symm) hin hsize hmem).1
  refine le_trans (LineCol.after_le ?_) hstart
  rw [hcode, Text.byteLength_append] at hsize
  omega

/-- The angle bracket in front of a section is copied with some of its tag. -/
theorem exists_openingText {opening : List Char} (h : InOrder source 0 (before ++ (s, o) :: after))
    (hopening : textBefore source before s = opening ++ ['>']) :
    ∃ front start gap, piecesUpTo source 0 s.contentSpan.start before =
        front ++ [.copied start (String.ofList (gap ++ ['>']))] ∧
      0 < Text.byteLength gap ∧ s.contentSpan.start - 1 = start + Text.byteLength gap ∧
      opening = Splice.codeChars front ++ gap := by
  obtain ⟨front, start, gap, hpieces, hgap, hstart⟩ := h.exists_opening (StandsAt.zero _)
  refine ⟨front, start, gap, hpieces, Text.byteLength_pos.2 hgap, ?_, ?_⟩
  · rw [hstart, Text.byteLength_append, ← Nat.add_assoc]
    exact Nat.add_sub_cancel _ 1
  · refine List.append_cancel_right (?_ : _ ++ ['>'] = _ ++ ['>'])
    rw [← hopening, textBefore, hpieces, Splice.codeChars_append, Splice.codeChars_cons,
      Splice.codeChars_nil, Piece.text, String.toList_ofList, List.append_nil, List.append_assoc]

/-- The marks of the pieces around a section are in front of the end of its opening tag, or behind
its content. -/
theorem mark_cases_section {opening : List Char} {a : Mark}
    (h : InOrder source 0 (before ++ (s, o) :: after))
    (hopening : textBefore source before s = opening ++ ['>'])
    (ha : a ∈ Splice.marksFrom source 0 (pieces source 0 (before ++ (s, o) :: after))) :
    a.generated ≤ Text.byteLength opening ∨
      a ∈ (contentPiece s.contentSpan o).marks source
        (Text.byteLength (textBefore source before s)) ∨
      Text.byteLength (textBefore source before s ++ o.code.toList) ≤ a.generated := by
  have hsize : Splice.size (piecesUpTo source 0 s.contentSpan.start before) =
      Text.byteLength (textBefore source before s) := rfl
  rw [pieces_eq_piecesUpTo, piecesUpTo_split, Splice.marksFrom_append, Splice.marksFrom,
    Nat.zero_add, hsize, contentPiece_text, List.mem_append, List.mem_append] at ha
  rcases ha with ha | ha | ha
  · obtain ⟨front, start, gap, hpieces, hgap, -, rfl⟩ := exists_openingText h hopening
    rw [Text.byteLength_append]
    change a.generated ≤ Splice.size front + _ ∨ _
    rw [hpieces, Splice.marksFrom_append, List.mem_append] at ha
    rcases ha with ha | ha
    · have hwithin := Splice.marksFrom_within ha
      exact .inl (by omega)
    · rw [Splice.marksFrom, Splice.marksFrom, List.append_nil] at ha
      obtain ⟨d, hd, rfl⟩ := List.mem_map.1 ha
      have hlt := Splice.lt_of_mem_tokenStarts hd
      rw [String.toList_ofList, Text.byteLength_append] at hlt
      change d < _ + 1 at hlt
      refine .inl ?_
      dsimp only
      omega
  · exact .inr (.inl ha)
  · have hwithin := Splice.marksFrom_within ha
    rw [← Text.byteLength_append] at hwithin
    exact .inr (.inr hwithin.1)

section

variable {k : SectionContext} {m map : PositionMap} {opening : List Char}

theorem position?_opening (hopening : textBefore source before s = opening ++ ['>']) :
    Text.position? (newText source (before ++ (s, o) :: after)) (Text.byteLength opening) =
      some (LineCol.after opening) := by
  rw [newText_split, hopening, List.append_assoc]
  exact LineIndex.unitLineCol?_append _ _

/-- The angle bracket in front of a section is marked, as a token of its own. -/
theorem find?_angle (h : InOrder k.source.toList 0 (before ++ (s, o) :: after))
    (hsize : Text.byteLength (newText k.source.toList (before ++ (s, o) :: after)) < UInt32.size)
    (hopening : textBefore k.source.toList before s = opening ++ ['>']) {angle : LineCol}
    (hangle : Text.position? k.source.toList (s.contentSpan.start - 1) = some angle) :
    (outerMap k (before ++ (s, o) :: after)).mappings.find?
      (·.generated = LineCol.after opening) = some ⟨LineCol.after opening, some ⟨0, angle⟩⟩ := by
  obtain ⟨front, start, gap, hpieces, hgap, hstart, hfront⟩ := exists_openingText h hopening
  let place : Splice.Place (pieces k.source.toList 0 (before ++ (s, o) :: after)) :=
    { before := front
      piece := .copied start (String.ofList (gap ++ ['>']))
      after := contentPiece s.contentSpan o ::
        piecesUpTo k.source.toList s.contentSpan.stop (Text.byteLength k.source.toList) after
      inside := gap
      rest := ['>']
      pieces_eq := by
        rw [pieces_eq_piecesUpTo, piecesUpTo_split, hpieces, List.append_assoc]
        rfl
      text_eq := String.toList_ofList
      rest_ne := by simp }
  have hp : Text.position? (newText k.source.toList (before ++ (s, o) :: after))
      (Splice.size front + Text.byteLength gap) = some (LineCol.after opening) := by
    have hsum : Splice.size front + Text.byteLength gap = Text.byteLength opening := by
      rw [hfront, Text.byteLength_append, Splice.size]
    rw [hsum]
    exact position?_opening hopening
  rw [hstart] at hangle
  have htoken : Text.byteLength gap ∈ Splice.tokenStarts 0 none (gap ++ ['>']) :=
    Splice.mem_tokenStarts.2 ⟨gap, '>', [], rfl, (Nat.zero_add _).symm,
      Splice.startsToken_of_punctuation _ (by decide)⟩
  have hfirst := Splice.firstAt?_copied place rfl
    (by rwa [String.toList_ofList]) hp hangle
  rw [if_neg (Nat.pos_iff_ne_zero.1 hgap)] at hfirst
  rw [(outerMap_holdsInOrder h).find?_eq, Splice.find?_mappings hsize hp]
  exact hfirst

/-- The map of a document with new contents in some of its sections. -/
structure Spliced (k : SectionContext) (outputs : List (Section × SectionOutput))
    (m : PositionMap) : Prop where
  inOrder : InOrder k.source.toList 0 outputs
  mapped : Mapped outputs
  size : Text.byteLength (newText k.source.toList outputs) < UInt32.size
  sources : m.sources = [⟨k.path.text, some k.source⟩]
  holds : m.HoldsInOrder ((outerMap k outputs).mappings ++ (parts 0 0 outputs).flatMap
    (partMappings k.source.toList (newText k.source.toList outputs)))

/-- A section with a map in such a document. -/
structure MappedAt (k : SectionContext) (before after : List (Section × SectionOutput))
    (s : Section) (o : SectionOutput) (map m : PositionMap) (opening : List Char) (base : LineCol) :
    Prop extends Spliced k (before ++ (s, o) :: after) m where
  opening : textBefore k.source.toList before s = opening ++ ['>']
  map_eq : o.map? = some map
  base : Text.position? k.source.toList s.contentSpan.start = some base

/-- The mappings in front of those of a section, as they were added. -/
def mappingsBefore (k : SectionContext) (before after : List (Section × SectionOutput)) (s : Section)
    (o : SectionOutput) : List Mapping :=
  (outerMap k (before ++ (s, o) :: after)).mappings ++ (parts 0 0 before).flatMap
    (partMappings k.source.toList (newText k.source.toList (before ++ (s, o) :: after)))

def mappingsBehind (k : SectionContext) (before after : List (Section × SectionOutput)) (s : Section)
    (o : SectionOutput) : List Mapping :=
  (parts (Text.byteLength (textBefore k.source.toList before s ++ o.code.toList))
    s.contentSpan.stop after).flatMap
      (partMappings k.source.toList (newText k.source.toList (before ++ (s, o) :: after)))

namespace MappedAt

variable {base q : LineCol} {x y : Mapping}

theorem isMapOf (h : MappedAt k before after s o map m opening base) :
    map.IsMapOf o.code.toList :=
  h.mapped (s, o) (by simp) map h.map_eq

theorem content_lt (h : MappedAt k before after s o map m opening base) :
    Text.byteLength (textBefore k.source.toList before s ++ o.code.toList) < UInt32.size :=
  byteLength_content_lt h.size

theorem holdsInOrder (h : MappedAt k before after s o map m opening base) :
    m.HoldsInOrder (mappingsBefore k before after s o ++
      (map.mappings.map (PositionMap.shifted
        (LineCol.after (textBefore k.source.toList before s)) base 0) ++
          mappingsBehind k before after s o)) := by
  have hstart := position?_section k.source.toList before after s o
  have hm := h.holds
  have hparts := h.inOrder.parts_split (StandsAt.zero _)
    (Nat.zero_add (Text.byteLength (textBefore k.source.toList before s))).symm
  rw [hparts, h.map_eq, ← Text.byteLength_append, List.flatMap_append, List.flatMap_append,
    ← List.append_assoc] at hm
  simp only [Option.map_some, Option.toList_some, List.flatMap_singleton, partMappings, hstart,
    h.base, Option.getD_some] at hm
  exact hm

theorem opening_lt (h : MappedAt k before after s o map m opening base) :
    LineCol.after opening < LineCol.after (textBefore k.source.toList before s) := by
  have hsize := h.content_lt
  rw [h.opening] at hsize ⊢
  rw [Text.byteLength_append] at hsize
  exact LineCol.after_lt (by omega) (by simp)

/-- All mappings in front of those of a section are in front of the end of its opening tag, or
behind its content. -/
theorem before_cases (h : MappedAt k before after s o map m opening base)
    (hy : y ∈ mappingsBefore k before after s o) :
    y.generated ≤ LineCol.after opening ∨
      LineCol.after (textBefore k.source.toList before s ++ o.code.toList) ≤ y.generated := by
  rcases List.mem_append.1 hy with hy | hy
  · obtain ⟨a, ha, hay⟩ := exists_mark h.inOrder hy
    have hp := Mark.position_of_mapping hay
    rcases mark_cases_section h.inOrder h.opening ha with hle | hown | hge
    · exact .inl ((Text.position?_le_iff h.size hp (position?_opening h.opening)).2 hle)
    · rw [contentPiece, h.map_eq] at hown
      cases hown
    · exact .inr ((Text.position?_le_iff h.size (position?_sectionEnd ..) hp).2 hge)
  · exact .inl (le_of_mem_parts h.inOrder h.mapped h.size h.opening hy)

theorem le_of_behind (h : MappedAt k before after s o map m opening base)
    (hy : y ∈ mappingsBehind k before after s o) :
    LineCol.after (textBefore k.source.toList before s ++ o.code.toList) ≤ y.generated :=
  le_of_mem_parts_behind h.inOrder h.mapped h.size hy

theorem moved_lt (h : MappedAt k before after s o map m opening base)
    (hq : q.IsIn o.code.toList) (hlt : q < LineCol.after o.code.toList) :
    q.moved (LineCol.after (textBefore k.source.toList before s)) <
      LineCol.after (textBefore k.source.toList before s ++ o.code.toList) := by
  have hsize := h.content_lt
  rw [LineCol.after_append (by rw [Text.byteLength_append] at hsize; omega)]
  exact not_le.1 (mt (LineCol.moved_le_iff (LineCol.after_isIn _) hq hsize).1 (not_le.2 hlt))

/-- The mapping of the part that speaks for a position speaks for it in the document. -/
theorem nearest_of_some (h : MappedAt k before after s o map m opening base)
    (hq : q.IsIn o.code.toList) (hlt : q < LineCol.after o.code.toList)
    (hx : PositionMap.nearest q map.mappings = some x) :
    PositionMap.nearest (q.moved (LineCol.after (textBefore k.source.toList before s)))
        m.mappings =
      some (PositionMap.shifted (LineCol.after (textBefore k.source.toList before s)) base 0 x) := by
  have hmem := (PositionMap.nearest_mem map.ordered hx).1
  refine h.holdsInOrder.nearest_inner (h.isMapOf.shifted_ordered h.content_lt base)
    (fun y hy => (h.before_cases hy).imp_left fun hle => lt_of_le_of_lt hle h.opening_lt)
    (fun y hy => .inr (h.le_of_behind hy)) (h.moved_lt hq hlt)
    (h.isMapOf.nearest_shifted h.content_lt base hq hx) ?_
  exact LineCol.le_moved (h.isMapOf.inside x hmem) h.content_lt

/-- Where the part has nothing to say, the angle bracket in front of it speaks. -/
theorem nearest_of_none (h : MappedAt k before after s o map m opening base)
    (hq : q.IsIn o.code.toList) (hlt : q < LineCol.after o.code.toList)
    (hnone : PositionMap.nearest q map.mappings = none) {angle : LineCol}
    (hangle : Text.position? k.source.toList (s.contentSpan.start - 1) = some angle) :
    PositionMap.nearest (q.moved (LineCol.after (textBefore k.source.toList before s)))
        m.mappings = some ⟨LineCol.after opening, some ⟨0, angle⟩⟩ := by
  have hstop := h.moved_lt hq hlt
  refine h.holdsInOrder.nearest_eq ?_
    (le_trans h.opening_lt.le (LineCol.le_moved hq h.content_lt)) fun y hy hyq => ?_
  · rw [List.find?_append, mappingsBefore, List.find?_append,
      find?_angle h.inOrder h.size h.opening hangle, Option.some_or, Option.some_or]
  · rcases List.mem_append.1 hy with hy | hy
    · exact (h.before_cases hy).elim id fun hge => absurd (lt_of_lt_of_le hstop hge) (not_lt.2 hyq)
    rcases List.mem_append.1 hy with hy | hy
    · obtain ⟨x, hx, rfl⟩ := List.mem_map.1 hy
      have hle := (LineCol.moved_le_iff (h.isMapOf.inside x hx) hq h.content_lt).1 hyq
      exact absurd hle (not_le.2 ((PositionMap.nearest_eq_none_iff map.ordered).1 hnone x hx))
    · exact absurd (lt_of_lt_of_le hstop (h.le_of_behind hy)) (not_lt.2 hyq)

theorem line_eq_iff (h : MappedAt k before after s o map m opening base)
    (hq : q.IsIn o.code.toList) :
    (LineCol.after opening).line =
        (q.moved (LineCol.after (textBefore k.source.toList before s))).line ↔
      q.line = 0 := by
  have hline : (LineCol.after opening).line =
      ((⟨0, 0⟩ : LineCol).moved (LineCol.after (textBefore k.source.toList before s))).line := by
    rw [LineCol.moved, if_pos rfl, h.opening, LineCol.after_line_append (by decide)]
  rw [hline, LineCol.moved_line_iff (LineCol.zero_isIn _) hq h.content_lt]
  exact eq_comm

/-- A section is looked up as by its own map, but for the start of the first line of its text, up to
where its map begins. There the angle bracket in front of it is found. -/
theorem lookup (h : MappedAt k before after s o map m opening base) {angle : LineCol}
    (hangle : Text.position? k.source.toList (s.contentSpan.start - 1) = some angle)
    (hq : q.IsIn o.code.toList) (hlt : q < LineCol.after o.code.toList) :
    m.lookup (q.moved (LineCol.after (textBefore k.source.toList before s))) =
      if q.line = 0 ∧ ∀ x ∈ map.mappings, q < x.generated then some ⟨k.path.text, angle⟩
      else (map.lookup q).map fun r => ⟨k.path.text, r.position.moved base⟩ := by
  rw [PositionMap.lookup_eq, PositionMap.lookup_eq]
  cases hx : PositionMap.nearest q map.mappings with
  | none =>
    have hall := (PositionMap.nearest_eq_none_iff map.ordered).1 hx
    rw [h.nearest_of_none hq hlt hx hangle, Option.bind_some,
      PositionMap.resolve_singleton h.sources]
    simp only [h.line_eq_iff hq, and_iff_left hall, Option.bind_none,
      Option.map_none]
  | some x =>
    obtain ⟨hmem, hle⟩ := PositionMap.nearest_mem map.ordered hx
    have hfound : ¬ (q.line = 0 ∧ ∀ x ∈ map.mappings, q < x.generated) :=
      fun hnone => absurd hle (not_le.2 (hnone.2 x hmem))
    rw [if_neg hfound, h.nearest_of_some hq hlt hx, Option.bind_some, Option.bind_some,
      h.isMapOf.resolve_shifted h.sources hmem]
    have hline := LineCol.moved_line_iff (h.isMapOf.inside x hmem) hq h.content_lt
    simp only [PositionMap.shifted, hline]
    split <;> rfl

theorem lookup_told (h : MappedAt k before after s o map m opening base) {angle : LineCol}
    (hangle : Text.position? k.source.toList (s.contentSpan.start - 1) = some angle)
    (hfits : ¬ Overflows k.source.toList (s, o)) (hq : q.IsIn o.code.toList)
    (hlt : q < LineCol.after o.code.toList) :
    ∃ p, q.relativeTo (LineCol.after (textBefore k.source.toList before s)) = .ok p ∧
      (if q.line = 0 ∧ ∀ x ∈ map.mappings, q < x.generated then .ok (some ⟨k.path.text, angle⟩)
        else (map.lookup q).mapM fun r => r.inDocument k.path base) = .ok (m.lookup p) := by
  refine ⟨_, LineCol.relativeTo_of_fits (LineCol.fits_of_isIn hq h.content_lt), ?_⟩
  rw [h.lookup hangle hq hlt]
  split
  · rfl
  · cases hr : map.lookup q with
    | none => rfl
    | some r =>
      obtain ⟨x, hx, hresolve⟩ := PositionMap.lookup_mem hr
      obtain ⟨l, hl, hposition⟩ := PositionMap.resolve_position hresolve
      have hfit : (r.position.spot.relativeTo base.spot).Fits := by
        by_contra hnot
        rw [← hposition] at hnot
        exact hfits ⟨map, base, h.map_eq, h.base, x, hx, l, hl,
          LineCol.relativeTo_eq_error_iff.2 hnot⟩
      rw [Option.mapM_some, Resolved.inDocument, LineCol.relativeTo_of_fits hfit]
      rfl

end MappedAt

end

namespace Spliced

variable {k : SectionContext} {m : PositionMap}

theorem position?_before (place : Splice.Place (pieces source 0 outputs)) :
    Text.position? (newText source outputs) (Splice.size place.before) =
      some (LineCol.after (Splice.codeChars place.before)) := by
  rw [newText, place.codeChars_eq, Splice.size]
  exact LineIndex.unitLineCol?_append _ _

/-- No part has mappings between the start of another piece and a place of that. -/
theorem le_of_part (h : Spliced k outputs m)
    (place : Splice.Place (pieces k.source.toList 0 outputs))
    (hpiece : ∀ text, place.piece ≠ .external text) {y : Mapping}
    (hy : y ∈ (parts 0 0 outputs).flatMap
      (partMappings k.source.toList (newText k.source.toList outputs)))
    (hle : y.generated ≤ LineCol.after (Splice.codeChars place.before ++ place.inside)) :
    y.generated ≤ LineCol.after (Splice.codeChars place.before) := by
  obtain ⟨part, hpart, hmem⟩ := List.mem_flatMap.1 hy
  obtain ⟨front, t, p, back, rfl, hmap, hgenerated, -⟩ :=
    h.inOrder.exists_of_mem_parts (StandsAt.zero _) hpart
  have hcode := newText_split k.source.toList front back t p
  obtain ⟨hge, hend⟩ := within_of_mem_partMappings hcode (hgenerated.trans (Nat.zero_add _))
    (h.mapped (t, p) (by simp) part.map hmap) h.size hmem
  have hsplit := piecesUpTo_split k.source.toList 0 (Text.byteLength k.source.toList) front back t p
  rw [← pieces_eq_piecesUpTo, contentPiece, hmap] at hsplit
  rcases place.cases_of_piece hsplit (hpiece p.code).symm with hbefore | hbehind
  · refine le_trans hend ((Text.position?_le_iff h.size (position?_sectionEnd ..)
      (position?_before place)).2 ?_)
    rw [Text.byteLength_append]
    exact hbefore
  · have hlt := Nat.lt_of_lt_of_le place.offset_lt hbehind
    have hp := Text.position?_lt h.size place.position? (position?_section ..) hlt
    exact absurd (lt_of_le_of_lt hle hp) (not_lt.2 hge)

/-- A piece that marks its start is looked up as in the map of the pieces alone. -/
theorem lookup_eq_outer (h : Spliced k outputs m)
    (place : Splice.Place (pieces k.source.toList 0 outputs))
    (hpiece : ∀ text, place.piece ≠ .external text) {z : Mapping}
    (hz : z ∈ (outerMap k outputs).mappings)
    (hstart : z.generated = LineCol.after (Splice.codeChars place.before)) :
    m.lookup (LineCol.after (Splice.codeChars place.before ++ place.inside)) =
      (outerMap k outputs).lookup
        (LineCol.after (Splice.codeChars place.before ++ place.inside)) := by
  have hzp : z.generated ≤ LineCol.after (Splice.codeChars place.before ++ place.inside) := by
    rw [hstart]
    refine LineCol.after_le ?_
    have hsize := h.size
    rw [newText, place.codeChars_eq, ← List.append_assoc, Text.byteLength_append] at hsize
    omega
  cases hx : PositionMap.nearest (LineCol.after (Splice.codeChars place.before ++ place.inside))
      (outerMap k outputs).mappings with
  | none =>
    exact absurd hzp (not_le.2 ((PositionMap.nearest_eq_none_iff (outerMap k outputs).ordered).1 hx z hz))
  | some x =>
    have hzx := PositionMap.le_nearest (outerMap k outputs).ordered hx hz hzp
    have hm := (PositionMap.HoldsInOrder.self (outerMap k outputs)).nearest_append h.holds hx
      fun y hy hyp => le_trans (h.le_of_part place hpiece hy hyp) (hstart ▸ hzx)
    rw [PositionMap.lookup_eq, PositionMap.lookup_eq, hm, hx]
    have hsources : (outerMap k outputs).sources = [⟨k.path.text, none⟩] :=
      Splice.toPositionMap_sources _ _ _ _
    have hnames (i : Nat) : m.sourceName? i = (outerMap k outputs).sourceName? i := by
      simp only [PositionMap.sourceName?, h.sources, hsources]
      cases i <;> rfl
    simp only [PositionMap.resolve, hnames]

theorem mem_outerMap (h : Spliced k outputs m) {a : Mark} {z : Mapping}
    (ha : a ∈ Splice.marksFrom k.source.toList 0 (pieces k.source.toList 0 outputs))
    (hz : a.mapping? (newText k.source.toList outputs) k.source.toList = some z) :
    z ∈ (outerMap k outputs).mappings := by
  refine ((outerMap_holdsInOrder h.inOrder).mem_iff z).2 (List.mem_filterMap.2 ⟨a, ?_, hz⟩)
  rw [Splice.orderedMarks, List.mem_append, List.mem_filter, List.mem_filter]
  cases ho : a.original
  · exact .inl ⟨ha, by simp⟩
  · exact .inr ⟨ha, by simp⟩

/-- A piece that stands for text of the old document marks its start. -/
theorem exists_start (h : Spliced k outputs m)
    (place : Splice.Place (pieces k.source.toList 0 outputs)) {n : Nat}
    (hmark : (⟨Splice.size place.before, some n⟩ : Mark) ∈
      place.piece.marks k.source.toList (Splice.size place.before))
    (hn : IsBoundary k.source.toList n) :
    ∃ z ∈ (outerMap k outputs).mappings,
      z.generated = LineCol.after (Splice.codeChars place.before) := by
  obtain ⟨q, hq⟩ := Text.exists_position? hn
  refine ⟨_, h.mem_outerMap ?_ (Splice.mapping?_of_position (position?_before place) hq), rfl⟩
  rw [place.marksFrom_eq k.source]
  exact List.mem_append_right _ (List.mem_append_left _ hmark)

/-- Markup is looked up token by token, with nothing of the sections. -/
theorem lookup_copied (h : Spliced k outputs m)
    (place : Splice.Place (pieces k.source.toList 0 outputs)) {start : Nat} {text : String}
    (hpiece : place.piece = .copied start text) :
    ∃ token q, Splice.IsTokenOf text.toList (Text.byteLength place.inside) token ∧
      (∀ x ∈ outputs, start + token < x.1.contentSpan.start ∨
        x.1.contentSpan.stop ≤ start + token) ∧
      Text.position? k.source.toList (start + token) = some q ∧
      m.lookup (LineCol.after (Splice.codeChars place.before ++ place.inside)) =
        some ⟨k.path.text, if token = 0 then
          (Splice.leftoverBehind? k.source.toList place.before).getD q else q⟩ := by
  have hcopies := h.inOrder.pieces_copies (StandsAt.zero _)
  have hmem := place.mem
  rw [hpiece] at hmem
  have htext : text.toList = place.inside ++ place.rest := by
    rw [← place.text_eq, hpiece, Piece.text]
  have hne : text.toList ≠ [] := by
    rw [htext]
    exact fun hnil => place.rest_ne (List.append_eq_nil_iff.1 hnil).2
  obtain ⟨x, y, hsource, hstart, -⟩ := Text.slice?_eq_some_iff.1 (hcopies _ hmem)
  obtain ⟨z, hz, hzstart⟩ := h.exists_start place (n := start)
    (by rw [hpiece]; exact List.mem_map.2 ⟨0, Splice.zero_mem_tokenStarts hne, rfl⟩)
    ⟨x, _, hsource, hstart⟩
  obtain ⟨token, q, htoken, hq, hlookup⟩ :=
    Splice.lookup_copied_place k.path.text hcopies h.size hpiece
  refine ⟨token, q, htoken, fun x hx => ?_, hq, ?_⟩
  · have hlt := Splice.lt_of_mem_tokenStarts htoken.mem
    rcases (h.inOrder.copied_outside (StandsAt.zero _) hmem).2 x hx with hle | hge
    · exact .inl (by omega)
    · exact .inr (by omega)
  · rw [h.lookup_eq_outer place (by simp [hpiece]) hz hzstart]
    exact hlookup

/-- In a section without a map the mappings lead to places of its old content. -/
theorem original_in_section (h : Spliced k (before ++ (s, o) :: after) m) (hmap : o.map? = none)
    {x : Mapping} (hx : x ∈ (outerMap k (before ++ (s, o) :: after)).mappings)
    (hge : LineCol.after (textBefore k.source.toList before s) ≤ x.generated)
    (hlt : x.generated < LineCol.after (textBefore k.source.toList before s ++ o.code.toList)) :
    ∃ n q, s.contentSpan.start ≤ n ∧ n ≤ s.contentSpan.stop ∧
      Text.position? k.source.toList n = some q ∧ x.original = some ⟨0, q⟩ := by
  have hplaced : s.Placed k.source.toList := h.inOrder.placed (s, o) (by simp)
  obtain ⟨opening, hopening⟩ := h.inOrder.exists_angle (StandsAt.zero _)
  obtain ⟨a, ha, hax⟩ := exists_mark h.inOrder hx
  have hp := Mark.position_of_mapping hax
  have hstart := (Text.position?_le_iff h.size (position?_section ..) hp).1 hge
  have hlength := congrArg Text.byteLength hopening
  rw [Text.byteLength_append] at hlength
  change Text.byteLength (textBefore k.source.toList before s) = _ + 1 at hlength
  rcases mark_cases_section h.inOrder hopening ha with hle | hown | hstop
  · omega
  · rw [contentPiece, hmap] at hown
    obtain ⟨d, hd, rfl⟩ := List.mem_map.1 hown
    obtain ⟨q, hq, horiginal⟩ := Mark.mapping_of_some hax
    have hold : Text.slice? k.source.toList s.contentSpan.start s.contentSpan.stop =
      some s.content.toList := hplaced.standsIn
    obtain ⟨_, _, -, -, hspan⟩ := Text.slice?_eq_some_iff.1 hold
    refine ⟨_, q, Nat.le_add_right _ _, ?_, hq, horiginal⟩
    rcases Splice.eq_zero_or_lt_of_mem_anchors hold hd with rfl | ⟨-, hd⟩
    · omega
    · omega
  · exact absurd ((Text.position?_le_iff h.size (position?_sectionEnd ..) hp).2 hstop)
      (not_le.2 hlt)

/-- A section without a map is looked up as a place of its old content, or not at all. -/
theorem lookup_replaced (h : Spliced k (before ++ (s, o) :: after) m) (hmap : o.map? = none)
    {inside rest : List Char} (hcode : o.code.toList = inside ++ rest) (hrest : rest ≠ []) :
    m.lookup (LineCol.after (textBefore k.source.toList before s ++ inside)) = none ∨
      ∃ n q, s.contentSpan.start ≤ n ∧ n ≤ s.contentSpan.stop ∧
        Text.position? k.source.toList n = some q ∧
        m.lookup (LineCol.after (textBefore k.source.toList before s ++ inside)) =
          some ⟨k.path.text, q⟩ := by
  have hplaced : s.Placed k.source.toList := h.inOrder.placed (s, o) (by simp)
  let place : Splice.Place (pieces k.source.toList 0 (before ++ (s, o) :: after)) :=
    { before := piecesUpTo k.source.toList 0 s.contentSpan.start before
      piece := .replaced s.contentSpan o.code
      after := piecesUpTo k.source.toList s.contentSpan.stop (Text.byteLength k.source.toList) after
      inside, rest
      pieces_eq := by rw [pieces_eq_piecesUpTo, piecesUpTo_split, contentPiece, hmap]
      text_eq := hcode
      rest_ne := hrest }
  obtain ⟨front, back, hsource, hstart, -⟩ := Text.slice?_eq_some_iff.1 hplaced.standsIn
  have hlong : 0 < Text.byteLength o.code.toList := by
    rw [Text.byteLength_pos, hcode]
    exact fun hnil => hrest (List.append_eq_nil_iff.1 hnil).2
  have hsize := byteLength_content_lt h.size
  rw [hcode, ← List.append_assoc] at hsize
  have hend := LineCol.after_lt hsize hrest
  have hbegin : LineCol.after (textBefore k.source.toList before s) ≤
      LineCol.after (textBefore k.source.toList before s ++ inside) := by
    rw [Text.byteLength_append] at hsize
    exact LineCol.after_le (by omega)
  rw [List.append_assoc, ← hcode] at hend
  obtain ⟨z, hz, hzstart⟩ := h.exists_start place (n := s.contentSpan.start)
    (List.mem_map.2 ⟨0, Splice.zero_mem_anchors_of_lt _ (Nat.lt_add_of_pos_right hlong), rfl⟩)
    ⟨front, _, hsource, hstart⟩
  have houter : m.lookup (LineCol.after (textBefore k.source.toList before s ++ inside)) = _ :=
    h.lookup_eq_outer place (by simp [place]) hz hzstart
  rw [houter, PositionMap.lookup_eq]
  cases hx : PositionMap.nearest (LineCol.after (Splice.codeChars place.before ++ place.inside))
      (outerMap k (before ++ (s, o) :: after)).mappings with
  | none => exact .inl rfl
  | some x =>
    obtain ⟨hmem, hle⟩ := PositionMap.nearest_mem (outerMap k _).ordered hx
    have hge := PositionMap.le_nearest (outerMap k _).ordered hx hz (hzstart ▸ hbegin)
    rw [hzstart] at hge
    obtain ⟨n, q, hn, hn', hq, horiginal⟩ :=
      h.original_in_section hmap hmem hge (lt_of_le_of_lt hle hend)
    have hxeq : x = ⟨x.generated, some ⟨0, q⟩⟩ := by rw [← horiginal]
    have hsources : (outerMap k (before ++ (s, o) :: after)).sources = [⟨k.path.text, none⟩] :=
      Splice.toPositionMap_sources _ _ _ _
    rw [Option.bind_some, hxeq, PositionMap.resolve_singleton hsources]
    split
    · exact .inr ⟨n, q, hn, hn', hq, rfl⟩
    · exact .inl rfl

end Spliced

/-- The map of a document with new contents in its sections. There is none exactly if one of them
comes with a map that tells a place that does not fit into the document. A section that brings a map
is looked up as by that map, its old positions counted from where its content was; only in front of
the first mapping on the first line, the angle bracket of the opening tag is found. A section
without a map is looked up as a place of its old content or not at all, and markup as the token of
the markup that it is in, which is in none of the sections, but for what is left of an empty section
in front of it. -/
theorem lookup_spliced {k : SectionContext} {result : ScanResult}
    {outputs : List (Section × SectionOutput)} (hscan : scan k.source = .ok result)
    (hindex : k.index = .ofText k.source)
    (houtputs : (outputs.map Prod.fst).Sublist result.component.sections)
    (hmapped : Mapped outputs) (hsource : Text.byteLength k.source.toList < UInt32.size)
    (hsize : Text.byteLength (newText k.source.toList outputs) < UInt32.size) :
    (splice k outputs = .error ⟨⟩ ↔ ∃ x ∈ outputs, Overflows k.source.toList x) ∧
    ∀ plain, splice k outputs = .ok plain →
      plain.code.toList = newText k.source.toList outputs ∧
      ∃ m, plain.map? = some m ∧
      (∀ before s o after, outputs = before ++ (s, o) :: after → ∀ map, o.map? = some map →
        ∃ base angle, Text.position? k.source.toList s.contentSpan.start = some base ∧
          Text.position? k.source.toList (s.contentSpan.start - 1) = some angle ∧
          (∀ n r, Text.position? s.content.toList n = some r → ∃ p, r.relativeTo base = .ok p ∧
            Text.position? k.source.toList (s.contentSpan.start + n) = some p) ∧
          ∀ q : LineCol, q.IsIn o.code.toList → q < LineCol.after o.code.toList →
            ∃ p, q.relativeTo (LineCol.after (textBefore k.source.toList before s)) = .ok p ∧
              (if q.line = 0 ∧ ∀ x ∈ map.mappings, q < x.generated then
                .ok (some ⟨k.path.text, angle⟩)
              else (map.lookup q).mapM fun r => r.inDocument k.path base) = .ok (m.lookup p)) ∧
      (∀ before s o after, outputs = before ++ (s, o) :: after → o.map? = none →
        ∀ inside rest, o.code.toList = inside ++ rest → rest ≠ [] →
          m.lookup (LineCol.after (textBefore k.source.toList before s ++ inside)) = none ∨
            ∃ n q, s.contentSpan.start ≤ n ∧ n ≤ s.contentSpan.stop ∧
              Text.position? k.source.toList n = some q ∧
              m.lookup (LineCol.after (textBefore k.source.toList before s ++ inside)) =
                some ⟨k.path.text, q⟩) ∧
      ∀ (place : Splice.Place (pieces k.source.toList 0 outputs)) (start : Nat) (text : String),
        place.piece = .copied start text →
          ∃ token q, Splice.IsTokenOf text.toList (Text.byteLength place.inside) token ∧
            (∀ x ∈ outputs, start + token < x.1.contentSpan.start ∨
              x.1.contentSpan.stop ≤ start + token) ∧
            Text.position? k.source.toList (start + token) = some q ∧
            m.lookup (LineCol.after (Splice.codeChars place.before ++ place.inside)) =
              some ⟨k.path.text, if token = 0 then
                (Splice.leftoverBehind? k.source.toList place.before).getD q else q⟩ := by
  obtain ⟨hplaced, hapart, -⟩ := scan_ok hscan
  have hinOrder := inOrder_of_sublist hplaced hapart houtputs
  have hfails := splice_eq_error_iff_overflows hindex hinOrder hmapped hsize
  refine ⟨hfails, fun plain hplain => ?_⟩
  obtain ⟨hcode, m, hm, hsources, hholds⟩ := splice_holdsInOrder hindex hplain
  have hfits : ∀ x ∈ outputs, ¬ Overflows k.source.toList x := by
    intro x hx hoverflows
    rw [hfails.2 ⟨x, hx, hoverflows⟩] at hplain
    cases hplain
  have h : Spliced k outputs m := ⟨hinOrder, hmapped, hsize, hsources, hholds⟩
  refine ⟨hcode, m, hm, ?_, ?_, fun place start text => h.lookup_copied place⟩
  · rintro before s o after rfl map hmap
    have hs : s.Placed k.source.toList := h.inOrder.placed (s, o) (by simp)
    obtain ⟨opening, hopening⟩ := h.inOrder.exists_angle (StandsAt.zero _)
    obtain ⟨x, y, hcontent, hstart, -⟩ := Text.slice?_eq_some_iff.1 hs.standsIn
    obtain ⟨u, v, hangle, hbefore, -⟩ := Text.slice?_eq_some_iff.1 hs.angle
    obtain ⟨angle, hangle⟩ := Text.exists_position? ⟨u, _, hangle, hbefore⟩
    have hbase : Text.position? k.source.toList s.contentSpan.start = some (LineCol.after x) := by
      rw [hcontent, hstart]
      exact LineIndex.unitLineCol?_append _ _
    have hat : MappedAt k before after s o map m opening (LineCol.after x) :=
      ⟨h, hopening, hmap, hbase⟩
    refine ⟨_, angle, hbase, hangle, fun n r hr => ?_, fun q hq hlt =>
      hat.lookup_told hangle (hfits (s, o) (by simp)) hq hlt⟩
    rw [hcontent] at hsource ⊢
    rw [hstart]
    exact Text.exists_position?_shift hr hsource
  · rintro before s o after rfl hmap inside rest hinside hrest
    exact h.lookup_replaced hmap hinside hrest

/-- A style in another language. -/
def styled : SectionContext :=
  ⟨{}, ⟨"A.svelte"⟩, "<style lang=\"scss\">ab</style>", .ofText "<style lang=\"scss\">ab</style>"⟩

/-- Its section with new content, and a map that starts behind the first character of that. -/
def styledOutput : Section × SectionOutput :=
  (⟨.style, ⟨0, 29⟩, ⟨19, 21⟩, "ab", [⟨"lang", some "scss", ⟨7, 18⟩⟩]⟩,
    ⟨"a b", some ((PositionMap.empty.addSource "a.scss").1.add ⟨0, 2⟩ 0 ⟨0, 1⟩)⟩)

theorem scan_styled : scan styled.source = .ok ⟨⟨none, none, some styledOutput.1⟩, []⟩ := by
  decide +kernel

theorem mapped_styledOutput : Mapped [styledOutput] := by
  intro x hx map hmap
  obtain rfl := List.mem_singleton.1 hx
  obtain rfl := Option.some.inj hmap
  refine ⟨fun y hy => ?_, fun y hy o ho => ?_⟩
  · obtain rfl := List.mem_singleton.1 hy
    exact ⟨by decide, by decide⟩
  · obtain rfl := List.mem_singleton.1 hy
    obtain rfl := Option.some.inj ho
    exact ⟨"a.scss", by decide⟩

theorem lookup_spliced_of_style :
    scan styled.source = .ok ⟨⟨none, none, some styledOutput.1⟩, []⟩ ∧ Mapped [styledOutput] ∧
      ∃ plain m, splice styled [styledOutput] = .ok plain ∧ plain.map? = some m ∧
        m.lookup ⟨0, 21⟩ = some ⟨"A.svelte", ⟨0, 20⟩⟩ ∧
        m.lookup ⟨0, 19⟩ = some ⟨"A.svelte", ⟨0, 18⟩⟩ := by
  obtain ⟨plain, hplain⟩ : ∃ plain, splice styled [styledOutput] = .ok plain :=
    Checked.exists_eq_ok (by decide +kernel)
  obtain ⟨-, hspliced⟩ := lookup_spliced scan_styled rfl
    (List.Sublist.refl _) mapped_styledOutput (by decide) (by decide +kernel)
  obtain ⟨-, m, hm, hsections, -⟩ := hspliced plain hplain
  obtain ⟨base, angle, hbase, hangle, -, hlookup⟩ :=
    hsections [] styledOutput.1 styledOutput.2 [] rfl _ rfl
  obtain rfl : base = ⟨0, 19⟩ := by
    rw [← Option.some_inj, ← hbase]
    decide +kernel
  obtain rfl : angle = ⟨0, 18⟩ := by
    rw [← Option.some_inj, ← hangle]
    decide +kernel
  have hstart : LineCol.after (textBefore styled.source.toList [] styledOutput.1) = ⟨0, 19⟩ := by
    decide +kernel
  obtain ⟨p, hp, hmapping⟩ := hlookup ⟨0, 2⟩ ⟨by decide, by decide⟩ (by decide)
  obtain ⟨q, hq, hfirst⟩ := hlookup ⟨0, 0⟩ ⟨by decide, by decide⟩ (by decide)
  rw [hstart] at hp hq
  cases hp
  cases hq
  exact ⟨scan_styled, mapped_styledOutput, plain, m, hplain, hm, (Except.ok.inj hmapping).symm,
    (Except.ok.inj hfirst).symm⟩

/-- A section is not always looked up as by its own map. -/
theorem lookup_of_angle :
    ¬ ∀ (k : SectionContext) (result : ScanResult) (outputs : List (Section × SectionOutput)),
      scan k.source = .ok result → k.index = .ofText k.source →
      (outputs.map Prod.fst).Sublist result.component.sections → Mapped outputs →
      ∀ plain m, splice k outputs = .ok plain → plain.map? = some m →
      ∀ before s o after map base, outputs = before ++ (s, o) :: after → o.map? = some map →
      Text.position? k.source.toList s.contentSpan.start = some base →
      ∀ q p : LineCol, q.IsIn o.code.toList → q < LineCol.after o.code.toList →
      q.relativeTo (LineCol.after (textBefore k.source.toList before s)) = .ok p →
      ((map.lookup q).mapM fun r => r.inDocument k.path base) = .ok (m.lookup p) := by
  intro h
  obtain ⟨plain, hplain⟩ : ∃ plain, splice styled [styledOutput] = .ok plain :=
    Checked.exists_eq_ok (by decide +kernel)
  obtain ⟨m, hm, -⟩ := splice_map_sources hplain
  have hlookup := h styled _ [styledOutput] scan_styled rfl (List.Sublist.refl _)
    mapped_styledOutput plain m hplain hm [] styledOutput.1
    styledOutput.2 [] _ ⟨0, 19⟩ rfl rfl (by decide +kernel) ⟨0, 0⟩ ⟨0, 19⟩
    ⟨by decide, by decide⟩ (by decide) (by decide +kernel)
  have hangle : ((splice styled [styledOutput]).toOption.bind Preprocessed.map?).map
      (·.lookup ⟨0, 19⟩) = some (some ⟨"A.svelte", ⟨0, 18⟩⟩) := by decide +kernel
  rw [hplain, Except.toOption, Option.bind_some, hm, Option.map_some, Option.some.injEq] at hangle
  rw [hangle] at hlookup
  exact absurd hlookup (by decide +kernel)

end Preprocessed

end ComponentBuild
