import ComponentBuild.Proofs.Splice.Marks
import Mathlib.Data.Finset.Max

namespace ComponentBuild

namespace PositionMap

/-- A map holds the mappings that marks make, and no others. -/
def Shows (m : PositionMap) (generated original : List Char) (marks : List Mark) : Prop :=
  ∀ x, x ∈ m.mappings ↔ ∃ a ∈ marks, a.mapping? generated original = some x

theorem resolve_singleton {m : PositionMap} {s : Source} (h : m.sources = [s]) (p q : LineCol) :
    m.resolve ⟨p, some ⟨0, q⟩⟩ = some ⟨s.name, q⟩ := by
  simp [resolve, sourceName?, h]

end PositionMap

/-- The map of pieces that fit shows their marks, with the original embedded or without it. -/
theorem Splice.shows_toPositionMap {pieces : List Piece} {original : String}
    (h : ∀ piece ∈ pieces, piece.Fits original.toList) (source text : String) :
    ((toPositionMap pieces (code pieces) original source).setContent 0 text).Shows
      (codeChars pieces) original.toList (marksFrom original.toList 0 pieces) := by
  rw [← toList_code]
  exact mem_toPositionMap h

/-- The last mark in front of a place speaks for it. -/
theorem PositionMap.lookup_of_mark {m : PositionMap} {generated original : List Char}
    {marks : List Mark} (hm : m.Shows generated original marks)
    (hsize : Text.byteLength generated < UInt32.size) {a : Mark} {x : Mapping} {n : Nat}
    {p : LineCol} (ha : a ∈ marks) (hx : a.mapping? generated original = some x)
    (hp : Text.position? generated n = some p) (hle : a.generated ≤ n)
    (hmax : ∀ b ∈ marks, (b.mapping? generated original).isSome → b.generated ≤ n →
      b.generated ≤ a.generated)
    (huniq : ∀ b ∈ marks, b.generated = a.generated → b.original = a.original) :
    m.lookup p = if x.generated.line = p.line then m.resolve x else none := by
  have hxa := Mark.position_of_mapping hx
  apply lookup_of_greatest
  · exact (hm x).2 ⟨a, ha, hx⟩
  · exact (Text.position?_le_iff hsize hxa hp).2 hle
  · intro y hy hyp
    obtain ⟨b, hb, hby⟩ := (hm y).1 hy
    have hyb := Mark.position_of_mapping hby
    have hbn := (Text.position?_le_iff hsize hyb hp).1 hyp
    exact (Text.position?_le_iff hsize hyb hxa).2 (hmax b hb (by rw [hby]; rfl) hbn)
  · intro y hy hyx
    obtain ⟨b, hb, hby⟩ := (hm y).1 hy
    have hyb := Mark.position_of_mapping hby
    have hba : b.generated = a.generated := (Text.position?_eq_iff hsize hyb hxa).1 hyx
    have hmark : b = a := by
      cases a
      cases b
      rw [Mark.mk.injEq]
      exact ⟨hba, huniq _ hb hba⟩
    rw [hmark, hx] at hby
    cases hby
    rfl

namespace Splice

/-- Each place of the text in front of a character is in one of the pieces. -/
theorem exists_piece {pieces : List Piece} {front back : List Char}
    (h : codeChars pieces = front ++ back) (hback : back ≠ []) :
    ∃ before piece after inside rest, pieces = before ++ piece :: after ∧
      piece.text.toList = inside ++ rest ∧ rest ≠ [] ∧ front = codeChars before ++ inside := by
  induction pieces generalizing front with
  | nil => exact absurd (List.append_eq_nil_iff.1 h.symm).2 hback
  | cons piece pieces ih =>
    rw [codeChars_cons] at h
    by_cases hlt : Text.byteLength front < Text.byteLength piece.text.toList
    · obtain ⟨rest, hrest, -⟩ := Text.exists_middle h.symm (Nat.le_of_lt hlt)
      refine ⟨[], piece, pieces, front, rest, rfl, hrest, ?_, rfl⟩
      rintro rfl
      rw [hrest, List.append_nil] at hlt
      exact Nat.lt_irrefl _ hlt
    · obtain ⟨m, rfl, hm⟩ := Text.exists_middle h (Nat.le_of_not_lt hlt)
      obtain ⟨before, p, after, inside, rest, rfl, hp, hrest, rfl⟩ := ih hm
      refine ⟨piece :: before, p, after, inside, rest, rfl, hp, hrest, ?_⟩
      rw [codeChars_cons, List.append_assoc]

/-- A mark stands in front of a piece, is one of its own, or stands behind it. -/
theorem mark_cases {before after : List Piece} {piece : Piece} {original : List Char} {a : Mark}
    (h : ∀ p ∈ before ++ piece :: after, p.Fits original)
    (ha : a ∈ marksFrom original 0 (before ++ piece :: after)) :
    a.generated < size before ∨ a ∈ piece.marks original (size before) ∨
      size before + Text.byteLength piece.text.toList ≤ a.generated := by
  rw [marksFrom_append, Nat.zero_add, marksFrom, List.mem_append, List.mem_append] at ha
  rcases ha with ha | ha | ha
  · have hb := marksFrom_bounds (fun p hp => h p (List.mem_append_left _ hp)) ha
    exact .inl (by omega)
  · exact .inr (.inl ha)
  · have hb := marksFrom_bounds
      (fun p hp => h p (List.mem_append_right _ (List.mem_cons_of_mem _ hp))) ha
    exact .inr (.inr hb.1)

theorem marks_unique {piece : Piece} {original : List Char} {offset : Nat} {a b : Mark}
    (ha : a ∈ piece.marks original offset) (hb : b ∈ piece.marks original offset)
    (h : b.generated = a.generated) : b.original = a.original := by
  cases piece with
  | copied start text =>
    obtain ⟨d, -, rfl⟩ := List.mem_map.1 ha
    obtain ⟨e, -, rfl⟩ := List.mem_map.1 hb
    rw [Nat.add_left_cancel h]
  | replaced span text =>
    obtain ⟨d, -, rfl⟩ := List.mem_map.1 ha
    obtain ⟨e, -, rfl⟩ := List.mem_map.1 hb
    rw [Nat.add_left_cancel h]
  | generated text =>
    simp only [Piece.marks] at ha hb
    split at ha
    · cases ha
    next hne =>
      rw [if_neg hne] at hb
      rw [List.mem_singleton.1 ha, List.mem_singleton.1 hb]
  | external text => cases ha

section

variable {m : PositionMap} {before after : List Piece} {piece : Piece} {original : List Char}
  {inside rest : List Char}

/-- For a place in a piece, the last mark of the piece in front of the place speaks. -/
theorem lookup_of_piece
    (hm : m.Shows (codeChars (before ++ piece :: after)) original
      (marksFrom original 0 (before ++ piece :: after)))
    (hfits : ∀ p ∈ before ++ piece :: after, p.Fits original)
    (hsize : size (before ++ piece :: after) < UInt32.size)
    (htext : piece.text.toList = inside ++ rest) (hrest : rest ≠ []) {a : Mark} {x : Mapping}
    (ha : a ∈ piece.marks original (size before))
    (hx : a.mapping? (codeChars (before ++ piece :: after)) original = some x)
    (hle : a.generated ≤ size before + Text.byteLength inside)
    (hmax : ∀ b ∈ piece.marks original (size before),
      (b.mapping? (codeChars (before ++ piece :: after)) original).isSome →
      b.generated ≤ size before + Text.byteLength inside → b.generated ≤ a.generated) :
    m.lookup (LineCol.after (codeChars before ++ inside)) =
      if x.generated.line = (LineCol.after (codeChars before ++ inside)).line then m.resolve x
      else none := by
  have hlen : Text.byteLength inside < Text.byteLength piece.text.toList := by
    have hpos := Text.byteLength_pos.2 hrest
    rw [htext, Text.byteLength_append]
    omega
  have hcode : codeChars (before ++ piece :: after) =
      (codeChars before ++ inside) ++ (rest ++ codeChars after) := by
    rw [codeChars_append, codeChars_cons, htext]
    simp only [List.append_assoc]
  have hp : Text.position? (codeChars (before ++ piece :: after))
      (size before + Text.byteLength inside) =
        some (LineCol.after (codeChars before ++ inside)) := by
    rw [hcode, size, ← Text.byteLength_append]
    exact LineIndex.unitLineCol?_append _ _
  have hamem : a ∈ marksFrom original 0 (before ++ piece :: after) := by
    rw [marksFrom_append, Nat.zero_add, marksFrom]
    exact List.mem_append_right _ (List.mem_append_left _ ha)
  have hbounds := marks_bounds (hfits piece (by simp)) ha
  refine PositionMap.lookup_of_mark hm hsize hamem hx hp hle ?_ ?_
  · intro b hb hsome hbn
    rcases mark_cases hfits hb with hlt | hb | hge
    · omega
    · exact hmax b hb hsome hbn
    · omega
  · intro b hb heq
    rcases mark_cases hfits hb with hlt | hb | hge
    · omega
    · exact marks_unique ha hb heq
    · omega

theorem lookup_generated {text : String}
    (hm : m.Shows (codeChars (before ++ .generated text :: after)) original
      (marksFrom original 0 (before ++ .generated text :: after)))
    (hfits : ∀ p ∈ before ++ .generated text :: after, p.Fits original)
    (hsize : size (before ++ .generated text :: after) < UInt32.size)
    (htext : text.toList = inside ++ rest) (hrest : rest ≠ []) :
    m.lookup (LineCol.after (codeChars before ++ inside)) = none := by
  have hne : text ≠ "" := by
    rintro rfl
    exact hrest (List.append_eq_nil_iff.1 htext.symm).2
  have hmarks : (Piece.generated text).marks original (size before) = [⟨size before, none⟩] :=
    if_neg hne
  have hx : (⟨size before, none⟩ : Mark).mapping?
      (codeChars (before ++ .generated text :: after)) original =
        some ⟨LineCol.after (codeChars before), none⟩ := by
    unfold Mark.mapping?
    rw [codeChars_append, size]
    exact congrArg (Option.bind · _) (LineIndex.unitLineCol?_append _ _)
  rw [lookup_of_piece hm hfits hsize htext hrest (hmarks ▸ List.mem_singleton_self _) hx
    (Nat.le_add_right _ _)]
  · split <;> rfl
  · intro b hb _ _
    rw [hmarks, List.mem_singleton] at hb
    exact Nat.le_of_eq (congrArg Mark.generated hb)

theorem lookup_copied {start : Nat} {text : String} {s : Source} (hs : m.sources = [s])
    (hm : m.Shows (codeChars (before ++ .copied start text :: after)) original
      (marksFrom original 0 (before ++ .copied start text :: after)))
    (hfits : ∀ p ∈ before ++ .copied start text :: after, p.Fits original)
    (hsize : size (before ++ .copied start text :: after) < UInt32.size)
    (htext : text.toList = inside ++ rest) (hrest : rest ≠ []) :
    ∃ token q, IsTokenOf text.toList (Text.byteLength inside) token ∧
      Text.position? original (start + token) = some q ∧
      m.lookup (LineCol.after (codeChars before ++ inside)) = some ⟨s.name, q⟩ := by
  obtain ⟨c, rest, rfl⟩ := List.exists_cons_of_ne_nil hrest
  obtain ⟨front, token, rfl, hline, htoken⟩ := exists_isTokenOf inside c rest
  rw [← htext] at htoken
  obtain ⟨x, y, horiginal, rfl, -⟩ :=
    Text.slice?_eq_some_iff.1 (hfits (.copied start text) (by simp))
  have hq : Text.position? original (Text.byteLength x + Text.byteLength front) =
      some (LineCol.after (x ++ front)) := by
    rw [← Text.byteLength_append, horiginal, htext]
    simp only [List.append_assoc]
    rw [← List.append_assoc]
    exact LineIndex.unitLineCol?_append _ _
  have hp : Text.position? (codeChars (before ++ .copied (Text.byteLength x) text :: after))
      (size before + Text.byteLength front) = some (LineCol.after (codeChars before ++ front)) := by
    rw [size, ← Text.byteLength_append, codeChars_append, codeChars_cons, Piece.text, htext]
    simp only [List.append_assoc]
    rw [← List.append_assoc]
    exact LineIndex.unitLineCol?_append _ _
  have hx : (⟨size before + Text.byteLength front,
      some (Text.byteLength x + Text.byteLength front)⟩ : Mark).mapping?
      (codeChars (before ++ .copied (Text.byteLength x) text :: after)) original =
      some ⟨LineCol.after (codeChars before ++ front),
        some ⟨0, LineCol.after (x ++ front)⟩⟩ := by
    simp only [Mark.mapping?, hp, hq, Option.bind_some, Option.map_some]
  refine ⟨Text.byteLength front, _, htoken, hq, ?_⟩
  rw [lookup_of_piece hm hfits hsize htext hrest
    (List.mem_map.2 ⟨Text.byteLength front, htoken.mem, rfl⟩) hx
    (Nat.add_le_add_left htoken.le _)]
  · rw [if_pos, PositionMap.resolve_singleton hs]
    rw [← List.append_assoc, LineCol.after_line_append hline]
  · intro b hb _ hle
    obtain ⟨d, hd, rfl⟩ := List.mem_map.1 hb
    exact Nat.add_le_add_left (htoken.greatest d hd (Nat.le_of_add_le_add_left hle)) _

theorem zero_mem_anchors {old : List Char} (link : Link) (hne : old ≠ [])
    (hold : Text.slice? original link.original.start link.original.stop = some old) :
    0 ∈ anchors original link := by
  unfold anchors
  simp only [hold]
  split
  · exact zero_mem_tokenStarts hne
  · exact List.mem_singleton_self _

theorem exists_greatest {P : Nat → Prop} [DecidablePred P] {ns : List Nat} (h : ∃ n ∈ ns, P n) :
    ∃ n ∈ ns, P n ∧ ∀ k ∈ ns, P k → k ≤ n := by
  obtain ⟨n, hn, hp⟩ := h
  obtain ⟨m, hm, hgreatest⟩ := Finset.exists_max_image (ns.toFinset.filter P) id
    ⟨n, Finset.mem_filter.2 ⟨List.mem_toFinset.2 hn, hp⟩⟩
  obtain ⟨hmem, hpm⟩ := Finset.mem_filter.1 hm
  refine ⟨m, List.mem_toFinset.1 hmem, hpm, fun k hk hpk => ?_⟩
  exact hgreatest k (Finset.mem_filter.2 ⟨List.mem_toFinset.2 hk, hpk⟩)

/-- Text on one line in the place of other text stands for places in that. -/
theorem lookup_replaced {span : Span} {text : String} {s : Source} (hs : m.sources = [s])
    (hm : m.Shows (codeChars (before ++ .replaced span text :: after)) original
      (marksFrom original 0 (before ++ .replaced span text :: after)))
    (hfits : ∀ p ∈ before ++ .replaced span text :: after, p.Fits original)
    (hsize : size (before ++ .replaced span text :: after) < UInt32.size)
    (hspan : span.start < span.stop) (hline : '\n' ∉ text.toList)
    (htext : text.toList = inside ++ rest) (hrest : rest ≠ []) :
    ∃ n q, span.start ≤ n ∧ n < span.stop ∧ Text.position? original n = some q ∧
      m.lookup (LineCol.after (codeChars before ++ inside)) = some ⟨s.name, q⟩ := by
  obtain ⟨-, old, hold⟩ := hfits (.replaced span text) (by simp)
  obtain ⟨x, y, horiginal, hstart, hstop⟩ := Text.slice?_eq_some_iff.1 hold
  have hcode : codeChars (before ++ .replaced span text :: after) =
      codeChars before ++ (inside ++ (rest ++ codeChars after)) := by
    rw [codeChars_append, codeChars_cons, Piece.text, htext, List.append_assoc]
  have hne : old ≠ [] := by
    rintro rfl
    rw [Text.byteLength_nil] at hstop
    omega
  -- The first byte is marked, so there is a last mark in front of the place.
  have hzero : ((⟨size before + 0, some (span.start + 0)⟩ : Mark).mapping?
      (codeChars (before ++ .replaced span text :: after)) original).isSome := by
    have hp := LineIndex.unitLineCol?_append (codeChars before)
      (inside ++ (rest ++ codeChars after))
    have hq := LineIndex.unitLineCol?_append x (old ++ y)
    rw [← hcode] at hp
    rw [← horiginal, ← hstart] at hq
    simp only [Mark.mapping?, Text.position?, size, Nat.add_zero, hp, hq, Option.bind_some,
      Option.map_some, Option.isSome_some]
  obtain ⟨d, hd, ⟨hsome, hle⟩, hgreatest⟩ := exists_greatest
    (P := fun d => ((⟨size before + d, some (span.start + d)⟩ : Mark).mapping?
      (codeChars (before ++ .replaced span text :: after)) original).isSome = true ∧
        d ≤ Text.byteLength inside)
    ⟨0, zero_mem_anchors ⟨⟨size before, _⟩, span⟩ hne hold, hzero, Nat.zero_le _⟩
  obtain ⟨z, hz⟩ := Option.isSome_iff_exists.1 hsome
  obtain ⟨q, hq, hzo⟩ := Mark.mapping_of_some hz
  have hlt : d < Text.byteLength old := by
    rcases eq_zero_or_lt_of_mem_anchors hold hd with rfl | ⟨-, hlt⟩
    · exact Text.byteLength_pos.2 hne
    · exact hlt
  refine ⟨span.start + d, q, Nat.le_add_right _ _, by omega, hq, ?_⟩
  rw [lookup_of_piece hm hfits hsize htext hrest (List.mem_map.2 ⟨d, hd, rfl⟩) hz
    (Nat.add_le_add_left hle _)]
  · have hzp := Mark.position_of_mapping hz
    rw [hcode] at hzp
    have hzline := Text.position?_line hzp
      (fun h => hline (htext ▸ List.mem_append_left _ h)) (Nat.le_add_right _ _)
      (Nat.add_le_add_left hle _)
    have hzeq : z = ⟨z.generated, some ⟨0, q⟩⟩ := by
      rw [← hzo]
    rw [if_pos hzline, hzeq, PositionMap.resolve_singleton hs]
  · intro b hb hbsome hble
    obtain ⟨e, he, rfl⟩ := List.mem_map.1 hb
    exact Nat.add_le_add_left (hgreatest e he ⟨hbsome, Nat.le_of_add_le_add_left hble⟩) _

end

/-- Pieces that fit the original, each with its marks in the map; what takes the place of other text
stands on one line. -/
structure WellFormed (original : List Char) (pieces : List Piece) : Prop where
  fits : ∀ piece ∈ pieces, piece.Fits original
  span : ∀ span text, .replaced span text ∈ pieces → span.start < span.stop
  line : ∀ span text, .replaced span text ∈ pieces → '\n' ∉ text.toList
  inside : ∀ text, .external text ∉ pieces
  size : size pieces < UInt32.size

end Splice

/-- What a lookup answers for an offset of a piece: in copied text the start of the token there, in
text that replaces other text a place in that, and nothing in text that came from nowhere. -/
def Piece.Answers (original : List Char) (source : String) (offset : Nat)
    (answer : Option Resolved) : Piece → Prop
  | copied start text =>
    ∃ token q, Splice.IsTokenOf text.toList offset token ∧
      Text.position? original (start + token) = some q ∧ answer = some ⟨source, q⟩
  | replaced span _ =>
    ∃ n q, span.start ≤ n ∧ n < span.stop ∧ Text.position? original n = some q ∧
      answer = some ⟨source, q⟩
  | generated _ => answer = none
  | external _ => False

/-- A map from a text that is put together to the one text its pieces are from. Each place of the
new text is in a piece, and is looked up as one in that piece. -/
structure PositionMap.Resolves (m : PositionMap) (pieces : List Piece) (source original : String) :
    Prop where
  sources : m.sources = [⟨source, some original⟩]
  fits : ∀ piece ∈ pieces, piece.Fits original.toList
  answers : ∀ n p, Text.position? (Splice.codeChars pieces) n = some p → n < Splice.size pieces →
    ∃ before piece after offset, pieces = before ++ piece :: after ∧
      n = Splice.size before + offset ∧ offset < Text.byteLength piece.text.toList ∧
      piece.Answers original.toList source offset (m.lookup p)

namespace Splice

/-- A place of a piece is looked up as one of that piece, in the map of any pieces around it. -/
theorem answers_of_shows {m : PositionMap} {before after : List Piece} {piece : Piece}
    {source : String} {content? : Option String} {original inside rest : List Char}
    (hs : m.sources = [⟨source, content?⟩])
    (hwf : WellFormed original (before ++ piece :: after))
    (hm : m.Shows (codeChars (before ++ piece :: after)) original
      (marksFrom original 0 (before ++ piece :: after)))
    (htext : piece.text.toList = inside ++ rest) (hrest : rest ≠ []) :
    piece.Answers original source (Text.byteLength inside)
      (m.lookup (LineCol.after (codeChars before ++ inside))) := by
  cases piece with
  | copied start text => exact lookup_copied hs hm hwf.fits hwf.size htext hrest
  | generated text => exact lookup_generated hm hwf.fits hwf.size htext hrest
  | external text => exact hwf.inside text (by simp)
  | replaced span text =>
    have hmem : Piece.replaced span text ∈ before ++ .replaced span text :: after := by simp
    exact lookup_replaced hs hm hwf.fits hwf.size (hwf.span span text hmem)
      (hwf.line span text hmem) htext hrest

theorem resolves_of_shows {m : PositionMap} {pieces : List Piece} {source original : String}
    (hs : m.sources = [⟨source, some original⟩]) (hwf : WellFormed original.toList pieces)
    (hm : m.Shows (codeChars pieces) original.toList (marksFrom original.toList 0 pieces)) :
    m.Resolves pieces source original := by
  refine ⟨hs, hwf.fits, fun n p hp hn => ?_⟩
  obtain ⟨front, back, hcode, rfl, rfl⟩ := LineIndex.unitLineCol?_eq_some_iff.1 hp
  have hback : back ≠ [] := by
    rintro rfl
    rw [List.append_nil] at hcode
    rw [size, hcode] at hn
    exact Nat.lt_irrefl _ hn
  obtain ⟨before, piece, after, inside, rest, rfl, htext, hrest, rfl⟩ := exists_piece hcode hback
  refine ⟨before, piece, after, Text.byteLength inside, rfl, ?_, ?_, ?_⟩
  · rw [Text.byteLength_append, size]
  · have hpos := Text.byteLength_pos.2 hrest
    rw [htext, Text.byteLength_append]
    omega
  · exact answers_of_shows hs hwf hm htext hrest

/-- A map that takes in the map of one of its pieces is the map of all pieces, its own and those
of the part. -/
theorem shows_extendShifted {m part m' : PositionMap} (before inner after : List Piece)
    {text : String} {original front content back : List Char}
    (horiginal : original = front ++ (content ++ back)) (htext : text.toList = codeChars inner)
    (hm : m.Shows (codeChars (before ++ .external text :: after)) original
      (marksFrom original 0 (before ++ .external text :: after)))
    (hpart : part.Shows (codeChars inner) content (marksFrom content 0 inner))
    (hfits : ∀ piece ∈ inner, piece.Fits content)
    (hcontent : Text.byteLength content < UInt32.size) (hinner : size inner < UInt32.size)
    (hextended : m.extendShifted part (LineCol.after (codeChars before)) (LineCol.after front) 0 =
      .ok m') :
    m'.Shows
      (codeChars (before ++ (inner.map (Piece.shift (Text.byteLength front)) ++ after))) original
      (marksFrom original 0
        (before ++ (inner.map (Piece.shift (Text.byteLength front)) ++ after))) := by
  subst horiginal
  have hcode : codeChars (before ++ (inner.map (Piece.shift (Text.byteLength front)) ++ after)) =
      codeChars before ++ (codeChars inner ++ codeChars after) := by
    rw [codeChars_append, codeChars_append, codeChars_shift]
  have hcode' : codeChars (before ++ .external text :: after) =
      codeChars before ++ (codeChars inner ++ codeChars after) := by
    rw [codeChars_append, codeChars_cons, Piece.text, htext]
  have hshift (a : Mark) (ha : a ∈ marksFrom content 0 inner) :
      (a.shift (size before) (Text.byteLength front)).mapping?
          (codeChars before ++ (codeChars inner ++ codeChars after))
          (front ++ (content ++ back)) =
        (a.mapping? (codeChars inner) content).map
          (PositionMap.shifted (LineCol.after (codeChars before)) (LineCol.after front) 0) := by
    obtain ⟨-, hlt, ho⟩ := marksFrom_bounds hfits ha
    rw [Nat.zero_add] at hlt
    exact Mark.mapping?_shift hinner hcontent (Nat.le_of_lt hlt) ho _ _ _ _
  have hmarks := marksFrom_shift hfits front back (size before) 0
  rw [Nat.add_zero] at hmarks
  intro x
  rw [PositionMap.mem_extendShifted hextended, hm x, hcode, hcode', marksFrom_append,
    marksFrom_append, marksFrom_append, Nat.zero_add, hmarks]
  have hsize : size (inner.map (Piece.shift (Text.byteLength front))) =
      Text.byteLength (Piece.external text).text.toList := by
    rw [size, codeChars_shift, Piece.text, htext]
  rw [hsize]
  simp only [marksFrom, Piece.marks, List.nil_append, List.mem_append, List.mem_map]
  constructor
  · rintro (⟨a, ha | ha, hx⟩ | ⟨y, hy, rfl⟩)
    · exact ⟨a, .inl ha, hx⟩
    · exact ⟨a, .inr (.inr ha), hx⟩
    · obtain ⟨a, ha, hay⟩ := (hpart y).1 hy
      exact ⟨_, .inr (.inl ⟨a, ha, rfl⟩), by rw [hshift a ha, hay]; rfl⟩
  · rintro ⟨a, ha | ⟨b, hb, rfl⟩ | ha, hx⟩
    · exact .inl ⟨a, .inl ha, hx⟩
    · rw [hshift b hb] at hx
      obtain ⟨y, hy, rfl⟩ := Option.map_eq_some_iff.1 hx
      exact .inr ⟨y, (hpart y).2 ⟨b, hb, hy⟩, rfl⟩
    · exact .inl ⟨a, .inr ha, hx⟩

end Splice

end ComponentBuild
