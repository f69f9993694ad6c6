import ComponentBuild.Compile.Preprocess
import ComponentBuild.Proofs.Document.Sections
import ComponentBuild.Proofs.Splice.Lookup
import Mathlib.Data.List.Perm.Basic

namespace ComponentBuild

theorem Component.insertSection_perm (s : Section) (ss : List Section) :
    (insertSection s ss).Perm (s :: ss) := by
  induction ss with
  | nil => exact List.Perm.refl _
  | cons t ts ih =>
    unfold insertSection
    split
    · exact (ih.cons t).trans (List.Perm.swap s t ts)
    · exact List.Perm.refl _

/-- The sections in the order of the document are those of the slots. -/
theorem Component.sections_perm (c : Component) :
    c.sections.Perm ([c.moduleScript, c.instanceScript, c.style].filterMap id) := by
  unfold sections
  generalize [c.moduleScript, c.instanceScript, c.style].filterMap id = ss
  induction ss with
  | nil => exact List.Perm.refl _
  | cons s ss ih => exact (insertSection_perm s _).trans (ih.cons s)

theorem Component.mem_sections {c : Component} {s : Section} :
    s ∈ c.sections ↔ c.moduleScript = some s ∨ c.instanceScript = some s ∨ c.style = some s := by
  rw [c.sections_perm.mem_iff]
  simp only [List.mem_filterMap, List.mem_cons, List.not_mem_nil, or_false, id, exists_eq_right]
  simp only [eq_comm]

/-- Sections come in the order in which they start. -/
theorem Component.sections_ordered (c : Component) :
    c.sections.Pairwise fun s t => s.span.start ≤ t.span.start := by
  unfold sections
  induction [c.moduleScript, c.instanceScript, c.style].filterMap id with
  | nil => exact List.Pairwise.nil
  | cons s ss ih =>
    rw [List.foldr_cons]
    generalize ss.foldr insertSection [] = ts at ih ⊢
    induction ts with
    | nil => exact List.pairwise_singleton _ _
    | cons t ts ihts =>
      obtain ⟨ht, hts⟩ := List.pairwise_cons.1 ih
      unfold insertSection
      split
      next hlt =>
        refine List.pairwise_cons.2 ⟨fun u hu => ?_, ihts hts⟩
        rcases List.mem_cons.1 ((insertSection_perm s ts).mem_iff.1 hu) with rfl | hu
        · exact Nat.le_of_lt hlt
        · exact ht u hu
      next hge =>
        refine List.pairwise_cons.2 ⟨fun u hu => ?_, ih⟩
        have hst : s.span.start ≤ t.span.start := Nat.le_of_not_lt hge
        rcases List.mem_cons.1 hu with rfl | hu
        · exact hst
        · exact Nat.le_trans hst (ht u hu)

theorem changedSections_pure {k : SectionContext} {ss : List Section}
    {f : Section → Option SectionOutput} (h : ∀ s ∈ ss, s.output k = pure (f s)) :
    changedSections k ss = pure (ss.filterMap fun s => (f s).map (s, ·)) := by
  induction ss with
  | nil => rfl
  | cons s ss ih =>
    unfold changedSections
    rw [h s (List.mem_cons_self ..), ih fun t ht => h t (List.mem_cons_of_mem _ ht)]
    simp only [List.filterMap_cons]
    cases f s <;> rfl

/-- A script in JavaScript changes just by the rewriting of its reactive statements. -/
theorem Section.output_script {s : Section} {k : SectionContext} {o : Option SectionOutput}
    (hkind : s.kind = .script) (hlang : ScriptLanguage.ofName s.lang? = .javascript)
    (h : s.rewritten k .javascript = .ok o) : s.output k = pure o := by
  unfold output script
  rw [hkind, hlang]
  simp only [ScriptLanguage.dialect?, Option.map_some, h]
  rfl

theorem Section.output_style {s : Section} {k : SectionContext} (hkind : s.kind = .style)
    (h : styleNeedsTool (StyleLanguage.ofName s.lang?) k.options = false) :
    s.output k = pure none := by
  unfold output styleOutput
  rw [hkind]
  simp only [h]
  rfl

theorem Section.rewritten_perModule {s : Section} {k : SectionContext}
    (h : s.context = .perModule) : s.rewritten k .javascript = .ok none := by
  unfold rewritten Script.rewrite
  simp only [h, if_true]
  rfl

/-- New contents take the places of the old ones, unless a place that the map of one of them tells
does not fit. -/
theorem Preprocessed.splice_eq_ok_iff {k : SectionContext}
    {outputs : List (Section × SectionOutput)} {plain : Preprocessed} :
    let pieces := pieces k.source.toList 0 outputs
    let code := Splice.code pieces
    splice k outputs = .ok plain ↔ ∃ m,
      (parts 0 0 outputs).foldlM (fun m part =>
        m.extendShifted part.map (base (.ofText code) code part.generated)
          (base k.index k.source part.original) 0)
        (Splice.toPositionMap pieces code k.source k.path.text) = .ok m ∧
      ⟨code, some (m.setContent 0 k.source)⟩ = plain :=
  Checked.map_eq_ok_iff

namespace Preprocessed

/-- A map of a section tells a place that words cannot hold where the section is a part of the
document. -/
def Part.Overflows (k : SectionContext) (code : String) (part : Part) : Prop :=
  ∃ x ∈ part.map.mappings, ¬ PositionMap.FitsAt (base (.ofText code) code part.generated)
    (base k.index k.source part.original) x

theorem splice_eq_error_iff {k : SectionContext} {outputs : List (Section × SectionOutput)} :
    splice k outputs = .error ⟨⟩ ↔ ∃ part ∈ parts 0 0 outputs,
      part.Overflows k (Splice.code (pieces k.source.toList 0 outputs)) :=
  Checked.map_eq_error_iff.trans PositionMap.extendAll_eq_error_iff

theorem code_of_splice {k : SectionContext} {outputs : List (Section × SectionOutput)}
    {plain : Preprocessed} (h : splice k outputs = .ok plain) :
    plain.code = Splice.code (pieces k.source.toList 0 outputs) := by
  obtain ⟨m, -, rfl⟩ := splice_eq_ok_iff.1 h
  rfl

end Preprocessed

/-- Preprocessing maps to the document alone, and embeds its text. -/
theorem splice_map_sources {k : SectionContext} {outputs : List (Section × SectionOutput)}
    {plain : Preprocessed} (h : Preprocessed.splice k outputs = .ok plain) :
    ∃ m, plain.map? = some m ∧ m.sources = [⟨k.path.text, some k.source⟩] := by
  obtain ⟨m, hm, rfl⟩ := Preprocessed.splice_eq_ok_iff.1 h
  refine ⟨_, rfl, PositionMap.setContent_sources (s := ⟨k.path.text, none⟩) ?_ _⟩
  rw [(PositionMap.extendAll_eq_ok hm).1]
  exact Splice.toPositionMap_sources _ _ _ _

/-- The pieces of a document with other pieces in the place of the content of a section. -/
def Section.documentPieces (s : Section) (source : List Char) (inner : List Piece) : List Piece :=
  .copied 0 (Text.between source 0 s.contentSpan.start) ::
    (inner ++ [.copied s.contentSpan.stop
      (Text.between source s.contentSpan.stop (Text.byteLength source))])

/-- The text around the content of a section. -/
theorem Section.exists_around {s : Section} {source : List Char} (hs : s.StandsIn source) :
    ∃ front back, source = front ++ (s.content.toList ++ back) ∧
      s.contentSpan.start = Text.byteLength front ∧
      s.contentSpan.stop = Text.byteLength (front ++ s.content.toList) := by
  obtain ⟨front, back, hsource, hstart, hstop⟩ := Text.slice?_eq_some_iff.1 hs
  exact ⟨front, back, hsource, hstart, by rw [hstop, hstart, Text.byteLength_append]⟩

theorem Section.documentPieces_fits {s : Section} {source : List Char} {inner : List Piece}
    (hs : s.StandsIn source) (hinner : ∀ piece ∈ inner, piece.Fits source) :
    ∀ piece ∈ s.documentPieces source inner, piece.Fits source := by
  obtain ⟨front, back, hsource, hstart, hstop⟩ := s.exists_around hs
  have hstart' : Text.IsBoundary source s.contentSpan.start := ⟨front, _, hsource, hstart⟩
  have hstop' : Text.IsBoundary source s.contentSpan.stop :=
    ⟨front ++ s.content.toList, back, by rw [hsource, List.append_assoc], hstop⟩
  intro piece hp
  rcases List.mem_cons.1 hp with rfl | hp
  · exact Piece.copied_between_fits (Text.isBoundary_zero _) hstart' (Nat.zero_le _)
  rcases List.mem_append.1 hp with hp | hp
  · exact hinner piece hp
  · rw [List.mem_singleton.1 hp]
    exact Piece.copied_between_fits hstop' (Text.isBoundary_byteLength _) hstop'.le

theorem Preprocessed.base_ofText {text : String} {front back : List Char} {start : Nat}
    (htext : text.toList = front ++ back) (hstart : start = Text.byteLength front) :
    base (.ofText text) text start = LineCol.after front := by
  rw [base, LineIndex.ofText, htext, hstart]
  exact congrArg (Option.getD · _) (LineIndex.unitLineCol?_append _ _)

/-- A section that brings its own map is looked up in the document as by that map. -/
theorem shows_splice {k : SectionContext} {s : Section} {inner : List Piece} {part : PositionMap}
    (hindex : k.index = .ofText k.source) (hs : s.StandsIn k.source.toList)
    (hpart : part.Shows (Splice.codeChars inner) s.content.toList
      (Splice.marksFrom s.content.toList 0 inner))
    (hfits : ∀ piece ∈ inner, piece.Fits s.content.toList)
    (hsource : Text.byteLength k.source.toList < UInt32.size)
    (hsize : Splice.size (s.documentPieces k.source.toList
      (inner.map (Piece.shift s.contentSpan.start))) < UInt32.size) :
    let pieces := s.documentPieces k.source.toList
      (inner.map (Piece.shift s.contentSpan.start))
    ∃ m, Preprocessed.splice k [(s, ⟨Splice.code inner, some part⟩)] =
        .ok ⟨Splice.code pieces, some m⟩ ∧
      m.sources = [⟨k.path.text, some k.source⟩] ∧
      m.Shows (Splice.codeChars pieces) k.source.toList
        (Splice.marksFrom k.source.toList 0 pieces) := by
  intro pieces
  obtain ⟨front, back, hfront, hstart, -⟩ := s.exists_around hs
  let outer := s.documentPieces k.source.toList [.external (Splice.code inner)]
  let first := Piece.copied 0 (Text.between k.source.toList 0 s.contentSpan.start)
  let last := Piece.copied s.contentSpan.stop
    (Text.between k.source.toList s.contentSpan.stop (Text.byteLength k.source.toList))
  let outerMap := Splice.toPositionMap outer (Splice.code outer) k.source k.path.text
  have hfirst : Splice.codeChars [first] = front := by
    simp only [first, Splice.codeChars_cons, Splice.codeChars_nil, List.append_nil, Piece.text,
      hfront, hstart, Text.between_front, String.toList_ofList]
  have houter : outerMap.Shows (Splice.codeChars outer) k.source.toList
      (Splice.marksFrom k.source.toList 0 outer) := by
    rw [← Splice.toList_code]
    apply Splice.mem_toPositionMap
    exact s.documentPieces_fits hs (by simp [Piece.Fits])
  have hchars : Splice.codeChars outer =
      front ++ (Splice.codeChars inner ++ Splice.codeChars [last]) := by
    change Splice.codeChars ([first] ++ .external (Splice.code inner) :: [last]) = _
    rw [Splice.codeChars_append, hfirst, Splice.codeChars_cons, Piece.text, Splice.toList_code]
  have hpieces : Splice.codeChars pieces =
      front ++ (Splice.codeChars inner ++ Splice.codeChars [last]) := by
    change Splice.codeChars ([first] ++
      (inner.map (Piece.shift s.contentSpan.start) ++ [last])) = _
    rw [Splice.codeChars_append, Splice.codeChars_append, Splice.codeChars_shift, hfirst]
  have hcode : Splice.code outer = Splice.code pieces :=
    congrArg String.ofList (hchars.trans hpieces.symm)
  have hgenerated : Preprocessed.base (.ofText (Splice.code outer)) (Splice.code outer)
      (0 + (s.contentSpan.start - 0)) = LineCol.after front := by
    rw [Nat.sub_zero, Nat.zero_add]
    exact Preprocessed.base_ofText ((Splice.toList_code _).trans hchars) hstart
  have horiginal : Preprocessed.base k.index k.source s.contentSpan.start = LineCol.after front := by
    rw [hindex]
    exact Preprocessed.base_ofText hfront hstart
  -- All places of the part are in texts that stand in the two documents.
  have hbefore : Text.byteLength (front ++ Splice.codeChars inner) < UInt32.size := by
    have hle := hsize
    rw [Splice.size, hpieces, ← List.append_assoc, Text.byteLength_append] at hle
    omega
  have hcontent : Text.byteLength (front ++ s.content.toList) < UInt32.size := by
    rw [hfront, ← List.append_assoc, Text.byteLength_append] at hsource
    omega
  have hfitsAt : ∀ x ∈ part.mappings,
      PositionMap.FitsAt (LineCol.after front) (LineCol.after front) x := by
    intro x hx
    obtain ⟨a, -, ha⟩ := (hpart x).1 hx
    exact Mark.fitsAt_of_mapping ha hbefore hcontent
  obtain ⟨m, hm⟩ : ∃ m, outerMap.extendShifted part (LineCol.after front) (LineCol.after front) 0 =
      .ok m := ⟨_, PositionMap.extendShifted_eq_ok_iff.2 ⟨hfitsAt, rfl⟩⟩
  rw [Text.byteLength_append] at hbefore hcontent
  have hshows := Splice.shows_extendShifted [first] inner [last] hfront
    (Splice.toList_code inner) houter hpart hfits (by omega) (by rw [Splice.size]; omega)
    (by rwa [hfirst])
  rw [← hstart] at hshows
  refine ⟨m.setContent 0 k.source, Preprocessed.splice_eq_ok_iff.2 ⟨m, ?_, ?_⟩,
    PositionMap.setContent_sources (s := ⟨k.path.text, none⟩) ?_ _, hshows⟩
  · change (outerMap.extendShifted part
      (Preprocessed.base (.ofText (Splice.code outer)) (Splice.code outer)
        (0 + (s.contentSpan.start - 0)))
      (Preprocessed.base k.index k.source s.contentSpan.start) 0 >>= pure) = _
    rw [hgenerated, horiginal, hm]
    rfl
  · exact congrArg (Preprocessed.mk · _) hcode
  · rw [PositionMap.extendShifted_sources hm]
    exact Splice.toPositionMap_sources _ _ _ _

end ComponentBuild
