import ComponentBuild.Compile.Run
import ComponentBuild.Proofs.Compile.Preprocess
import ComponentBuild.Proofs.Document.Bounds
import ComponentBuild.Proofs.Splice.Origin

namespace ComponentBuild

open Text (StandsAt IsBoundary)

theorem Component.exists_slot {c : Component} {s : Section} (h : s ∈ c.sections) :
    ∃ slot, c.get slot = some s := by
  rcases mem_sections.1 h with h | h | h
  · exact ⟨.moduleScript, h⟩
  · exact ⟨.instanceScript, h⟩
  · exact ⟨.style, h⟩

/-- Sections that lie apart in one way or the other lie apart in the order in which they start. -/
theorem Component.sections_apart {source : List Char} {c : Component}
    (hplaced : ∀ slot s, c.get slot = some s → s.Placed source)
    (hapart : ∀ slot slot' s t, slot ≠ slot' → c.get slot = some s → c.get slot' = some t →
      s.span.stop ≤ t.span.start ∨ t.span.stop ≤ s.span.start) :
    c.sections.Pairwise fun s t => s.span.stop ≤ t.span.start := by
  have hslots : ([c.moduleScript, c.instanceScript, c.style].filterMap id).Pairwise fun s t =>
      s.span.stop ≤ t.span.start ∨ t.span.stop ≤ s.span.start := by
    refine List.pairwise_filterMap.2 ?_
    simp only [List.pairwise_cons, List.mem_cons, List.not_mem_nil, or_false, forall_eq_or_imp,
      forall_eq, false_implies, implies_true, List.Pairwise.nil, and_true, id]
    exact ⟨⟨fun s hs t ht => hapart .moduleScript .instanceScript s t (by decide) hs ht,
      fun s hs t ht => hapart .moduleScript .style s t (by decide) hs ht⟩,
      fun s hs t ht => hapart .instanceScript .style s t (by decide) hs ht⟩
  have heither := (c.sections_perm.pairwise_iff fun h => h.symm).2 hslots
  refine (heither.and c.sections_ordered).imp_of_mem fun {s t} hs ht h => ?_
  obtain ⟨slot, hslot⟩ := Component.exists_slot hs
  obtain ⟨slot', hslot'⟩ := Component.exists_slot ht
  have hplaced' := hplaced slot' t hslot'
  have hlt := hplaced'.start_lt
  have hcontent := hplaced'.content_le
  have hstop := hplaced'.stop_le
  rcases h.1 with h' | h'
  · exact h'
  · have hle := h.2
    omega

/-- What scanning accepts. -/
theorem scan_ok {source : String} {result : ScanResult} (h : scan source = .ok result) :
    (∀ s ∈ result.component.sections, s.Placed source.toList) ∧
      (result.component.sections.Pairwise fun s t => s.span.stop ≤ t.span.start) ∧
      ∃ ranges, PartsIn source.toList result.html ranges := by
  obtain ⟨t, hrun, rfl⟩ := run_of_scan h
  have hfound := Scan.run_found hrun (Scan.bounded_empty _) (StandsAt.zero _)
  refine ⟨fun s hs => ?_, Component.sections_apart hfound.sections hfound.apart, hfound.parts⟩
  obtain ⟨slot, hslot⟩ := Component.exists_slot hs
  exact hfound.sections slot s hslot

theorem detect_placed {name source : String} {c : Component}
    (h : Document.detect name source = .ok (.component c)) :
    (∀ s ∈ c.sections, s.Placed source.toList) ∧
      c.sections.Pairwise fun s t => s.span.stop ≤ t.span.start := by
  unfold Document.detect at h
  split at h
  · cases h
  next result hscan =>
    split at h
    · cases h
    · cases h
      obtain ⟨hplaced, hapart, -⟩ := scan_ok hscan
      exact ⟨hplaced, hapart⟩

namespace Preprocessed

@[simp] theorem contentPiece_text (content : Span) (o : SectionOutput) :
    (contentPiece content o).text = o.code := by
  unfold contentPiece
  cases o.map? <;> rfl

/-- Sections with outputs, one behind the other from an offset on. -/
structure InOrder (source : List Char) (offset : Nat) (outputs : List (Section × SectionOutput)) :
    Prop where
  placed : ∀ x ∈ outputs, x.1.Placed source
  behind : ∀ x ∈ outputs, offset ≤ x.1.span.start
  ordered : outputs.Pairwise fun x y => x.1.contentSpan.stop ≤ y.1.span.start

variable {source : List Char} {offset : Nat} {outputs : List (Section × SectionOutput)}
  {s : Section} {o : SectionOutput}

theorem inOrder_of_sublist {c : Component} (hplaced : ∀ s ∈ c.sections, s.Placed source)
    (hapart : c.sections.Pairwise fun s t => s.span.stop ≤ t.span.start)
    (h : (outputs.map Prod.fst).Sublist c.sections) : InOrder source 0 outputs := by
  have hmem {x : Section × SectionOutput} (hx : x ∈ outputs) : x.1.Placed source :=
    hplaced x.1 (h.subset (List.mem_map_of_mem hx))
  refine ⟨fun x => hmem, fun x _ => Nat.zero_le _, ?_⟩
  refine (List.pairwise_map.1 (hapart.sublist h)).imp_of_mem fun {x y} hx _ hxy => ?_
  exact Nat.le_trans (hmem hx).stop_le hxy

theorem InOrder.tail {x : Section × SectionOutput} (h : InOrder source offset (x :: outputs)) :
    InOrder source x.1.contentSpan.stop outputs :=
  ⟨fun y hy => h.placed y (List.mem_cons_of_mem _ hy), (List.pairwise_cons.1 h.ordered).1,
    (List.pairwise_cons.1 h.ordered).2⟩

/-- Up to a section there is text, at its end the angle bracket of the opening tag; then comes the
content, and the rest of the document. -/
theorem InOrder.exists_gap {cs : List Char} (h : InOrder source offset ((s, o) :: outputs))
    (hcs : StandsAt source offset cs) :
    ∃ gap rest, gap ≠ [] ∧ cs = (gap ++ ['>']) ++ (s.content.toList ++ rest) ∧
      s.contentSpan.start = offset + Text.byteLength (gap ++ ['>']) ∧
      s.contentSpan.stop = s.contentSpan.start + Text.byteLength s.content.toList ∧
      StandsAt source s.contentSpan.stop rest := by
  have hplaced : s.Placed source := h.placed (s, o) (List.mem_cons_self ..)
  have hbehind : offset ≤ s.span.start := h.behind (s, o) (List.mem_cons_self ..)
  have hlt := hplaced.start_lt
  obtain ⟨x, y, hsource, hstart, hstop⟩ := Text.slice?_eq_some_iff.1 hplaced.standsIn
  have hcontent : StandsAt source s.contentSpan.start (s.content.toList ++ y) :=
    ⟨x, hsource, hstart⟩
  obtain ⟨a, b, hangle, hbefore, -⟩ := Text.slice?_eq_some_iff.1 hplaced.angle
  obtain ⟨gap, tail, hcut, hgap, htail⟩ :=
    hcs.exists_front ⟨a, ['>'] ++ b, hangle, hbefore⟩ (by omega)
  obtain rfl : tail = ['>'] ++ b := htail.unique ⟨a, hangle, hbefore⟩
  have hone : Text.byteLength ['>'] = 1 := rfl
  have hbehindAngle := htail.drop ['>']
  rw [hone, Nat.sub_add_cancel (by omega)] at hbehindAngle
  obtain rfl := hbehindAngle.unique hcontent
  refine ⟨gap, y, ?_, by rw [hcut, List.append_assoc], ?_, hstop, ?_⟩
  · rintro rfl
    rw [Text.byteLength_nil] at hgap
    omega
  · rw [Text.byteLength_append, hone]
    omega
  · rw [hstop]
    exact hcontent.drop _

theorem InOrder.before {before after : List (Section × SectionOutput)}
    (h : InOrder source offset (before ++ after)) : InOrder source offset before :=
  ⟨fun x hx => h.placed x (List.mem_append_left _ hx),
    fun x hx => h.behind x (List.mem_append_left _ hx), (List.pairwise_append.1 h.ordered).1⟩

theorem InOrder.after {before after : List (Section × SectionOutput)}
    (h : InOrder source offset (before ++ (s, o) :: after)) :
    InOrder source s.contentSpan.stop after := by
  have hordered := List.pairwise_cons.1 (List.pairwise_append.1 h.ordered).2.1
  exact ⟨fun x hx => h.placed x (List.mem_append_right _ (List.mem_cons_of_mem _ hx)),
    hordered.1, hordered.2⟩

theorem InOrder.standsAt_after {before after : List (Section × SectionOutput)}
    (h : InOrder source offset (before ++ (s, o) :: after)) :
    ∃ rest, StandsAt source s.contentSpan.stop rest := by
  have hplaced : s.Placed source := h.placed (s, o) (by simp)
  obtain ⟨x, y, hsource, hstart, hstop⟩ := Text.slice?_eq_some_iff.1 hplaced.standsIn
  exact ⟨y, x ++ s.content.toList, by rw [hsource, List.append_assoc],
    by rw [hstop, hstart, Text.byteLength_append]⟩

/-- The pieces of the new document up to an offset of the old one. -/
def piecesUpTo (source : List Char) (cursor stop : Nat) :
    List (Section × SectionOutput) → List Piece
  | [] => [.copied cursor (Text.between source cursor stop)]
  | (s, o) :: rest =>
    .copied cursor (Text.between source cursor s.contentSpan.start) ::
      contentPiece s.contentSpan o :: piecesUpTo source s.contentSpan.stop stop rest

theorem pieces_eq_piecesUpTo (source : List Char) (cursor : Nat)
    (outputs : List (Section × SectionOutput)) :
    pieces source cursor outputs = piecesUpTo source cursor (Text.byteLength source) outputs := by
  induction outputs generalizing cursor with
  | nil => rfl
  | cons x outputs ih => rw [pieces, piecesUpTo, ih]

theorem piecesUpTo_split (source : List Char) (cursor stop : Nat)
    (before after : List (Section × SectionOutput)) (s : Section) (o : SectionOutput) :
    piecesUpTo source cursor stop (before ++ (s, o) :: after) =
      piecesUpTo source cursor s.contentSpan.start before ++
        contentPiece s.contentSpan o :: piecesUpTo source s.contentSpan.stop stop after := by
  induction before generalizing cursor with
  | nil => rfl
  | cons x before ih => rw [List.cons_append, piecesUpTo, ih]; rfl

/-- In front of a section the last piece ends its opening tag. -/
theorem InOrder.exists_opening {before after : List (Section × SectionOutput)} {cs : List Char}
    (h : InOrder source offset (before ++ (s, o) :: after)) (hcs : StandsAt source offset cs) :
    ∃ front start gap, piecesUpTo source offset s.contentSpan.start before =
        front ++ [.copied start (String.ofList (gap ++ ['>']))] ∧ gap ≠ [] ∧
      s.contentSpan.start = start + Text.byteLength (gap ++ ['>']) := by
  induction before generalizing offset cs with
  | nil =>
    obtain ⟨gap, rest, hgap, rfl, hstart, -⟩ := h.exists_gap hcs
    refine ⟨[], offset, gap, ?_, hgap, hstart⟩
    rw [piecesUpTo, hstart, hcs.between, List.nil_append]
  | cons x before ih =>
    obtain ⟨_, _, -, -, -, -, hrest⟩ := h.exists_gap hcs
    obtain ⟨front, start, gap, hpieces, hgap, hstart⟩ := ih h.tail hrest
    exact ⟨_ :: _ :: front, start, gap, by rw [piecesUpTo, hpieces]; rfl, hgap, hstart⟩

theorem InOrder.exists_angle {before after : List (Section × SectionOutput)} {cs : List Char}
    (h : InOrder source offset (before ++ (s, o) :: after)) (hcs : StandsAt source offset cs) :
    ∃ opening, Splice.codeChars (piecesUpTo source offset s.contentSpan.start before) =
      opening ++ ['>'] := by
  obtain ⟨front, start, gap, hpieces, -, -⟩ := h.exists_opening hcs
  refine ⟨Splice.codeChars front ++ gap, ?_⟩
  rw [hpieces, Splice.codeChars_append, Splice.codeChars_cons, Splice.codeChars_nil, Piece.text,
    String.toList_ofList, List.append_nil, List.append_assoc]

theorem codeChars_piecesUpTo_split (source : List Char) (cursor stop : Nat)
    (before after : List (Section × SectionOutput)) (s : Section) (o : SectionOutput) :
    Splice.codeChars (piecesUpTo source cursor stop (before ++ (s, o) :: after)) =
      Splice.codeChars (piecesUpTo source cursor s.contentSpan.start before) ++
        (o.code.toList ++
          Splice.codeChars (piecesUpTo source s.contentSpan.stop stop after)) := by
  rw [piecesUpTo_split, Splice.codeChars_append, Splice.codeChars_cons, contentPiece_text]

theorem InOrder.pieces_copies {cs : List Char} (h : InOrder source offset outputs)
    (hcs : StandsAt source offset cs) :
    ∀ piece ∈ pieces source offset outputs, piece.Copies source := by
  induction outputs generalizing offset cs with
  | nil =>
    intro piece hpiece
    rw [List.mem_singleton.1 hpiece]
    exact (Piece.copied_between_fits hcs.isBoundary (Text.isBoundary_byteLength _)
      hcs.isBoundary.le).copies
  | cons x outputs ih =>
    obtain ⟨s, o⟩ := x
    obtain ⟨gap, rest, -, rfl, hstart, -, hrest⟩ := h.exists_gap hcs
    have hcontent := (h.placed (s, o) (List.mem_cons_self ..)).standsIn
    intro piece hpiece
    rcases List.mem_cons.1 hpiece with rfl | hpiece
    · have hboundary : IsBoundary source s.contentSpan.start := by
        rw [hstart]
        exact (hcs.drop _).isBoundary
      exact (Piece.copied_between_fits hcs.isBoundary hboundary (by omega)).copies
    rcases List.mem_cons.1 hpiece with rfl | hpiece
    · unfold contentPiece
      split <;> trivial
    · exact ih h.tail hrest piece hpiece

/-- Copied text is text around the contents of the sections. -/
theorem InOrder.copied_outside {cs : List Char} (h : InOrder source offset outputs)
    (hcs : StandsAt source offset cs) {start : Nat} {text : String}
    (hpiece : .copied start text ∈ pieces source offset outputs) :
    offset ≤ start ∧ ∀ x ∈ outputs, start + Text.byteLength text.toList ≤ x.1.contentSpan.start ∨
      x.1.contentSpan.stop ≤ start := by
  induction outputs generalizing offset cs with
  | nil =>
    cases List.mem_singleton.1 hpiece
    exact ⟨Nat.le_refl _, by simp⟩
  | cons x outputs ih =>
    obtain ⟨s, o⟩ := x
    obtain ⟨gap, rest, -, rfl, hstart, hstop, hrest⟩ := h.exists_gap hcs
    rcases List.mem_cons.1 hpiece with hpiece | hpiece
    · cases hpiece
      rw [hstart, hcs.between, String.toList_ofList]
      refine ⟨Nat.le_refl _, fun y hy => .inl ?_⟩
      rcases List.mem_cons.1 hy with rfl | hy
      · exact hstart.ge
      · have hbehind : s.contentSpan.stop ≤ y.1.span.start := h.tail.behind y hy
        have hlt := (h.tail.placed y hy).start_lt
        omega
    rcases List.mem_cons.1 hpiece with hpiece | hpiece
    · unfold contentPiece at hpiece
      split at hpiece <;> cases hpiece
    · obtain ⟨hle, houtside⟩ := ih h.tail hrest hpiece
      dsimp only at hle
      refine ⟨by omega, fun y hy => ?_⟩
      rcases List.mem_cons.1 hy with rfl | hy
      · exact .inr hle
      · exact houtside y hy

theorem size_gap {cs gap : List Char} (hcs : StandsAt source offset (gap ++ cs)) {stop : Nat}
    (hstop : stop = offset + Text.byteLength gap) :
    Splice.size [.copied offset (Text.between source offset stop)] = stop - offset := by
  rw [hstop, hcs.between, Splice.size_singleton, Piece.text, String.toList_ofList]
  omega

theorem parts_cons (n cursor : Nat) (s : Section) (o : SectionOutput)
    (outputs : List (Section × SectionOutput)) :
    parts n cursor ((s, o) :: outputs) =
      (o.map?.map fun map => ⟨n + (s.contentSpan.start - cursor), s.contentSpan.start, map⟩).toList ++
        parts (n + (s.contentSpan.start - cursor) + Text.byteLength o.code.toList)
          s.contentSpan.stop outputs := by
  rw [parts]
  cases o.map? <;> rfl

theorem InOrder.size_piecesUpTo_cons {cs : List Char}
    (h : InOrder source offset ((s, o) :: outputs)) (hcs : StandsAt source offset cs) (stop : Nat)
    (before : List (Section × SectionOutput)) :
    Splice.size (piecesUpTo source offset stop ((s, o) :: before)) =
      (s.contentSpan.start - offset) + (Text.byteLength o.code.toList +
        Splice.size (piecesUpTo source s.contentSpan.stop stop before)) := by
  obtain ⟨gap, rest, -, rfl, hstart, -⟩ := h.exists_gap hcs
  rw [piecesUpTo, ← List.singleton_append, Splice.size_append, size_gap hcs hstart,
    Splice.size_cons, contentPiece_text]

/-- A section with a map starts behind the pieces in front of it. -/
theorem InOrder.parts_split {before after : List (Section × SectionOutput)} {cs : List Char}
    (h : InOrder source offset (before ++ (s, o) :: after)) (hcs : StandsAt source offset cs)
    {n start : Nat}
    (hstart : start = n + Splice.size (piecesUpTo source offset s.contentSpan.start before)) :
    parts n offset (before ++ (s, o) :: after) = parts n offset before ++
      ((o.map?.map fun map => ⟨start, s.contentSpan.start, map⟩).toList ++
        parts (start + Text.byteLength o.code.toList) s.contentSpan.stop after) := by
  subst hstart
  induction before generalizing offset cs n with
  | nil =>
    obtain ⟨gap, rest, -, rfl, hstart, -⟩ := h.exists_gap hcs
    rw [piecesUpTo, size_gap hcs hstart, List.nil_append, parts_cons]
    rfl
  | cons x before ih =>
    obtain ⟨t, p⟩ := x
    obtain ⟨_, _, -, -, -, -, hrest⟩ := h.exists_gap hcs
    rw [List.cons_append, parts_cons, parts_cons, ih h.tail hrest, h.size_piecesUpTo_cons hcs]
    simp only [Nat.add_assoc, List.append_assoc]

/-- Each part is one of the sections. -/
theorem InOrder.exists_of_mem_parts {cs : List Char} (h : InOrder source offset outputs)
    (hcs : StandsAt source offset cs) {n : Nat} {part : Part}
    (hpart : part ∈ parts n offset outputs) :
    ∃ before s o after, outputs = before ++ (s, o) :: after ∧ o.map? = some part.map ∧
      part.generated = n + Splice.size (piecesUpTo source offset s.contentSpan.start before) ∧
      part.original = s.contentSpan.start := by
  induction outputs generalizing offset cs n with
  | nil => cases hpart
  | cons x outputs ih =>
    obtain ⟨t, p⟩ := x
    obtain ⟨gap, rest, -, rfl, hstart, -, hrest⟩ := h.exists_gap hcs
    rw [parts_cons] at hpart
    rcases List.mem_append.1 hpart with hpart | hpart
    · obtain ⟨map, hmap, rfl⟩ := Option.map_eq_some_iff.1 (Option.mem_toList.1 hpart)
      exact ⟨[], t, p, outputs, rfl, hmap, by rw [piecesUpTo, size_gap hcs hstart], rfl⟩
    · obtain ⟨before, s, o, after, rfl, hmap, hgenerated, horiginal⟩ := ih h.tail hrest hpart
      refine ⟨(t, p) :: before, s, o, after, rfl, hmap, ?_, horiginal⟩
      rw [hgenerated, h.size_piecesUpTo_cons hcs]
      dsimp only
      omega

end Preprocessed

end ComponentBuild
