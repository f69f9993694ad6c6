import ComponentBuild.Proofs.Splice.Origin

namespace ComponentBuild

namespace PositionMap

/-- What a map holds in some part, when that is in order already. -/
theorem HoldsInOrder.filter_eq {m : PositionMap} {xs : List Mapping} (h : m.HoldsInOrder xs)
    (keep : Mapping → Bool)
    (hkept : (xs.filter keep).Pairwise fun a b => a.generated ≤ b.generated) :
    m.mappings.filter keep = xs.filter keep := by
  refine eq_of_filter_generated (m.ordered.filter _) hkept fun p => ?_
  rw [List.filter_filter, List.filter_filter]
  simp only [Bool.and_comm (decide _)]
  rw [← List.filter_filter, ← List.filter_filter, h p]

/-- In a stretch of positions with a mapping that is not behind the position, only its own speak. -/
theorem nearest_filter_range {xs : List Mapping} {start stop p : LineCol} {y : Mapping}
    (h : xs.Pairwise fun a b => a.generated ≤ b.generated) (hy : y ∈ xs)
    (hstart : start ≤ y.generated) (hyp : y.generated ≤ p) (hp : p < stop) :
    nearest p (xs.filter fun x => start ≤ x.generated ∧ x.generated < stop) = nearest p xs := by
  cases hx : nearest p xs with
  | none => exact absurd ((nearest_eq_none_iff h).1 hx y hy) (not_lt.2 hyp)
  | some x =>
    have hle := (nearest_mem h hx).2
    have hyx := le_nearest h hx hy hyp
    exact nearest_filter h hx (decide_eq_true ⟨le_trans hstart hyx, lt_of_le_of_lt hle hp⟩)

end PositionMap

namespace Splice

section

variable {pieces before after : List Piece} {piece : Piece} {generated original : List Char}
  {offset n : Nat} {a : Mark}

theorem linkMarks_within (ha : a ∈ (linksFrom offset pieces).flatMap (linkMarks original)) :
    offset ≤ a.generated ∧ a.generated ≤ offset + size pieces := by
  obtain ⟨link, hlink, ha⟩ := List.mem_flatMap.1 ha
  obtain ⟨d, hd, rfl⟩ := List.mem_map.1 ha
  have hwithin := linksFrom_within hlink
  have hanchor := eq_zero_or_lt_length hd
  rw [Span.length] at hanchor
  dsimp only
  omega

theorem ownLinkMarks_within (ha : a ∈ (linksFrom n [piece]).flatMap (linkMarks original)) :
    n ≤ a.generated ∧
      (a.generated = n ∨ a.generated < n + Text.byteLength piece.text.toList) := by
  obtain ⟨link, hlink, ha⟩ := List.mem_flatMap.1 ha
  obtain ⟨d, hd, rfl⟩ := List.mem_map.1 ha
  have hgenerated : link.generated = ⟨n, n + Text.byteLength piece.text.toList⟩ := by
    cases piece with
    | copied start text =>
      simp only [linksFrom] at hlink
      split at hlink
      · cases hlink
      · rw [List.mem_singleton.1 hlink]
    | replaced span text => rw [List.mem_singleton.1 hlink]
    | generated text => cases hlink
    | external text => cases hlink
  have hanchor := eq_zero_or_lt_length hd
  rw [hgenerated, Span.length] at hanchor
  rw [hgenerated]
  dsimp only at hanchor ⊢
  omega

theorem marking_linkMarks (generated original : List Char) :
    Marking generated original (fun pieces => (linksFrom 0 pieces).flatMap (linkMarks original))
      (fun n piece => (linksFrom n [piece]).flatMap (linkMarks original)) where
  nil := rfl
  concat before piece := by
    rw [linksFrom_append, Nat.zero_add, List.flatMap_append]
  within := ownLinkMarks_within
  empty {n piece _} htext hp := by
    have hmarks : (linksFrom n [piece]).flatMap (linkMarks original) =
        (piece.marks original n).filter (·.original.isSome) := by
      cases piece with
      | copied start text =>
        obtain rfl : text = "" := htext
        simp [linksFrom, Piece.text, Piece.marks, tokenStarts]
      | generated text =>
        obtain rfl : text = "" := htext
        rfl
      | external text => rfl
      | replaced span text =>
        have hown : ((Piece.replaced span text).marks original n).filter (·.original.isSome) =
            (Piece.replaced span text).marks original n := by
          refine List.filter_eq_self.2 fun a ha => ?_
          obtain ⟨d, -, rfl⟩ := List.mem_map.1 ha
          rfl
        rw [hown]
        exact List.flatMap_singleton _ _
    rw [hmarks, filterMap_marks_of_empty htext hp]

/-- Of all marks only those stand in a piece that are its own or left in front of it. -/
theorem filter_takenMarks (original : List Char) (before after : List Piece) (span : Span)
    {text : String} (htext : text ≠ "") :
    (takenMarks original (before ++ .replaced span text :: after)).filter (fun a =>
        size before ≤ a.generated ∧
          a.generated < size before + Text.byteLength text.toList) =
      ((linksFrom 0 before).flatMap (linkMarks original)).filter (·.generated = size before) ++
        (Piece.replaced span text).marks original (size before) := by
  have hpos := Nat.pos_of_ne_zero (mt Piece.byteLength_text_eq_zero.1 htext)
  have hlinks : links (before ++ .replaced span text :: after) =
      linksFrom 0 before ++ (linksFrom (size before) [.replaced span text] ++
        linksFrom (size before + Text.byteLength text.toList) after) := by
    rw [links, List.append_cons, linksFrom_append, linksFrom_append, Nat.zero_add, Nat.zero_add,
      size_append, size_singleton, List.append_assoc]
    rfl
  have hvoid : ((marksFrom original 0 (before ++ .replaced span text :: after)).filter
      (·.original.isNone)).filter (fun a => size before ≤ a.generated ∧
        a.generated < size before + Text.byteLength text.toList) = [] := by
    refine List.filter_eq_nil_iff.2 fun a ha hin => ?_
    obtain ⟨ha, hnone⟩ := List.mem_filter.1 ha
    simp only [decide_eq_true_eq] at hin
    rw [marksFrom_append, Nat.zero_add, marksFrom, List.mem_append, List.mem_append] at ha
    rcases ha with ha | ha | ha
    · have hlt := marksFrom_lt_of_none ha (Option.isNone_iff_eq_none.1 hnone)
      omega
    · obtain ⟨d, -, rfl⟩ := List.mem_map.1 ha
      cases hnone
    · have hwithin := marksFrom_within ha
      rw [Piece.text] at hwithin
      omega
  have hbefore : ((linksFrom 0 before).flatMap (linkMarks original)).filter (fun a =>
      size before ≤ a.generated ∧ a.generated < size before + Text.byteLength text.toList) =
        ((linksFrom 0 before).flatMap (linkMarks original)).filter (·.generated = size before) := by
    refine List.filter_congr fun a ha => decide_eq_decide.2 ?_
    have hwithin := linkMarks_within ha
    omega
  have hown : ((linksFrom (size before) [.replaced span text]).flatMap
      (linkMarks original)).filter (fun a =>
        size before ≤ a.generated ∧ a.generated < size before + Text.byteLength text.toList) =
      (Piece.replaced span text).marks original (size before) := by
    refine (List.filter_eq_self.2 fun a ha => decide_eq_true ?_).trans
      (List.flatMap_singleton _ _)
    obtain ⟨hle, hlt⟩ := ownLinkMarks_within ha
    rw [Piece.text] at hlt
    omega
  have hafter : ((linksFrom (size before + Text.byteLength text.toList) after).flatMap
      (linkMarks original)).filter (fun a =>
        size before ≤ a.generated ∧ a.generated < size before + Text.byteLength text.toList) =
      [] := by
    refine List.filter_eq_nil_iff.2 fun a ha => ?_
    have hwithin := linkMarks_within ha
    simp only [decide_eq_true_eq]
    omega
  rw [takenMarks, hlinks, List.flatMap_append, List.flatMap_append, List.filter_append, hvoid,
    List.nil_append, List.filter_append, List.filter_append, hbefore, hown, hafter,
    List.append_nil]

/-- Mappings between two positions are those of the marks between their offsets. -/
theorem filter_range_mappings (original : List Char)
    (hsize : Text.byteLength generated < UInt32.size) {k : Nat} {p q : LineCol}
    (marks : List Mark) (hp : Text.position? generated n = some p)
    (hq : Text.position? generated k = some q) :
    (marks.filterMap (Mark.mapping? generated original)).filter (fun x =>
        p ≤ x.generated ∧ x.generated < q) =
      (marks.filter fun a => n ≤ a.generated ∧ a.generated < k).filterMap
        (Mark.mapping? generated original) := by
  rw [List.filter_filterMap, List.filterMap_filter]
  refine List.filterMap_congr fun a _ => ?_
  cases hx : a.mapping? generated original with
  | none => simp
  | some x =>
    have hxa := Mark.position_of_mapping hx
    have hle := Text.position?_le_iff hsize hp hxa
    have hlt := Text.position?_le_iff hsize hq hxa
    simp only [← not_le, hle, hlt, Option.filter_some]

theorem tokenStarts_sorted (offset : Nat) (previous : Option Char) (cs : List Char) :
    (tokenStarts offset previous cs).Pairwise (· < ·) := by
  induction cs generalizing offset previous with
  | nil => exact .nil
  | cons c cs ih =>
    rw [tokenStarts]
    split
    · refine List.pairwise_cons.2 ⟨fun n hn => ?_, ih _ _⟩
      obtain ⟨front, _, _, -, rfl, -⟩ := mem_tokenStarts.1 hn
      have hpos := c.utf8Size_pos
      omega
    · exact ih _ _

theorem anchors_sorted (original : List Char) (link : Link) :
    (anchors original link).Pairwise (· < ·) := by
  unfold anchors
  split
  · split
    · exact tokenStarts_sorted _ _ _
    · exact List.pairwise_singleton _ _
  · exact List.pairwise_singleton _ _

theorem mappings_sorted (hsize : Text.byteLength generated < UInt32.size) {marks : List Mark}
    (h : marks.Pairwise fun a b => a.generated ≤ b.generated) :
    (marks.filterMap (Mark.mapping? generated original)).Pairwise
      fun x y => x.generated ≤ y.generated := by
  refine List.pairwise_filterMap.2 (h.imp fun {a b} hab x hx y hy => ?_)
  exact (Text.position?_le_iff hsize (Mark.position_of_mapping hx)
    (Mark.position_of_mapping hy)).2 hab

/-- The mappings in a piece that takes the place of a span: what is left in front of it, and behind
that those at its anchors. -/
def mappingsIn (original : List Char) (before after : List Piece) (span : Span) (text : String) :
    List Mapping :=
  (leftoversBehind original before).map
      (fun q => ⟨LineCol.after (codeChars before), some ⟨0, q⟩⟩) ++
    ((Piece.replaced span text).marks original (size before)).filterMap
      (Mark.mapping? (codeChars (before ++ .replaced span text :: after)) original)

end

section

variable {original : String} {before after : List Piece} {span : Span} {text : String}

theorem position?_start (before after : List Piece) (span : Span) (text : String) :
    Text.position? (codeChars (before ++ .replaced span text :: after)) (size before) =
      some (LineCol.after (codeChars before)) := by
  rw [codeChars_append]
  exact LineIndex.unitLineCol?_append _ _

theorem position?_stop (before after : List Piece) (span : Span) (text : String) :
    Text.position? (codeChars (before ++ .replaced span text :: after))
        (size before + Text.byteLength text.toList) =
      some (LineCol.after (codeChars before ++ text.toList)) := by
  rw [codeChars_append, codeChars_cons, Piece.text, ← List.append_assoc, size,
    ← Text.byteLength_append]
  exact LineIndex.unitLineCol?_append _ _

theorem mappingsIn_sorted
    (hsize : size (before ++ .replaced span text :: after) < UInt32.size) :
    (mappingsIn original.toList before after span text).Pairwise
      fun x y => x.generated ≤ y.generated := by
  have hmarks : ((Piece.replaced span text).marks original.toList (size before)).Pairwise
      fun a b => a.generated ≤ b.generated := by
    refine List.pairwise_map.2 ((anchors_sorted _ _).imp fun hde => ?_)
    exact Nat.add_le_add_left (Nat.le_of_lt hde) _
  refine List.pairwise_append.2 ⟨?_, mappings_sorted hsize hmarks, ?_⟩
  · refine List.pairwise_map.2 (List.pairwise_of_forall fun _ _ => le_refl _)
  · intro x hx y hy
    obtain ⟨q, -, rfl⟩ := List.mem_map.1 hx
    obtain ⟨a, ha, hay⟩ := List.mem_filterMap.1 hy
    refine (Text.position?_le_iff hsize (position?_start before after span text)
      (Mark.position_of_mapping hay)).2 ?_
    obtain ⟨d, -, rfl⟩ := List.mem_map.1 ha
    exact Nat.le_add_right _ _

/-- The mappings that a map has in a piece, in their order. -/
theorem mappings_in_piece (source : String) (htext : text ≠ "")
    (hsize : size (before ++ .replaced span text :: after) < UInt32.size) :
    let pieces := before ++ .replaced span text :: after
    (toPositionMap pieces (code pieces) original source).mappings.filter (fun x =>
        LineCol.after (codeChars before) ≤ x.generated ∧
          x.generated < LineCol.after (codeChars before ++ text.toList)) =
      mappingsIn original.toList before after span text := by
  intro pieces
  have hm := toPositionMap_holdsInOrder_taken pieces (code pieces) original source
  rw [toList_code] at hm
  have hrange := filter_range_mappings original.toList hsize
    (takenMarks original.toList pieces) (position?_start before after span text)
    (position?_stop before after span text)
  have hin : ((takenMarks original.toList pieces).filterMap (Mark.mapping? (codeChars pieces)
      original.toList)).filter (fun x => LineCol.after (codeChars before) ≤ x.generated ∧
        x.generated < LineCol.after (codeChars before ++ text.toList)) =
      mappingsIn original.toList before after span text := by
    rw [hrange, filter_takenMarks _ _ _ _ htext, List.filterMap_append,
      (marking_linkMarks _ _).filterMap_behind before (position?_start before after span text)]
    rfl
  rw [← hin]
  refine hm.filter_eq _ ?_
  rw [hin]
  exact mappingsIn_sorted hsize

/-- Where a piece differs in length from what it replaces, all that is known of it is its start. -/
theorem mappingsIn_of_length {q : LineCol} (hlength : Text.byteLength text.toList ≠ span.length)
    (hq : Text.position? original.toList span.start = some q) :
    mappingsIn original.toList before after span text =
      (leftoversBehind original.toList before ++ [q]).map fun q =>
        ⟨LineCol.after (codeChars before), some ⟨0, q⟩⟩ := by
  have hverbatim : Link.isVerbatim ⟨⟨size before, size before + Text.byteLength text.toList⟩,
      span⟩ = false := by
    simpa [Link.isVerbatim, Span.length] using hlength
  have hanchors : anchors original.toList ⟨⟨size before, size before +
      Text.byteLength text.toList⟩, span⟩ = [0] := by
    unfold anchors
    split
    · rw [hverbatim]
      rfl
    · rfl
  have hmapping := mapping?_of_position (position?_start before after span text) hq
  rw [mappingsIn, Piece.marks, hanchors, List.map_append, List.map_singleton]
  simp only [Nat.add_zero, List.filterMap_cons, hmapping, List.filterMap_nil]
  rfl

/-- Where the start of what was replaced is a place of the original, the piece is marked at its
start, so that in it only its own mappings speak. -/
theorem lookup_in_piece {q : LineCol} (source : String) (htext : text ≠ "")
    (hsize : size (before ++ .replaced span text :: after) < UInt32.size)
    (hq : Text.position? original.toList span.start = some q) {p : LineCol}
    (hstart : LineCol.after (codeChars before) ≤ p)
    (hstop : p < LineCol.after (codeChars before ++ text.toList)) :
    let pieces := before ++ .replaced span text :: after
    let m := toPositionMap pieces (code pieces) original source
    m.lookup p = (PositionMap.nearest p (mappingsIn original.toList before after span text)).bind
      fun x => if x.generated.line = p.line then m.resolve x else none := by
  intro pieces m
  have hin : m.mappings.filter (fun x => LineCol.after (codeChars before) ≤ x.generated ∧
      x.generated < LineCol.after (codeChars before ++ text.toList)) =
      mappingsIn original.toList before after span text :=
    mappings_in_piece source htext hsize
  have hfirst : (⟨LineCol.after (codeChars before), some ⟨0, q⟩⟩ : Mapping) ∈
      mappingsIn original.toList before after span text := by
    have hzero : 0 ∈ anchors original.toList
        ⟨⟨size before, size before + Text.byteLength text.toList⟩, span⟩ := by
      refine zero_mem_anchors_of_lt _ ?_
      exact Nat.lt_add_of_pos_right (Nat.pos_of_ne_zero (mt Piece.byteLength_text_eq_zero.1 htext))
    refine List.mem_append_right _ (List.mem_filterMap.2 ⟨⟨size before, some span.start⟩,
      List.mem_map.2 ⟨0, hzero, rfl⟩, ?_⟩)
    exact mapping?_of_position (position?_start before after span text) hq
  rw [← hin] at hfirst ⊢
  rw [PositionMap.lookup_eq, PositionMap.nearest_filter_range m.ordered
    (List.mem_filter.1 hfirst).1 (le_refl _) hstart hstop]

/-- Text in the place of a span, whatever stands around it. An offset in it stands for the start of
the span, if the two differ in length, and else for the offset that is as far from that start; of
the first byte a search may know nothing where nothing is left of some text directly in front. The
map has one mapping in it, from its first byte to the start of the span, if they differ in length,
and else one for each token of the text that is gone; those of spans of which nothing is left stand
in front. In the piece only these speak. So where the two differ in length, a lookup tells the start
of the span, or that of such a span in front, and tells it on the first line only. -/
theorem origin_of_replaced (original source : String) (before after : List Piece) (span : Span)
    (text : String) (htext : text ≠ "")
    (hsize : size (before ++ .replaced span text :: after) < UInt32.size) :
    let pieces := before ++ .replaced span text :: after
    let m := toPositionMap pieces (code pieces) original source
    let first := LineCol.after (codeChars before)
    let last := LineCol.after (codeChars before ++ text.toList)
    let inside := mappingsIn original.toList before after span text
    (∀ n, size before ≤ n → n < size before + Text.byteLength text.toList →
      let origin := if Text.byteLength text.toList = span.length then
        span.start + (n - size before) else span.start
      (∀ search, originalOffset? search pieces n = some origin ∨
        originalOffset? search pieces n = none) ∧
      ((∀ search, originalOffset? search pieces n = some origin) ↔
        ¬ (n = size before ∧ EndsEmptied before))) ∧
    m.mappings.filter (fun x => first ≤ x.generated ∧ x.generated < last) = inside ∧
    ∀ q, Text.position? original.toList span.start = some q →
      (∀ p, first ≤ p → p < last → m.lookup p = (PositionMap.nearest p inside).bind fun x =>
        if x.generated.line = p.line then m.resolve x else none) ∧
      (Text.byteLength text.toList ≠ span.length →
        inside = (leftoversBehind original.toList before ++ [q]).map
          (fun q => ⟨first, some ⟨0, q⟩⟩) ∧
        ∀ p, first ≤ p → p < last → m.lookup p = if first.line = p.line then
          some ⟨source, (leftoverBehind? original.toList before).getD q⟩ else none) := by
  intro pieces m first last inside
  refine ⟨fun n hle hlt => originalOffset?_replaced rfl hle hlt,
    mappings_in_piece source htext hsize, fun q hq => ?_⟩
  have hlookup : ∀ p, first ≤ p → p < last → m.lookup p =
      (PositionMap.nearest p inside).bind fun x =>
        if x.generated.line = p.line then m.resolve x else none :=
    fun p => lookup_in_piece source htext hsize hq
  refine ⟨hlookup, fun hlength => ?_⟩
  have hknown : inside = _ := mappingsIn_of_length hlength hq
  refine ⟨hknown, fun p hstart hstop => ?_⟩
  obtain ⟨r, rest, hrest⟩ : ∃ r rest, leftoversBehind original.toList before ++ [q] = r :: rest :=
    List.exists_cons_of_ne_nil (by simp)
  have hhead : (leftoverBehind? original.toList before).getD q = r := by
    have h := congrArg List.head? hrest
    rw [List.head?_append, head?_leftoversBehind] at h
    cases hleft : leftoverBehind? original.toList before with
    | none => simpa [hleft] using h
    | some l => simpa [hleft] using h
  have hnearest : PositionMap.nearest p inside = some ⟨first, some ⟨0, r⟩⟩ := by
    rw [hknown, hrest]
    refine (PositionMap.nearest_eq_some_iff ?_).2 ⟨[], _, rfl, hstart, by simp, fun y hy _ => ?_⟩
    · exact List.pairwise_map.2 (List.pairwise_of_forall fun _ _ => le_refl _)
    · obtain ⟨_, -, rfl⟩ := List.mem_map.1 hy
      exact le_refl _
  rw [hlookup p hstart hstop, hnearest, hhead, Option.bind_some, resolve_toPositionMap]

end

/-- Two lines in the place of one letter. -/
def withTwoLines : List Piece :=
  [.copied 0 "$m: ", .replaced ⟨4, 5⟩ "é\nab", .copied 5 " = y;"]

theorem origin_of_replaced_of_twoLines :
    let m := toPositionMap withTwoLines (code withTwoLines) "$m: x = y;" "a.js"
    size withTwoLines < UInt32.size ∧
      (∀ search, originalOffset? search withTwoLines 8 = some 4) ∧
      m.lookup ⟨0, 5⟩ = some ⟨"a.js", ⟨0, 4⟩⟩ ∧ m.lookup ⟨1, 1⟩ = none := by
  intro m
  have hsize : size withTwoLines < UInt32.size := by decide
  obtain ⟨hoffset, -, hlookup⟩ := origin_of_replaced "$m: x = y;" "a.js" [.copied 0 "$m: "]
    [.copied 5 " = y;"] ⟨4, 5⟩ "é\nab" (by decide) hsize
  obtain ⟨-, hknown⟩ := hlookup ⟨0, 4⟩ (by decide)
  obtain ⟨-, hlookup⟩ := hknown (by decide)
  obtain ⟨-, hall⟩ := hoffset 8 (by decide) (by decide)
  exact ⟨hsize, hall.2 fun h => absurd h.1 (by decide), hlookup ⟨0, 5⟩ (by decide) (by decide),
    hlookup ⟨1, 1⟩ (by decide) (by decide)⟩

/-- Text of the length of what it replaces is not told by the start of that alone. -/
theorem origin_of_equal_length :
    ¬ ∀ (original source : String) (before after : List Piece) (span : Span) (text : String),
      text ≠ "" → size (before ++ .replaced span text :: after) < UInt32.size →
      let pieces := before ++ .replaced span text :: after
      let m := toPositionMap pieces (code pieces) original source
      let first := LineCol.after (codeChars before)
      (∀ n, size before ≤ n → n < size before + Text.byteLength text.toList →
        ∀ search, originalOffset? search pieces n = some span.start) ∧
      ∀ q, Text.position? original.toList span.start = some q →
        m.mappings.filter (fun x => first ≤ x.generated ∧
          x.generated < LineCol.after (codeChars before ++ text.toList)) =
            [⟨first, some ⟨0, q⟩⟩] := by
  intro h
  obtain ⟨hoffset, -⟩ := h "$m: x = y;" "script" [] [] ⟨0, 4⟩ "abcd" (by decide) (by decide)
  exact absurd (hoffset 1 (by decide) (by decide) .last) (by decide)

end Splice

end ComponentBuild
