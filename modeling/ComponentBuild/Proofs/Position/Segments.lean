import ComponentBuild.Position.V3
import ComponentBuild.Proofs.Position.Vlq
import ComponentBuild.Proofs.Text.Split
import Mathlib.Data.List.Forall2

namespace ComponentBuild

namespace PositionMap

theorem ofInt_toNat (a : UInt32) : UInt32.ofInt a.toNat = a := by
  have hmod : (a.toNat : Int) % 2 ^ 32 = a.toNat :=
    Int.emod_eq_of_lt (by omega) (by exact_mod_cast a.toNat_lt)
  rw [UInt32.ofInt, hmod, Int.toNat_natCast, UInt32.ofNat_toNat]

theorem move_difference (a b : UInt32) : move b (difference a b) = a := by
  have hsum : (b.toNat : Int) + (a.toNat - b.toNat) = a.toNat := by omega
  rw [move, difference, hsum, ofInt_toNat]

theorem natAbs_difference_lt (a b : UInt32) : (difference a b).natAbs < Vlq.limit := by
  have ha := a.toNat_lt
  have hb := b.toNat_lt
  have hlimit : Vlq.limit = 2 ^ 62 := rfl
  unfold difference
  omega

/-- The numbers of a segment, as differences to the cursor. -/
def numbers (k : Cursor) (s : Segment) : List Int :=
  difference s.generated.col k.column ::
    match s.source with
    | none => []
    | some id => [difference id k.source, difference s.position.line k.line,
        difference s.position.col k.sourceColumn]

theorem writeSegment_text (k : Cursor) (s : Segment) :
    (writeSegment k s).1 = (numbers k s).flatMap Vlq.encode := by
  unfold writeSegment numbers
  cases s.source <;> simp

theorem numbers_lt (k : Cursor) (s : Segment) : ∀ d ∈ numbers k s, d.natAbs < Vlq.limit := by
  unfold numbers
  cases s.source <;> simp [natAbs_difference_lt]

theorem decode_writeSegment (k : Cursor) (s : Segment) :
    Vlq.decode (writeSegment k s).1 = .ok (numbers k s) := by
  rw [writeSegment_text]
  exact Vlq.decode_flatMap_encode (List.cons_ne_nil _ _) (numbers_lt k s)

theorem writeSegment_chars (k : Cursor) (s : Segment) :
    ∀ c ∈ (writeSegment k s).1, c ≠ ',' ∧ c ≠ ';' := by
  rw [writeSegment_text]
  intro c hc
  obtain ⟨d, _, hd⟩ := List.mem_flatMap.1 hc
  exact Vlq.encode_chars d c hd

theorem writeSegment_ne_nil (k : Cursor) (s : Segment) : (writeSegment k s).1 ≠ [] := by
  rw [writeSegment_text, numbers, List.flatMap_cons]
  exact List.append_ne_nil_of_left_ne_nil (Vlq.encode_ne_nil _) _

/-- Whether a segment comes back as another: the place counts only where there is a source. -/
structure Segment.Same (s t : Segment) : Prop where
  generated : t.generated = s.generated
  source : t.source = s.source
  position : s.source.isSome → t.position = s.position

/-- Whether the source of a segment is one of so many. -/
def Segment.HasSource (sources : Nat) (s : Segment) : Prop :=
  ∀ id ∈ s.source, id.toNat < sources

theorem readSegment_numbers {sources : Nat} (names : Nat) {s : Segment} (k : Cursor)
    (h : s.HasSource sources) :
    ∃ t, readSegment sources names s.generated.line k (numbers k s) =
        .ok (t, (writeSegment k s).2) ∧ s.Same t := by
  obtain ⟨⟨line, col⟩, source, position⟩ := s
  cases source with
  | none =>
    refine ⟨⟨⟨line, col⟩, none, ⟨k.line, k.sourceColumn⟩⟩, ?_, rfl, rfl, ?_⟩
    · simp only [numbers, readSegment, writeSegment, move_difference]
    · exact fun h => absurd h Bool.false_ne_true
  | some id =>
    have hid : ¬ sources ≤ id.toNat := Nat.not_le.2 (h id rfl)
    have hname : move k.name 0 = k.name := by
      rw [move, Int.add_zero, ofInt_toNat]
    refine ⟨⟨⟨line, col⟩, some id, position⟩, ?_, rfl, rfl, fun _ => rfl⟩
    simp [numbers, readSegment, writeSegment, move_difference, hid, hname]

/-- Segments without those that repeat the one in front of them. -/
def withoutRepeats (last : Option Segment) : List Segment → List Segment
  | [] => []
  | s :: rest =>
    if last = some s then withoutRepeats last rest else s :: withoutRepeats (some s) rest

/-- Reading a text, of which the first line is already begun, gives these segments. -/
def ReadsAs (sources names : Nat) (line : UInt32) (k : Cursor) (first : List Char)
    (later : List (List Char)) (segments : List Segment) : Prop :=
  ∃ ts k' us, readSegments sources names line k (Text.splitOn ',' first) = .ok (ts, k') ∧
    (∀ ranges : List (List Char), (∀ r ∈ ranges, r = []) →
      readLines sources names (line + 1) k' later ranges = .ok us) ∧
    List.Forall₂ Segment.Same segments (ts ++ us)

variable {sources names : Nat}

theorem readSegments_empty (line : UInt32) (k : Cursor) (texts : List (List Char)) :
    readSegments sources names line k ([] :: texts) = readSegments sources names line k texts := rfl

theorem readSegments_written {s : Segment} {k k' : Cursor} {texts : List (List Char)}
    {ts : List Segment} (h : s.HasSource sources)
    (hrest : readSegments sources names s.generated.line (writeSegment k s).2 texts =
      .ok (ts, k')) :
    ∃ t, readSegments sources names s.generated.line k ((writeSegment k s).1 :: texts) =
      .ok (t :: ts, k') ∧ s.Same t := by
  obtain ⟨t, hread, hsame⟩ := readSegment_numbers names k h
  have hne : (writeSegment k s).1.isEmpty = false := by
    simpa using writeSegment_ne_nil k s
  refine ⟨t, ?_, hsame⟩
  rw [readSegments, hne, decode_writeSegment]
  simp only [Bool.false_eq_true, if_false, hread, hrest, Except.map]

/-- A written segment, in front of text that is read from where the segment ends. -/
theorem ReadsAs.cons {s : Segment} {k : Cursor} {first : List Char} {later : List (List Char)}
    {pieces : List (List Char)} {segments : List Segment} (h : s.HasSource sources)
    (hpieces : Text.splitOn ',' first = [] :: pieces)
    (hread : ReadsAs sources names s.generated.line (writeSegment k s).2 first later segments) :
    ReadsAs sources names s.generated.line k ((writeSegment k s).1 ++ first) later
      (s :: segments) := by
  obtain ⟨ts, k', us, hfirst, hlater, hsame⟩ := hread
  rw [hpieces, readSegments_empty] at hfirst
  obtain ⟨t, ht, hst⟩ := readSegments_written h hfirst
  refine ⟨t :: ts, k', us, ?_, hlater, .cons hst hsame⟩
  rw [Text.splitOn_append (fun c hc => (writeSegment_chars k s c hc).1) hpieces, List.append_nil]
  exact ht

/-- A comma in front of a segment on its line counts for nothing. -/
theorem ReadsAs.comma {line : UInt32} {k : Cursor} {first : List Char} {later : List (List Char)}
    {segments : List Segment} (hread : ReadsAs sources names line k first later segments) :
    ReadsAs sources names line k (',' :: first) later segments := by
  obtain ⟨ts, k', us, hfirst, hlater, hsame⟩ := hread
  refine ⟨ts, k', us, ?_, hlater, hsame⟩
  rw [Text.splitOn_separator, readSegments_empty]
  exact hfirst

theorem readLines_empty (line : UInt32) (k : Cursor) (texts ranges : List (List Char)) :
    readLines sources names line k ([] :: texts) ranges =
      readLines sources names (line + 1) k texts ranges.tail := by
  rw [readLines]
  rfl

/-- Lines without segments only count. -/
theorem readLines_replicate (sources names n : Nat) (line : UInt32) (k : Cursor)
    (texts ranges : List (List Char)) (hranges : ∀ r ∈ ranges, r = []) :
    ∃ rest : List (List Char), (∀ r ∈ rest, r = []) ∧
      readLines sources names line k (List.replicate n [] ++ texts) ranges =
        readLines sources names (line + UInt32.ofNat n) k texts rest := by
  induction n generalizing line ranges with
  | zero =>
    refine ⟨ranges, hranges, ?_⟩
    have hzero : line + UInt32.ofNat 0 = line := UInt32.add_zero line
    rw [hzero]
    rfl
  | succ n ih =>
    obtain ⟨rest, hrest, hread⟩ := ih (line + 1) ranges.tail
      fun r hr => hranges r (List.mem_of_mem_tail hr)
    have hline : line + 1 + UInt32.ofNat n = line + UInt32.ofNat (n + 1) := by
      rw [UInt32.ofNat_add, UInt32.add_assoc, UInt32.add_comm 1]
      rfl
    refine ⟨rest, hrest, ?_⟩
    rw [List.replicate_succ, List.cons_append, readLines_empty, hread, hline]

/-- A line with segments is read from its start. -/
theorem readLines_first {line : UInt32} {k : Cursor} {first : List Char} {later : List (List Char)}
    {segments : List Segment} (hne : first ≠ [])
    (h : ReadsAs sources names line { k with column := 0 } first later segments) :
    ∃ ts, (∀ ranges : List (List Char), (∀ r ∈ ranges, r = []) →
        readLines sources names line k (first :: later) ranges = .ok ts) ∧
      List.Forall₂ Segment.Same segments ts := by
  obtain ⟨ts, k', us, hfirst, hlater, hsame⟩ := h
  have hempty : first.isEmpty = false := by
    simpa using hne
  refine ⟨ts ++ us, fun ranges hranges => ?_, hsame⟩
  have hhead : ranges.headD [] = [] := by
    cases ranges with
    | nil => rfl
    | cons r rest => exact hranges r (List.mem_cons_self ..)
  have hrest := hlater ranges.tail fun r hr => hranges r (List.mem_of_mem_tail hr)
  rw [readLines, hempty, hhead]
  simp only [Bool.false_eq_true, if_false, checkRanges, List.find?_nil, hfirst, hrest, Except.map]

/-- Lines without segments, behind the one that is begun, lead to a line with segments. -/
theorem ReadsAs.skip {line : UInt32} {k : Cursor} {n : Nat} {first : List Char}
    {later : List (List Char)} {segments : List Segment} (hne : first ≠ [])
    (h : ReadsAs sources names (line + UInt32.ofNat (n + 1)) { k with column := 0 } first later
      segments) :
    ReadsAs sources names line k [] (List.replicate n [] ++ first :: later) segments := by
  obtain ⟨us, hread, hsame⟩ := readLines_first hne h
  refine ⟨[], k, us, rfl, fun ranges hranges => ?_, hsame⟩
  have hline : line + 1 + UInt32.ofNat n = line + UInt32.ofNat (n + 1) := by
    rw [UInt32.ofNat_add, UInt32.add_assoc, UInt32.add_comm 1]
    rfl
  obtain ⟨rest, hrest, hskip⟩ :=
    readLines_replicate sources names n (line + 1) k (first :: later) ranges hranges
  rw [hskip, hline, hread rest hrest]

/-- The number of semicolons that lead from a line to another one. -/
theorem exists_steps {line next : UInt32} (h : next ≠ line) :
    ∃ n, (next - line).toNat = n + 1 ∧ line + UInt32.ofNat (n + 1) = next := by
  have hsum : line + (next - line) = next := by
    rw [UInt32.add_comm, UInt32.sub_add_cancel]
  obtain ⟨n, hn⟩ : ∃ n, (next - line).toNat = n + 1 := by
    refine Nat.exists_eq_succ_of_ne_zero fun hzero => h ?_
    have hsame : next - line = 0 := UInt32.toNat_inj.1 hzero
    rw [← hsum, hsame, UInt32.add_zero]
  refine ⟨n, hn, ?_⟩
  rw [← hn, UInt32.ofNat_toNat, hsum]

/-- The segments that are written behind `last` on a line, and on the lines behind it, are read
back. -/
theorem readsAs_writeSegments (names : Nat) {segments : List Segment}
    (h : ∀ s ∈ segments, s.HasSource sources) (line : UInt32) (k : Cursor) (last : Option Segment)
    (hlast : ∀ t ∈ last, t.generated.line = line) :
    ∃ first later, Text.splitOn ';' (writeSegments line k last segments) = first :: later ∧
      (last.isSome → ∃ pieces, Text.splitOn ',' first = [] :: pieces) ∧
      ReadsAs sources names line k first later (withoutRepeats last segments) := by
  have hself (s : Segment) : ∀ t ∈ some s, t.generated.line = s.generated.line := by
    intro t ht
    rw [Option.mem_some_iff.1 ht]
  induction segments generalizing line k last with
  | nil => exact ⟨[], [], rfl, fun _ => ⟨[], rfl⟩, [], k, [], rfl, fun _ _ => rfl, .nil⟩
  | cons s segments ih =>
    obtain ⟨hs, hsegments⟩ := List.forall_mem_cons.1 h
    by_cases hline : s.generated.line = line
    · subst hline
      by_cases hrepeat : last = some s
      · rw [writeSegments, if_pos rfl, if_pos hrepeat, withoutRepeats, if_pos hrepeat]
        exact ih hsegments _ k last hlast
      · obtain ⟨first, later, hlines, hpieces, hread⟩ :=
          ih hsegments _ (writeSegment k s).2 _ (hself s)
        obtain ⟨pieces, hpieces⟩ := hpieces rfl
        have hsplit := Text.splitOn_append (fun c hc => (writeSegment_chars k s c hc).2) hlines
        have hcons := ReadsAs.cons hs hpieces hread
        rw [writeSegments, if_pos rfl, if_neg hrepeat, withoutRepeats, if_neg hrepeat]
        cases last with
        | none => exact ⟨_, later, hsplit, fun h => absurd h Bool.false_ne_true, hcons⟩
        | some t =>
          refine ⟨',' :: ((writeSegment k s).1 ++ first), later, ?_, fun _ => ?_, hcons.comma⟩
          · have hcomma : ∀ c ∈ [','], c ≠ ';' := by
              intro c hc
              rw [List.mem_singleton.1 hc]
              decide
            have hboth := Text.splitOn_append hcomma hsplit
            exact hboth
          · exact ⟨_, Text.splitOn_separator ',' _⟩
    · -- Semicolons lead to the line of the segment, where columns start over.
      obtain ⟨first, later, hlines, hpieces, hread⟩ :=
        ih hsegments _ (writeSegment { k with column := 0 } s).2 _ (hself s)
      obtain ⟨pieces, hpieces⟩ := hpieces rfl
      have hsplit := Text.splitOn_append
        (fun c hc => (writeSegment_chars { k with column := 0 } s c hc).2) hlines
      have hcons := ReadsAs.cons hs hpieces hread
      obtain ⟨n, hn, hreach⟩ := exists_steps hline
      have hnew : last ≠ some s := by
        rintro rfl
        exact hline (hlast s rfl)
      rw [writeSegments, if_neg hline, withoutRepeats, if_neg hnew]
      refine ⟨[], _, ?_, fun _ => ⟨[], rfl⟩, ReadsAs.skip ?_ (hreach ▸ hcons)⟩
      · simp only [hn]
        rw [List.append_assoc, Text.splitOn_replicate_append, hsplit]
        rfl
      · exact List.append_ne_nil_of_left_ne_nil (writeSegment_ne_nil _ s) _

/-- Written segments are read back. -/
theorem readLines_writeSegments {segments : List Segment}
    (h : ∀ s ∈ segments, s.HasSource sources) {ranges : List (List Char)}
    (hranges : ∀ r ∈ ranges, r = []) :
    ∃ ts, readLines sources names 0 .start
        (Text.splitOn ';' (writeSegments 0 .start none segments)) ranges = .ok ts ∧
      List.Forall₂ Segment.Same (withoutRepeats none segments) ts := by
  obtain ⟨first, later, hlines, _, hread⟩ :=
    readsAs_writeSegments names h 0 .start none (by simp)
  rw [hlines]
  by_cases hfirst : first = []
  · subst hfirst
    obtain ⟨ts, k', us, hsegments, hlater, hsame⟩ := hread
    obtain ⟨rfl, rfl⟩ : [] = ts ∧ Cursor.start = k' := Prod.mk.inj (Except.ok.inj hsegments)
    refine ⟨us, ?_, hsame⟩
    rw [readLines_empty]
    exact hlater ranges.tail fun r hr => hranges r (List.mem_of_mem_tail hr)
  · obtain ⟨ts, hlines, hsame⟩ := readLines_first (k := .start) hfirst hread
    exact ⟨ts, hlines ranges hranges, hsame⟩

end PositionMap

end ComponentBuild
