import ComponentBuild.Proofs.Script.Outline
import ComponentBuild.Proofs.Script.Restore
import ComponentBuild.Proofs.Splice.Origin

namespace ComponentBuild.Script.Reactive

/-- The text at the end of the call of a block. -/
def closing : String := " \x7d);"

/-- What the pieces of a rewritten script are: text that stands in the script, the head of a block
in the place of its label, the prologue, and the end of a block. -/
def Describes (options : Options) (source : List Char) (blocks : List Block)
    (injected : List Name) : Piece → Prop
  | .copied start text =>
    Text.slice? source start (start + Text.byteLength text.toList) = some text.toList
  | .replaced span text => ∃ b ∈ blocks, span = ⟨b.statement.start, b.body.start⟩ ∧ text = head b.id
  | .generated text => text = prologue options.trackerModule blocks injected ∨ text = closing
  | .external _ => False

theorem generated_mem_bodyPieces {source : List Char} {blocks : List Block} {cursor : Nat}
    {text : String} (h : .generated text ∈ bodyPieces source cursor blocks) : text = closing := by
  induction blocks generalizing cursor with
  | nil => cases List.mem_singleton.1 h
  | cons b blocks ih =>
    rcases List.mem_append.1 h with h | h
    · simp only [blockPieces, List.mem_cons, reduceCtorEq, Piece.generated.injEq,
        List.not_mem_nil, or_false, false_or] at h
      exact h
    · exact ih h

theorem describes_of_mem_pieces {options : Options} {source : List Char} {blocks : List Block}
    {injected : List Name} (hplaced : Placed source blocks) {piece : Piece}
    (h : piece ∈ pieces options source blocks injected) :
    Describes options source blocks injected piece := by
  cases piece with
  | copied start text => exact pieces_fits options injected hplaced _ h
  | replaced span text => exact replaced_mem_pieces h
  | external text => exact external_not_mem_pieces _ _ _ _ text h
  | generated text =>
    rcases List.mem_cons.1 h with h | h
    · exact .inl (Piece.generated.inj h)
    · exact .inr (generated_mem_bodyPieces h)

theorem pieces_wellFormed {options : Options} {source : List Char} {blocks : List Block}
    {injected : List Name} (hplaced : Placed source blocks)
    (hsize : Splice.size (pieces options source blocks injected) < UInt32.size) :
    Splice.WellFormed source (pieces options source blocks injected) := by
  refine ⟨pieces_fits options injected hplaced, fun span text h => ?_, fun span text h => ?_,
    external_not_mem_pieces _ _ _ _, hsize⟩
  · obtain ⟨b, hb, rfl, -⟩ := replaced_mem_pieces h
    exact (hplaced.standsIn b hb).label
  · obtain ⟨b, -, -, rfl⟩ := replaced_mem_pieces h
    exact newline_not_mem_head b.id

/-- A rewriting that changes something gives the text of its pieces, with the map of these. -/
theorem code_map_of_isModified {options : Options} {source : String} {o : Output}
    (h : rewrite options source = .ok o) (hmodified : o.isModified = true) :
    o.code = Splice.code (pieces options source.toList o.blocks o.injected) ∧
      o.map? = some ((Splice.toPositionMap (pieces options source.toList o.blocks o.injected) o.code
        source (options.filename?.getD "script")).setContent 0 source) := by
  rcases rewrite_cases h with rfl | ⟨items, -, -, rfl⟩
  · cases hmodified
  · exact ⟨rfl, rfl⟩

/-- The map of a rewritten script has the script as its one source, its text included. Each
character of the new text is at a place in one of its pieces, and each place is answered by its
piece: copied text by the token of the script that stands there, the head of a block by a place
under the label of that block, and the prologue and the ends of blocks by nothing. Offsets are words
of 32 bits. -/
theorem map_of_rewrite (options : Options) (source : String) (o : Output)
    (hrewrite : rewrite options source = .ok o) (hmodified : o.isModified = true)
    (hplaced : Placed source.toList o.blocks)
    (hsize : Text.byteLength o.code.toList < UInt32.size) :
    ∃ m, o.map? = some m ∧
      m.sources = [⟨options.filename?.getD "script", some source⟩] ∧
      o.code = Splice.code (pieces options source.toList o.blocks o.injected) ∧
      (∀ g, Text.IsBoundary o.code.toList g → g < Text.byteLength o.code.toList →
        ∃ place : Splice.Place (pieces options source.toList o.blocks o.injected),
          place.offset = g) ∧
      ∀ place : Splice.Place (pieces options source.toList o.blocks o.injected),
        Describes options source.toList o.blocks o.injected place.piece ∧
        ∃ p, Text.position? o.code.toList place.offset = some p ∧
          place.piece.Answers source.toList (options.filename?.getD "script")
            (Text.byteLength place.inside) (m.lookup p) := by
  obtain ⟨hcode, hmap⟩ := code_map_of_isModified hrewrite hmodified
  have hchars : o.code.toList =
      Splice.codeChars (pieces options source.toList o.blocks o.injected) := by
    rw [hcode, Splice.toList_code]
  rw [hcode] at hmap
  rw [hchars] at hsize ⊢
  have hwf := pieces_wellFormed hplaced hsize
  have hsources := PositionMap.setContent_sources (Splice.toPositionMap_sources
    (pieces options source.toList o.blocks o.injected)
    (Splice.code (pieces options source.toList o.blocks o.injected)) source
    (options.filename?.getD "script")) source
  refine ⟨_, hmap, hsources, hcode, fun g => Splice.Place.exists_of_isBoundary, fun place => ?_⟩
  refine ⟨describes_of_mem_pieces hplaced place.mem, _, place.position?, ?_⟩
  exact place.answers_of_shows hsources hwf (Splice.shows_toPositionMap hwf.fits _ _)

/-- Two blocks on one line, behind characters of more than one byte. -/
def twoBlocks : String := "let é = '😀'; $m: a = é; $m: b = a\n"

def twoBlocksFound : List Block := [⟨0, ⟨17, 28⟩, ⟨21, 28⟩⟩, ⟨1, ⟨29, 38⟩, ⟨33, 38⟩⟩]

def twoBlocksPrologue : String := prologue defaultModule twoBlocksFound [['a'], ['b']]

theorem toList_twoBlocksPrologue : twoBlocksPrologue.toList = prologueText 2 [['a'], ['b']] :=
  prologue_toList _ rfl

/-- The pieces behind the prologue. -/
def twoBlocksPieces : List Piece :=
  [.copied 0 "let é = '😀'; ", .replaced ⟨17, 21⟩ (head 0), .copied 21 "a = é;", .generated closing,
    .copied 28 " ", .replaced ⟨29, 33⟩ (head 1), .copied 33 "b = a", .generated closing,
    .copied 38 "\n"]

theorem run_twoBlocks :
    (rewrite {} twoBlocks).toOption.map (fun o => (o.blocks, o.injected)) =
        some (twoBlocksFound, [['a'], ['b']]) ∧
      bodyPieces twoBlocks.toList 0 twoBlocksFound = twoBlocksPieces ∧
      Text.byteLength (prologueText 2 [['a'], ['b']]) < 1000 ∧
      LineCol.after (prologueText 2 [['a'], ['b']]) = ⟨5, 0⟩ := by
  decide +kernel

theorem after_twoBlocksPrologue (pieces : List Piece) (inside : List Char) :
    LineCol.after (Splice.codeChars (.generated twoBlocksPrologue :: pieces) ++ inside) =
      (Splice.codeChars pieces ++ inside).foldl LineCol.advance ⟨5, 0⟩ := by
  rw [Splice.codeChars_cons, List.append_assoc, LineCol.after, List.foldl_append, ← LineCol.after,
    Piece.text, toList_twoBlocksPrologue, run_twoBlocks.2.2.2]

theorem pieces_twoBlocks :
    pieces {} twoBlocks.toList twoBlocksFound [['a'], ['b']] =
      .generated twoBlocksPrologue :: twoBlocksPieces :=
  congrArg (Piece.generated twoBlocksPrologue :: ·) run_twoBlocks.2.1

theorem rewrite_twoBlocks :
    ∃ o, rewrite {} twoBlocks = .ok o ∧ o.blocks = twoBlocksFound ∧
      o.injected = [['a'], ['b']] := by
  obtain ⟨o, ho, hfound⟩ := Option.map_eq_some_iff.1 run_twoBlocks.1
  obtain ⟨hblocks, hinjected⟩ := Prod.mk.inj hfound
  exact ⟨o, ok_of_toOption ho, hblocks, hinjected⟩

theorem map_of_rewrite_of_twoBlocks :
    ∃ o m, rewrite {} twoBlocks = .ok o ∧ o.isModified = true ∧
      Placed twoBlocks.toList o.blocks ∧ Text.byteLength o.code.toList < UInt32.size ∧
      o.map? = some m ∧ m.sources = [⟨"script", some twoBlocks⟩] ∧
      m.lookup ⟨5, 41⟩ = some ⟨"script", ⟨0, 22⟩⟩ ∧ m.lookup ⟨5, 44⟩ = none ∧
      ∃ n q, 29 ≤ n ∧ n < 33 ∧ Text.position? twoBlocks.toList n = some q ∧
        m.lookup ⟨5, 52⟩ = some ⟨"script", q⟩ := by
  obtain ⟨o, hrewrite, hblocks, hinjected⟩ := rewrite_twoBlocks
  have hmodified : o.isModified = true := by
    rw [Output.isModified, hblocks]
    rfl
  have hplaced : Placed twoBlocks.toList o.blocks := by
    rw [hblocks]
    decide +kernel
  have hcode := (code_map_of_isModified hrewrite hmodified).1
  rw [hblocks, hinjected, pieces_twoBlocks] at hcode
  have hsize : Text.byteLength o.code.toList < UInt32.size := by
    have hrest : Text.byteLength (Splice.codeChars twoBlocksPieces) < 1000 := by decide +kernel
    have hprologue := run_twoBlocks.2.2.1
    rw [hcode, Splice.toList_code, Splice.codeChars_cons, Text.byteLength_append, Piece.text,
      toList_twoBlocksPrologue]
    exact Nat.lt_trans (Nat.add_lt_add hprologue hrest) (by decide)
  obtain ⟨m, hmap, hsources, -, -, hplaces⟩ :=
    map_of_rewrite {} twoBlocks o hrewrite hmodified hplaced hsize
  rw [hcode, hblocks, hinjected, pieces_twoBlocks, Splice.toList_code] at hplaces
  let front (n : Nat) : List Piece := .generated twoBlocksPrologue :: twoBlocksPieces.take n
  obtain ⟨-, p, hp, token, q, htoken, hq, hbody⟩ := hplaces ⟨front 2, .copied 21 "a = é;",
    twoBlocksPieces.drop 3, "a = ".toList, "é;".toList, rfl, by decide, by decide⟩
  obtain ⟨-, r, hr, hend⟩ := hplaces ⟨front 3, .generated closing, twoBlocksPieces.drop 4, [' '],
    ['\x7d', ')', ';'], rfl, by decide, by decide⟩
  obtain ⟨-, t, ht, n, u, hle, hlt, hu, hhead⟩ := hplaces ⟨front 5, .replaced ⟨29, 33⟩ (head 1),
    twoBlocksPieces.drop 6, "$: _".toList, "m_tracker1(() => \x7b ".toList, rfl, by decide,
    by decide⟩
  rw [Splice.Place.position?, Option.some_inj, after_twoBlocksPrologue] at hp hr ht
  obtain rfl : p = ⟨5, 41⟩ := hp.symm.trans (by decide +kernel)
  obtain rfl : r = ⟨5, 44⟩ := hr.symm.trans (by decide +kernel)
  obtain rfl : t = ⟨5, 52⟩ := ht.symm.trans (by decide +kernel)
  obtain rfl : token = 4 :=
    Nat.le_antisymm htoken.le (htoken.greatest 4 (by decide) (Nat.le_refl _))
  obtain rfl : q = ⟨0, 22⟩ := Option.some.inj (hq.symm.trans (by decide +kernel))
  exact ⟨o, m, hrewrite, hmodified, hplaced, hsize, hmap, hsources, hbody, hend, n, u, hle, hlt,
    hu, hhead⟩

end ComponentBuild.Script.Reactive
