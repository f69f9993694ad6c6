import ComponentBuild.Script.Reactive
import ComponentBuild.Proofs.Splice.Lookup

namespace ComponentBuild

namespace Script.Reactive

/-- A reactive statement in a script: behind its label stands its body, and both end together. -/
structure Block.StandsIn (content : List Char) (b : Block) : Prop where
  start : Text.IsBoundary content b.statement.start
  body : Text.IsBoundary content b.body.start
  stop : Text.IsBoundary content b.statement.stop
  label : b.statement.start < b.body.start
  inside : b.body.start ≤ b.body.stop
  ends : b.body.stop = b.statement.stop

/-- Reactive statements in the order of a script, none of them inside another. -/
structure Placed (content : List Char) (blocks : List Block) : Prop where
  standsIn : ∀ b ∈ blocks, b.StandsIn content
  ordered : blocks.Pairwise fun x y => x.statement.stop ≤ y.statement.start

instance (content : List Char) (b : Block) : Decidable (b.StandsIn content) :=
  decidable_of_iff (Text.IsBoundary content b.statement.start ∧
      Text.IsBoundary content b.body.start ∧ Text.IsBoundary content b.statement.stop ∧
      b.statement.start < b.body.start ∧ b.body.start ≤ b.body.stop ∧
      b.body.stop = b.statement.stop)
    ⟨fun ⟨h1, h2, h3, h4, h5, h6⟩ => ⟨h1, h2, h3, h4, h5, h6⟩,
      fun ⟨h1, h2, h3, h4, h5, h6⟩ => ⟨h1, h2, h3, h4, h5, h6⟩⟩

instance (content : List Char) (blocks : List Block) : Decidable (Placed content blocks) :=
  decidable_of_iff ((∀ b ∈ blocks, b.StandsIn content) ∧
      blocks.Pairwise fun x y => x.statement.stop ≤ y.statement.start)
    ⟨fun ⟨h1, h2⟩ => ⟨h1, h2⟩, fun ⟨h1, h2⟩ => ⟨h1, h2⟩⟩

/-- What stands in the place of a label. -/
def head (id : Nat) : String := "$: " ++ tracker id ++ "(() => \x7b "

theorem head_ne_empty (id : Nat) : head id ≠ "" := by
  unfold head
  simp [String.append_eq_empty_iff]

theorem newline_not_mem_head (id : Nat) : '\n' ∉ (head id).toList := by
  have hid : '\n' ∉ (toString id).toList := by
    intro h
    have hd : '\n' ∈ Nat.toDigits 10 id := by
      simpa using h
    exact absurd (Nat.isDigit_of_mem_toDigits (by decide) (by decide) hd) (by decide)
  simp only [head, tracker, String.toList_append, List.mem_append, not_or]
  exact ⟨⟨by decide, by decide, hid⟩, by decide⟩

theorem replaced_mem_bodyPieces {source : List Char} {blocks : List Block} {cursor : Nat}
    {span : Span} {text : String} (h : .replaced span text ∈ bodyPieces source cursor blocks) :
    ∃ b ∈ blocks, span = ⟨b.statement.start, b.body.start⟩ ∧ text = head b.id := by
  induction blocks generalizing cursor with
  | nil => cases List.mem_singleton.1 h
  | cons b blocks ih =>
    rcases List.mem_append.1 h with h | h
    · simp only [blockPieces, List.mem_cons, reduceCtorEq, Piece.replaced.injEq,
        List.not_mem_nil, or_false, false_or] at h
      exact ⟨b, List.mem_cons_self .., h⟩
    · obtain ⟨c, hc, hspan⟩ := ih h
      exact ⟨c, List.mem_cons_of_mem _ hc, hspan⟩

theorem replaced_mem_pieces {options : Options} {source : List Char} {blocks : List Block}
    {injected : List Name} {span : Span} {text : String}
    (h : .replaced span text ∈ pieces options source blocks injected) :
    ∃ b ∈ blocks, span = ⟨b.statement.start, b.body.start⟩ ∧ text = head b.id := by
  rcases List.mem_cons.1 h with h | h
  · cases h
  · exact replaced_mem_bodyPieces h

theorem external_not_mem_pieces (options : Options) (source : List Char) (blocks : List Block)
    (injected : List Name) (text : String) :
    .external text ∉ pieces options source blocks injected := by
  have hbody : ∀ cursor, Piece.external text ∉ bodyPieces source cursor blocks := by
    induction blocks with
    | nil => simp [bodyPieces]
    | cons b blocks ih => simp [bodyPieces, blockPieces, ih]
  simp [pieces, hbody]

theorem bodyPieces_fits {content : List Char} {blocks : List Block} {cursor : Nat}
    (hcursor : Text.IsBoundary content cursor) (h : Placed content blocks)
    (hle : ∀ b ∈ blocks, cursor ≤ b.statement.start) :
    ∀ piece ∈ bodyPieces content cursor blocks, piece.Fits content := by
  induction blocks generalizing cursor with
  | nil =>
    intro piece hp
    cases List.mem_singleton.1 hp
    have hend : Text.IsBoundary content (Text.byteLength content) :=
      ⟨content, [], (List.append_nil _).symm, rfl⟩
    obtain ⟨front, back, rfl, rfl⟩ := hcursor
    refine Piece.copied_between_fits ⟨front, back, rfl, rfl⟩ hend ?_
    rw [Text.byteLength_append]
    exact Nat.le_add_right _ _
  | cons b blocks ih =>
    obtain ⟨hb, hblocks⟩ := List.pairwise_cons.1 h.ordered
    have hstands := h.standsIn b (List.mem_cons_self ..)
    have hrest := ih hstands.stop
      ⟨fun c hc => h.standsIn c (List.mem_cons_of_mem _ hc), hblocks⟩ hb
    intro piece hp
    rcases List.mem_append.1 hp with hp | hp
    · simp only [blockPieces, List.mem_cons, List.not_mem_nil, or_false] at hp
      rcases hp with rfl | rfl | rfl | rfl
      · exact Piece.copied_between_fits hcursor hstands.start (hle b (List.mem_cons_self ..))
      · exact ⟨head_ne_empty b.id, _,
          Text.slice?_between hstands.start hstands.body (Nat.le_of_lt hstands.label)⟩
      · exact Piece.copied_between_fits hstands.body (hstands.ends ▸ hstands.stop)
          hstands.inside
      · trivial
    · exact hrest piece hp

theorem pieces_fits (options : Options) {content : List Char} {blocks : List Block}
    (injected : List Name) (h : Placed content blocks) :
    ∀ piece ∈ pieces options content blocks injected, piece.Fits content := by
  intro piece hp
  rcases List.mem_cons.1 hp with rfl | hp
  · trivial
  · exact bodyPieces_fits ⟨[], content, rfl, rfl⟩ h (fun _ _ => Nat.zero_le _) piece hp

theorem blocksFrom_ne_nil (id : Nat) {found : List (Span × Span × List Name)} (h : found ≠ []) :
    blocksFrom id found ≠ [] := by
  cases found with
  | nil => exact absurd rfl h
  | cons x xs => exact List.cons_ne_nil _ _

theorem rewrite_perModule {options : Options} (hcontext : options.context = .perModule)
    (source : String) : rewrite options source = .ok ⟨source, none, [], []⟩ := by
  rw [rewrite, if_pos hcontext]
  rfl

theorem rewrite_of_no_statements {options : Options} {source : String} {items : List Stmt}
    (hcontext : options.context = .perInstance) (hparse : parse options.dialect source = .ok items)
    (h : statements items = []) : rewrite options source = .ok ⟨source, none, [], []⟩ := by
  unfold rewrite
  simp only [hcontext, reduceCtorEq, if_false, hparse, bind, Except.bind, h]
  rfl

/-- A script with reactive statements becomes its pieces, with the map of these. -/
theorem rewrite_of_statements (options : Options) {source : String} {items : List Stmt}
    (hcontext : options.context = .perInstance) (hparse : parse options.dialect source = .ok items)
    (h : statements items ≠ []) :
    rewrite options source =
      let blocks := blocksFrom 0 (statements items)
      let injected := injectedNames items
      let pieces := pieces options source.toList blocks injected
      .ok ⟨Splice.code pieces, some ((Splice.toPositionMap pieces (Splice.code pieces) source
        (options.filename?.getD "script")).setContent 0 source), blocks, injected⟩ := by
  have hblocks := List.isEmpty_eq_false_iff.2 (blocksFrom_ne_nil 0 h)
  unfold rewrite
  simp only [hcontext, hparse, reduceCtorEq, if_false, bind, Except.bind, hblocks,
    Bool.false_eq_true]
  rfl

/-- A rewriting that succeeds leaves its script alone or gives the pieces of one that has reactive
statements. -/
theorem rewrite_cases {options : Options} {source : String} {o : Output}
    (h : rewrite options source = .ok o) :
    o = ⟨source, none, [], []⟩ ∨
    ∃ items, parse options.dialect source = .ok items ∧ statements items ≠ [] ∧
      let blocks := blocksFrom 0 (statements items)
      let injected := injectedNames items
      let pieces := pieces options source.toList blocks injected
      o = ⟨Splice.code pieces, some ((Splice.toPositionMap pieces (Splice.code pieces) source
        (options.filename?.getD "script")).setContent 0 source), blocks, injected⟩ := by
  cases hcontext : options.context with
  | perModule => exact .inl (Except.ok.inj (h.symm.trans (rewrite_perModule hcontext source)))
  | perInstance =>
    cases hparse : parse options.dialect source with
    | error e =>
      unfold rewrite at h
      simp [hcontext, hparse, bind, Except.bind] at h
    | ok items =>
      by_cases hitems : statements items = []
      · have hsame := rewrite_of_no_statements hcontext hparse hitems
        exact .inl (Except.ok.inj (h.symm.trans hsame))
      · have hrewritten := rewrite_of_statements options hcontext hparse hitems
        exact .inr ⟨items, rfl, hitems, Except.ok.inj (h.symm.trans hrewritten)⟩

end Script.Reactive

end ComponentBuild
