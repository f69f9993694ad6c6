import ComponentBuild.Proofs.Compile.Preprocess
import ComponentBuild.Proofs.Document.Shift
import ComponentBuild.Proofs.Script.StageMap

namespace ComponentBuild

/-- A block of a script, in the document that has the script in it. -/
def Script.Reactive.Block.shift (b : Block) (delta : Nat) : Block :=
  ⟨b.id, b.statement.shift delta, b.body.shift delta⟩

theorem Script.Reactive.prologue_shift (trackerModule : String) (blocks : List Block)
    (injected : List Name) (delta : Nat) :
    prologue trackerModule (blocks.map (·.shift delta)) injected =
      prologue trackerModule blocks injected := by
  have hlines : ((blocks.map (·.shift delta)).map fun b =>
      "const " ++ tracker b.id ++ " = " ++ creator ++ "();\n") =
      blocks.map fun b => "const " ++ tracker b.id ++ " = " ++ creator ++ "();\n" := List.map_map
  unfold prologue
  rw [hlines]

/-- The pieces of a script with reactive statements. -/
def Section.scriptPieces (s : Section) (options : BuildOptions) (items : List Script.Stmt) :
    List Piece :=
  Script.Reactive.pieces { trackerModule := options.trackerModule } s.content.toList
    (Script.Reactive.blocksFrom 0 (Script.Reactive.statements items))
    (Script.Reactive.injectedNames items)

/-- The pieces of a document whose instance script has reactive statements. -/
def Section.reactivePieces (s : Section) (options : BuildOptions) (source : String)
    (items : List Script.Stmt) : List Piece :=
  s.documentPieces source.toList
    ((s.scriptPieces options items).map (Piece.shift s.contentSpan.start))

/-- A piece of the document stands around the section, or is one of the script. -/
theorem Section.mem_reactivePieces {s : Section} {options : BuildOptions} {source : String}
    {items : List Script.Stmt} {p : Piece} (h : p ∈ s.reactivePieces options source items) :
    (∃ start text, p = .copied start text) ∨
      ∃ piece ∈ s.scriptPieces options items, piece.shift s.contentSpan.start = p := by
  rcases List.mem_cons.1 h with h | h
  · exact .inl ⟨_, _, h⟩
  rcases List.mem_append.1 h with h | h
  · exact .inr (List.mem_map.1 h)
  · exact .inl ⟨_, _, List.mem_singleton.1 h⟩

theorem Section.rewritten_perInstance {s : Section} {k : SectionContext}
    {items : List Script.Stmt} (hcontext : s.context = .perInstance)
    (hparse : Script.parse .javascript s.content = .ok items)
    (hitems : Script.Reactive.statements items ≠ []) :
    s.rewritten k .javascript =
      .ok (some ⟨Splice.code (s.scriptPieces k.options items),
        some ((Splice.toPositionMap (s.scriptPieces k.options items)
          (Splice.code (s.scriptPieces k.options items)) s.content k.path.text).setContent 0
            s.content)⟩) := by
  have hblocks := List.isEmpty_eq_false_iff.2 (Script.Reactive.blocksFrom_ne_nil 0 hitems)
  have hrewrite := Script.Reactive.rewrite_of_statements
    { context := s.context, dialect := .javascript, trackerModule := k.options.trackerModule,
      filename? := some k.path.text } hcontext hparse hitems
  unfold rewritten
  simp only [hrewrite, Script.Reactive.Output.isModified, hblocks, Bool.not_false, if_true]
  rfl

/-- Of the sections only the instance script changes, where all scripts are in JavaScript and no
tool has to turn the style into plain rules. -/
theorem changedSections_instance {c : Component} {k : SectionContext} {s : Section}
    {o : SectionOutput} {source : List Char} (hc : c.Sound source)
    (hscripts : ∀ t ∈ c.sections, t.kind = .script →
      ScriptLanguage.ofName t.lang? = .javascript)
    (hstyles : ∀ t ∈ c.sections, t.kind = .style →
      Section.styleNeedsTool (StyleLanguage.ofName t.lang?) k.options = false)
    (hs : c.instanceScript = some s) (ho : s.rewritten k .javascript = .ok (some o)) :
    changedSections k c.sections = pure [(s, o)] := by
  obtain ⟨hkind, -⟩ := hc.instanceScript hs
  have hmodule : ∀ t, c.moduleScript = some t → t ≠ s := fun t h =>
    hc.ne (by decide : Slot.moduleScript ≠ .instanceScript) h hs
  have hstyle : ∀ t, c.style = some t → t ≠ s := fun t h =>
    hc.ne (by decide : Slot.style ≠ .instanceScript) h hs
  have houtput : ∀ t ∈ c.sections, t.output k = pure (if t = s then some o else none) := by
    intro t ht
    rcases Component.mem_sections.1 ht with h | h | h
    · obtain ⟨htkind, htcontext, -⟩ := hc.moduleScript h
      rw [if_neg (hmodule t h)]
      exact t.output_script htkind (hscripts t ht htkind) (t.rewritten_perModule htcontext)
    · obtain rfl : s = t := Option.some.inj (hs.symm.trans h)
      rw [if_pos rfl]
      exact s.output_script hkind (hscripts s ht hkind) ho
    · obtain ⟨htkind, -⟩ := hc.style h
      rw [if_neg (hstyle t h)]
      exact t.output_style htkind (hstyles t ht htkind)
  rw [changedSections_pure houtput]
  refine congrArg pure (List.perm_singleton.1 ?_)
  refine (c.sections_perm.filterMap _).trans (List.Perm.of_eq ?_)
  rw [hs]
  cases hm : c.moduleScript <;> cases ht : c.style <;> simp_all

/-- Preprocessing comes to an end without a question to a tool. -/
theorem preprocess_of_rewritten {c : Component} {options : BuildOptions} {path : Path}
    {source : String} {s : Section} {o : SectionOutput} (hc : c.Sound source.toList)
    (hscripts : ∀ t ∈ c.sections, t.kind = .script →
      ScriptLanguage.ofName t.lang? = .javascript)
    (hstyles : ∀ t ∈ c.sections, t.kind = .style →
      Section.styleNeedsTool (StyleLanguage.ofName t.lang?) options = false)
    (hs : c.instanceScript = some s)
    (ho : s.rewritten ⟨options, path, source, .ofText source⟩ .javascript = .ok (some o)) :
    c.preprocess options path source =
      Steps.checked (Preprocessed.splice ⟨options, path, source, .ofText source⟩ [(s, o)]) := by
  unfold Component.preprocess
  simp only [changedSections_instance hc hscripts hstyles hs ho]
  rfl

/-- The pieces of the document are text that stands in it, and what the pieces of the script are. -/
theorem Section.describes_of_mem_reactivePieces {s : Section} {options : BuildOptions}
    {source : String} {items : List Script.Stmt}
    (hplaced : Script.Reactive.Placed s.content.toList
      (Script.Reactive.blocksFrom 0 (Script.Reactive.statements items)))
    (hfits : ∀ piece ∈ s.reactivePieces options source items, piece.Fits source.toList)
    {piece : Piece} (h : piece ∈ s.reactivePieces options source items) :
    Script.Reactive.Describes { trackerModule := options.trackerModule } source.toList
      ((Script.Reactive.blocksFrom 0 (Script.Reactive.statements items)).map
        (·.shift s.contentSpan.start))
      (Script.Reactive.injectedNames items) piece := by
  obtain ⟨start, text, rfl⟩ | ⟨inner, hinner, rfl⟩ := Section.mem_reactivePieces h
  · exact hfits _ h
  have hdescribes := Script.Reactive.describes_of_mem_pieces hplaced hinner
  cases inner with
  | copied start text => exact hfits _ h
  | external text => exact hdescribes
  | replaced span text =>
    obtain ⟨b, hb, rfl, rfl⟩ := hdescribes
    exact ⟨b.shift s.contentSpan.start, List.mem_map_of_mem hb,
      congrArg₂ Span.mk (Nat.add_comm _ _) (Nat.add_comm _ _), rfl⟩
  | generated text =>
    refine hdescribes.imp_left fun htext => htext.trans ?_
    rw [Script.Reactive.prologue_shift]

theorem Section.reactivePieces_wellFormed {s : Section} {options : BuildOptions} {source : String}
    {items : List Script.Stmt} (hs : s.StandsIn source.toList)
    (hplaced : Script.Reactive.Placed s.content.toList
      (Script.Reactive.blocksFrom 0 (Script.Reactive.statements items)))
    (hsize : Splice.size (s.reactivePieces options source items) < UInt32.size) :
    Splice.WellFormed source.toList (s.reactivePieces options source items) := by
  obtain ⟨front, back, hsource, hstart, -⟩ := s.exists_around hs
  have hreplaced : ∀ span text, .replaced span text ∈ s.reactivePieces options source items →
      ∃ b ∈ Script.Reactive.blocksFrom 0 (Script.Reactive.statements items),
        span = ⟨s.contentSpan.start + b.statement.start, s.contentSpan.start + b.body.start⟩ ∧
          text = Script.Reactive.head b.id := by
    intro span text h
    obtain ⟨_, _, he⟩ | ⟨piece, hp, he⟩ := Section.mem_reactivePieces h
    · cases he
    · cases piece <;> cases he
      obtain ⟨b, hb, rfl, rfl⟩ := Script.Reactive.replaced_mem_pieces hp
      exact ⟨b, hb, rfl, rfl⟩
  refine ⟨s.documentPieces_fits hs ?_, ?_, ?_, ?_, hsize⟩
  · intro piece hp
    obtain ⟨inner, hinner, rfl⟩ := List.mem_map.1 hp
    rw [hsource, hstart]
    exact Splice.fits_shift (Script.Reactive.pieces_fits _ _ hplaced inner hinner) front back
  · intro span text h
    obtain ⟨b, hb, rfl, rfl⟩ := hreplaced span text h
    exact Nat.add_lt_add_left (hplaced.standsIn b hb).label _
  · intro span text h
    obtain ⟨b, hb, rfl, rfl⟩ := hreplaced span text h
    exact Script.Reactive.newline_not_mem_head b.id
  · intro text h
    obtain ⟨_, _, he⟩ | ⟨piece, hp, he⟩ := Section.mem_reactivePieces h
    · cases he
    · cases piece <;> cases he
      exact Script.Reactive.external_not_mem_pieces _ _ _ _ text hp

/-- A component whose instance script has reactive statements, and none of whose sections needs a
tool, is preprocessed to its pieces. The map answers for each place of the new document as for one
in its piece: it knows the token that copied text is from, a place under the label that the head of
a block replaces, and nothing of the prologue and of the ends of blocks. Offsets are words of 32
bits. -/
theorem reactive_document_map (options : BuildOptions) (path : Path) (source : String)
    (c : Component) (s : Section) (items : List Script.Stmt)
    (hdetect : Document.detect path.text source = .ok (.component c))
    (hscripts : ∀ t ∈ c.sections, t.kind = .script →
      ScriptLanguage.ofName t.lang? = .javascript)
    (hstyles : ∀ t ∈ c.sections, t.kind = .style →
      Section.styleNeedsTool (StyleLanguage.ofName t.lang?) options = false)
    (hs : c.instanceScript = some s)
    (hparse : Script.parse .javascript s.content = .ok items)
    (hitems : Script.Reactive.statements items ≠ [])
    (hplaced : Script.Reactive.Placed s.content.toList
      (Script.Reactive.blocksFrom 0 (Script.Reactive.statements items)))
    (hsource : Text.byteLength source.toList < UInt32.size)
    (hsize : Splice.size (s.reactivePieces options source items) < UInt32.size) :
    ∃ map, (c.preprocess options path source).run =
        .done (.ok ⟨Splice.code (s.reactivePieces options source items), some map⟩) ∧
      map.Resolves (s.reactivePieces options source items) path.text source ∧
      ∀ piece ∈ s.reactivePieces options source items,
        Script.Reactive.Describes { trackerModule := options.trackerModule } source.toList
          ((Script.Reactive.blocksFrom 0 (Script.Reactive.statements items)).map
            (·.shift s.contentSpan.start))
          (Script.Reactive.injectedNames items) piece := by
  have hc := detect_sound hdetect
  obtain ⟨-, hcontext, hstands⟩ := hc.instanceScript hs
  let k : SectionContext := ⟨options, path, source, .ofText source⟩
  have hwf := s.reactivePieces_wellFormed hstands hplaced hsize
  have hfits := Script.Reactive.pieces_fits { trackerModule := options.trackerModule }
    (Script.Reactive.injectedNames items) hplaced
  have hpart := Splice.shows_toPositionMap hfits path.text s.content
  obtain ⟨map, hsplice, hsources, hshows⟩ :=
    shows_splice (k := k) rfl hstands hpart hfits hsource hsize
  refine ⟨map, ?_, Splice.resolves_of_shows hsources hwf hshows,
    fun _ => s.describes_of_mem_reactivePieces hplaced hwf.fits⟩
  rw [preprocess_of_rewritten hc hscripts hstyles hs
    (s.rewritten_perInstance hcontext hparse hitems)]
  exact congrArg (fun r => (Steps.checked r).run) hsplice

/-- A block in a document with markup in front. -/
theorem reactive_document_map_of_block :
    ∃ c s items map,
      Document.detect "A.svelte" "é<script>\n$m: y = x</script>" = .ok (.component c) ∧
      c.instanceScript = some s ∧ Script.parse .javascript s.content = .ok items ∧
      (Script.Reactive.statements items).length = 1 ∧
      (c.preprocess {} ⟨"A.svelte"⟩ "é<script>\n$m: y = x</script>").run =
        .done (.ok ⟨Splice.code (s.reactivePieces {} "é<script>\n$m: y = x</script>" items),
          some map⟩) ∧
      map.Resolves (s.reactivePieces {} "é<script>\n$m: y = x</script>" items) "A.svelte"
        "é<script>\n$m: y = x</script>" ∧
      ∀ piece ∈ s.reactivePieces {} "é<script>\n$m: y = x</script>" items,
        Script.Reactive.Describes {} "é<script>\n$m: y = x</script>".toList
          [⟨0, ⟨11, 20⟩, ⟨15, 20⟩⟩] [['y']] piece := by
  let source := "é<script>\n$m: y = x</script>"
  let s : Section := ⟨.script, ⟨2, 29⟩, ⟨10, 20⟩, "\n$m: y = x", []⟩
  have hdetect : Document.detect "A.svelte" source = .ok (.component ⟨none, some s, none⟩) := by
    decide +kernel
  have hok : (Script.parse .javascript s.content).toOption.isSome := by decide +kernel
  obtain ⟨items, hparse⟩ : ∃ items, Script.parse .javascript s.content = .ok items := by
    cases hp : Script.parse .javascript s.content with
    | error e =>
      rw [hp] at hok
      cases hok
    | ok items => exact ⟨items, rfl⟩
  have hitems : Script.Reactive.statements items = [(⟨1, 10⟩, ⟨5, 10⟩, [['y']])] := by
    have h : (Script.parse .javascript s.content).toOption.map Script.Reactive.statements =
        some [(⟨1, 10⟩, ⟨5, 10⟩, [['y']])] := by decide +kernel
    rw [hparse] at h
    exact Option.some.inj h
  have hinjected : Script.Reactive.injectedNames items = [['y']] := by
    have h : (Script.parse .javascript s.content).toOption.map Script.Reactive.injectedNames =
        some [['y']] := by decide +kernel
    rw [hparse] at h
    exact Option.some.inj h
  have hplaced : Script.Reactive.Placed s.content.toList
      (Script.Reactive.blocksFrom 0 (Script.Reactive.statements items)) := by
    rw [hitems]
    decide +kernel
  obtain ⟨map, hrun, hmap, hdescribes⟩ := reactive_document_map {} ⟨"A.svelte"⟩ source
    ⟨none, some s, none⟩ s items hdetect (by decide +kernel) (by decide +kernel) rfl hparse
    (by rw [hitems]; exact List.cons_ne_nil _ _) hplaced (by decide +kernel)
    (by
      unfold Section.reactivePieces Section.scriptPieces
      rw [hitems, hinjected]
      decide +kernel)
  rw [hitems, hinjected] at hdescribes
  exact ⟨_, s, items, map, hdetect, rfl, hparse, by rw [hitems]; rfl, hrun, hmap, hdescribes⟩

end ComponentBuild
