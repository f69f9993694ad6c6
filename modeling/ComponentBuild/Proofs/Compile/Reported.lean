import ComponentBuild.Proofs.Compile.Calls
import ComponentBuild.Proofs.Compile.Layout
import ComponentBuild.Proofs.Position.Lines

namespace ComponentBuild

open Text (IsBoundary)

/-- Surroundings in which every tool fails in one way. -/
def refusing (e : ToolError) : (q : Step) → q.Answer
  | .call _ => (.error e : ToolAnswer)
  | .dependency _ _ => ()
  | .error _ _ => ()

namespace Section

variable {s : Section} {k : SectionContext}

theorem transcript_of_unprepared {e : Failure} (h : s.prepared k = .error e) :
    Steps.Transcript (s.output k) [] (.error e) := by
  have hlog := Dialogue.transcript_log (refusing (.host "")) (s.output k).run
  rcases transcript_output hlog with ⟨e', hprepared, hempty, hr⟩ | ⟨changed, hprepared, -⟩
  · cases h.symm.trans hprepared
    rw [hempty, hr] at hlog
    exact hlog
  · cases h.symm.trans hprepared

theorem transcript_of_refused {changed : Option SectionOutput} (h : s.prepared k = .ok changed)
    (hneeds : s.needsTool k.options = true) (e : ToolError) :
    Steps.Transcript (s.output k) [⟨.call (s.request k changed), (.error e : ToolAnswer)⟩]
      (.error (.ofSectionTool (changed.bind SectionOutput.map?) (s.base k) e)) := by
  have hlog := Dialogue.transcript_log (refusing e) (s.output k).run
  rcases transcript_output hlog with ⟨e', hprepared, -⟩ | ⟨changed', hprepared, hrest⟩
  · cases h.symm.trans hprepared
  · cases h.symm.trans hprepared
    rcases hrest with ⟨hquiet, -⟩ | ⟨-, answer, hexchanges, hr⟩
    · rw [hneeds] at hquiet
      contradiction
    · have hfirst : (⟨.call (s.request k changed), answer⟩ : Exchange Step Step.Answer) ∈
          Dialogue.log (refusing e) (s.output k).run := by
        rw [hexchanges]
        exact List.mem_cons_self
      obtain rfl : answer = .error e := Dialogue.answer_of_mem_log hfirst
      rw [hexchanges, hr] at hlog
      exact hlog

end Section

/-- Sections in front of one that fails have been gone through before. -/
theorem transcript_changedSections_error {k : SectionContext} {before after : List Section}
    {s : Section} {front back : List (Exchange Step Step.Answer)}
    {outputs : List (Section × SectionOutput)} {e : Failure}
    (hbefore : Steps.Transcript (changedSections k before) front (.ok outputs))
    (hs : Steps.Transcript (s.output k) back (.error e)) :
    Steps.Transcript (changedSections k (before ++ s :: after)) (front ++ back) (.error e) := by
  induction before generalizing front outputs with
  | nil =>
    obtain ⟨rfl, -⟩ := Steps.transcript_pure.1 hbefore
    exact Steps.transcript_bind.2 (.inr ⟨e, rfl, hs⟩)
  | cons t before ih =>
    obtain ⟨o, first, others, rfl, ht, hothers⟩ := Steps.transcript_bind_ok.1 hbefore
    obtain ⟨x, hx, hmap⟩ := Steps.transcript_bind_pure.1 hothers
    cases x with
    | error f => cases hmap
    | ok contents =>
      have hrest := ih hx
      rw [List.append_assoc]
      refine Steps.transcript_bind.2 (.inl ⟨o, first, others ++ back, rfl, ht, ?_⟩)
      exact Steps.transcript_bind_pure.2 ⟨_, hrest, rfl⟩

section

variable {options : BuildOptions} {path : Path} {source : String}
  {log : List (Exchange Step Step.Answer)} {s : Section}

/-- The build of a component has gone through all sections in front of one. -/
def Section.IsReached (s : Section) (options : BuildOptions) (path : Path) (source : String)
    (log : List (Exchange Step Step.Answer)) : Prop :=
  ∃ c before after outputs, Document.detect path.text source = .ok (.component c) ∧
    c.sections = before ++ s :: after ∧
    Steps.Transcript (changedSections ⟨options, path, source, .ofText source⟩ before) log
      (.ok outputs)

/-- The first section is reached at once. -/
theorem Section.isReached_of_first {c : Component} {after : List Section}
    (hdetect : Document.detect path.text source = .ok (.component c))
    (hsections : c.sections = s :: after) : s.IsReached options path source [] :=
  ⟨c, [], after, [], hdetect, hsections, Steps.transcript_pure.2 ⟨rfl, rfl⟩⟩

/-- Behind the exchanges in `log` a build tells an error of the document and comes to its end. -/
def TellsBehind (options : BuildOptions) (path : Path) (source : String)
    (log : List (Exchange Step Step.Answer)) (e : DocumentError) : Prop :=
  ∀ rest r, (buildDocument options path source).Transcript (log ++ rest) r ↔
    rest = [⟨.error path e, ()⟩] ∧ r = .ok none

/-- Behind the exchanges in `log` a build breaks off. -/
def BreaksOffBehind (options : BuildOptions) (path : Path) (source : String)
    (log : List (Exchange Step Step.Answer)) (e : Abort) : Prop :=
  ∀ rest r, (buildDocument options path source).Transcript (log ++ rest) r ↔
    rest = [] ∧ r = .error e

def EndsBehind (options : BuildOptions) (path : Path) (source : String)
    (log : List (Exchange Step Step.Answer)) : Failure → Prop
  | .document e => TellsBehind options path source log e
  | .abort e => BreaksOffBehind options path source log e

/-- A section that fails is the end of the build. -/
theorem Section.IsReached.endsBehind {back : List (Exchange Step Step.Answer)} {failure : Failure}
    (h : s.IsReached options path source log)
    (hs : Steps.Transcript (s.output ⟨options, path, source, .ofText source⟩) back
      (.error failure)) :
    EndsBehind options path source (log ++ back) failure := by
  obtain ⟨c, before, after, outputs, hdetect, hsections, hbefore⟩ := h
  have hchanged : Steps.Transcript (changedSections _ (before ++ s :: after)) (log ++ back)
      (.error failure) := transcript_changedSections_error hbefore hs
  rw [← hsections] at hchanged
  have hstages : Steps.Transcript (buildStages options path source) (log ++ back)
      (.error failure) := by
    unfold buildStages
    rw [hdetect]
    refine Steps.transcript_bind.2 (.inr ⟨_, rfl, ?_⟩)
    exact Steps.transcript_bind.2 (.inr ⟨_, rfl, hchanged⟩)
  cases failure with
  | abort e =>
    intro rest r
    exact (Dialogue.transcript_bind_behind hstages).trans Dialogue.transcript_done
  | document e =>
    intro rest r
    refine (Dialogue.transcript_bind_behind hstages).trans ?_
    constructor
    · rintro ⟨⟩
      next _ _ hend =>
        obtain ⟨rfl, rfl⟩ := Dialogue.transcript_done.1 hend
        exact ⟨rfl, rfl⟩
    · rintro ⟨rfl, rfl⟩
      exact .ask (.done _)

theorem ToolPosition.spot_next {p : LineCol} (h : p.spot.fromOne.Fits) :
    (⟨p.line + 1, p.col⟩ : ToolPosition).spot = p.spot.fromOne :=
  congrArg (Spot.mk · _) (LineCol.toNat_add_one h.1)

/-- A place of a section, as a tool tells it, is told in the document. -/
theorem ToolPosition.relativeTo_of_spot {t : ToolPosition} {inner base p : LineCol}
    (ht : t.spot = inner.spot.fromOne) (hp : inner.relativeTo base = .ok p)
    (hfits : p.spot.fromOne.Fits) : t.relativeTo base = .ok ⟨p.line + 1, p.col⟩ := by
  rw [relativeTo_eq_ok_iff, ht, spot_next hfits, LineCol.relativeTo_eq_ok_iff.1 hp, Spot.within_eq,
    Spot.fromZero_fromOne]

namespace Section

/-- The bracket that ends the opening tag stands right in front of the content. -/
theorem Placed.exists_front {source : List Char} (h : s.Placed source) :
    ∃ front back, source = front ++ ['>'] ++ (s.content.toList ++ back) ∧
      s.contentSpan.start = Text.byteLength (front ++ ['>']) := by
  obtain ⟨opening, back, hsource, hstart, -⟩ := s.exists_around h.standsIn
  obtain ⟨front, rest, hangle, hfront, hstop⟩ := Text.slice?_eq_some_iff.1 h.angle
  have hlt := h.start_lt
  have hone : Text.byteLength ['>'] = 1 := rfl
  obtain ⟨m, rfl, hm⟩ := Text.exists_middle (hangle.symm.trans hsource) (by omega)
  rw [Text.byteLength_append] at hstart
  cases m with
  | nil =>
    rw [Text.byteLength_nil] at hstart
    omega
  | cons c m =>
    obtain ⟨rfl, -⟩ := List.cons.inj hm
    have hempty : m = [] := by
      apply Text.byteLength_eq_zero.1
      change _ = _ + (1 + Text.byteLength m) at hstart
      omega
    subst hempty
    refine ⟨front, back, hsource, ?_⟩
    rw [Text.byteLength_append]
    exact hstart

theorem Placed.content_lt {source : List Char} (h : s.Placed source)
    (hsize : Text.byteLength source < UInt32.size) :
    Text.byteLength s.content.toList < UInt32.size := by
  obtain ⟨front, back, hsource, -⟩ := h.exists_front
  rw [hsource] at hsize
  simp only [Text.byteLength_append] at hsize
  omega

/-- A place of the content can be told in the document. -/
theorem Placed.fits_fromOne {source : List Char} (h : s.Placed source)
    (hsize : Text.byteLength source < UInt32.size) {base p : LineCol}
    (hbase : Text.position? source s.contentSpan.start = some base)
    (hp : p.IsIn s.content.toList) : (p.spot.relativeTo base.spot).fromOne.Fits := by
  obtain ⟨front, back, hsource, hstart⟩ := h.exists_front
  obtain rfl : LineCol.after (front ++ ['>']) = base := by
    rw [hsource, hstart] at hbase
    exact Option.some.inj ((LineIndex.unitLineCol?_append _ _).symm.trans hbase)
  have hone : Text.byteLength ['>'] = 1 := rfl
  rw [hsource] at hsize
  simp only [Text.byteLength_append, hone] at hsize
  -- The bracket in front of the content is no end of a line.
  have hline : (LineCol.after (front ++ ['>'])).line.toNat ≤ Text.byteLength front := by
    rw [LineCol.after_concat]
    exact (LineCol.after_toNat_le front).1
  have hcol := (LineCol.after_toNat_le (front ++ ['>'])).2
  rw [Text.byteLength_append, hone] at hcol
  have hpline := hp.line_le
  have hpcol := hp.col_le
  refine (Spot.fits_fromOne_relativeTo_iff (LineCol.spot_fits p)).2 ?_
  simp only [LineCol.spot]
  omega

theorem Placed.exists_base {source : List Char} (h : s.Placed source) :
    ∃ base, Text.position? source s.contentSpan.start = some base := by
  obtain ⟨front, back, hsource, hstart⟩ := h.exists_front
  exact Text.exists_position? ⟨_, _, hsource, hstart⟩

/-- A place in the content of a section is one in the document. -/
theorem Placed.exists_position {source : List Char} (h : s.Placed source)
    (hsize : Text.byteLength source < UInt32.size) {i : Nat} (hi : IsBoundary s.content.toList i) :
    ∃ base inner p, Text.position? source s.contentSpan.start = some base ∧
      Text.position? s.content.toList i = some inner ∧
      Text.position? source (s.contentSpan.start + i) = some p ∧
      inner.relativeTo base = .ok p ∧ p.spot.fromOne.Fits := by
  obtain ⟨inner, hinner⟩ := Text.exists_position? hi
  obtain ⟨base, hbase⟩ := h.exists_base
  obtain ⟨front, back, hsource, hstart⟩ := h.exists_front
  have hfits := h.fits_fromOne hsize hbase (Text.isIn_of_position? hinner (h.content_lt hsize))
  rw [hsource] at hsize
  obtain ⟨p, hp, houter⟩ := Text.exists_position?_shift hinner hsize
  rw [← hsource, ← hstart] at houter
  obtain rfl : LineCol.after (front ++ ['>']) = base := by
    rw [hsource, hstart] at hbase
    exact Option.some.inj ((LineIndex.unitLineCol?_append _ _).symm.trans hbase)
  rw [← LineCol.relativeTo_eq_ok_iff.1 hp] at hfits
  exact ⟨_, inner, p, hbase, hinner, houter, hp, hfits⟩

theorem IsReached.placed (h : s.IsReached options path source log) : s.Placed source.toList := by
  obtain ⟨c, before, after, outputs, hdetect, hsections, -⟩ := h
  refine (detect_placed hdetect).1 s ?_
  rw [hsections]
  exact List.mem_append_right _ List.mem_cons_self

end Section

end

namespace Script

/-- The size of the byte order mark in front of a script, if there is one. -/
def markLength (cs : List Char) : Nat := Text.byteLength cs - Text.byteLength (withoutMark cs)

/-- A script has no tree, for what stands at `offset` of its text. -/
def FailsAt (dialect : Dialect) (cs : List Char) (offset : Nat) (message : String) : Prop :=
  ∃ e, parseChars (dialect == .typescript) (withoutMark cs) = .error e ∧
    offset = markLength cs + e.offset ∧ message = e.fault.message

/-- A script that cannot be rewritten fails at a place in it. -/
theorem rewrite_error {options : Reactive.Options} {source : String} {e : ParseError}
    (h : rewrite options source = .error e) (hsize : Text.byteLength source.toList < UInt32.size) :
    ∃ p : LineCol, p.IsIn source.toList ∧ e.line = p.line + 1 ∧ e.column = p.col := by
  unfold rewrite at h
  split at h
  · cases h
  cases hparse : parse options.dialect source with
  | ok items =>
    rw [hparse] at h
    dsimp only [bind, Except.bind] at h
    split at h <;> cases h
  | error e' =>
    rw [hparse] at h
    cases h
    unfold parse at hparse
    split at hparse
    next => cases hparse
    next fault _ =>
      obtain rfl := Except.error.inj hparse
      refine ⟨(Text.position? source.toList fault.offset).getD ⟨0, 0⟩, ?_, rfl, rfl⟩
      cases hp : Text.position? source.toList fault.offset with
      | none => exact LineCol.zero_isIn _
      | some p => exact Text.isIn_of_position? hp hsize

/-- Where a fault at an offset is told: as far in front of it as a byte order mark is long, or at
the start where no character starts there. -/
def toldOffset (cs : List Char) (offset : Nat) : Nat :=
  if IsBoundary cs (offset - markLength cs) then offset - markLength cs else 0

theorem markLength_of_noMark {cs : List Char} (h : withoutMark cs = cs) : markLength cs = 0 := by
  rw [markLength, h, Nat.sub_self]

theorem toldOffset_isBoundary (cs : List Char) (offset : Nat) :
    IsBoundary cs (toldOffset cs offset) := by
  unfold toldOffset
  split
  next h => exact h
  next => exact Text.isBoundary_zero cs

theorem toldOffset_of_noMark {cs : List Char} {offset : Nat} (h : withoutMark cs = cs)
    (hoffset : IsBoundary cs offset) : toldOffset cs offset = offset := by
  rw [toldOffset, markLength_of_noMark h, Nat.sub_zero, if_pos hoffset]

theorem FailsAt.parse {dialect : Dialect} {source message : String} {offset : Nat}
    (h : FailsAt dialect source.toList offset message) {p : LineCol}
    (hp : Text.position? source.toList (toldOffset source.toList offset) = some p) :
    Script.parse dialect source = .error ⟨message, p.line + 1, p.col⟩ := by
  obtain ⟨e, he, rfl, rfl⟩ := h
  have hposition : (Text.position? source.toList e.offset).getD ⟨0, 0⟩ = p := by
    rw [toldOffset, Nat.add_sub_cancel_left] at hp
    split at hp
    next => rw [hp, Option.getD_some]
    next hboundary =>
      rw [Text.position?_eq_none hboundary, Option.getD_none]
      have hzero := LineIndex.unitLineCol?_append [] source.toList
      exact Option.some.inj (hzero.symm.trans hp)
  unfold Script.parse ParseError.ofFault
  rw [he, ← hposition]

end Script

section

variable {options : BuildOptions} {path : Path} {source : String}
  {log : List (Exchange Step Step.Answer)} {s : Section}

/-- Behind the exchanges in `log` a build tells an error at an offset of the document. -/
def TellsAt (options : BuildOptions) (path : Path) (source : String)
    (log : List (Exchange Step Step.Answer)) (message : String) (offset : Nat) : Prop :=
  ∃ p, Text.position? source.toList offset = some p ∧
    (p.line + 1).toNat = p.line.toNat + 1 ∧
    TellsBehind options path source log ⟨message, some (p.line + 1), some p.col⟩

namespace Section

theorem base_eq {base : LineCol}
    (hbase : Text.position? source.toList s.contentSpan.start = some base) :
    s.base ⟨options, path, source, .ofText source⟩ = base := by
  change (Text.position? source.toList s.contentSpan.start).getD ⟨0, 0⟩ = base
  rw [hbase, Option.getD_some]

theorem prepared_of_failsAt {k : SectionContext} {dialect : Script.Dialect} {message : String}
    {offset : Nat} {p : LineCol} (hkind : s.kind = .script) (hcontext : s.context = .perInstance)
    (hdialect : (ScriptLanguage.ofName s.lang?).dialect? = some dialect)
    (h : Script.FailsAt dialect s.content.toList offset message)
    (hp : Text.position? s.content.toList (Script.toldOffset s.content.toList offset) = some p) :
    s.prepared k = .error (.ofPlace message
      ((ToolPosition.relativeTo ⟨p.line + 1, p.col⟩ (s.base k)).map some)) := by
  have hlanguage : s.language = .script (.ofName s.lang?) := by rw [language, hkind]
  rw [prepared, hlanguage]
  dsimp only
  rw [hdialect]
  change s.rewritten k dialect = _
  unfold rewritten Script.rewrite
  dsimp only
  rw [hcontext, if_neg (by decide), h.parse hp]
  rfl

/-- A section that cannot be prepared is told in the document. -/
theorem Placed.exists_document {failure : Failure} (h : s.Placed source.toList)
    (hsize : Text.byteLength source.toList < UInt32.size)
    (hprepared : s.prepared ⟨options, path, source, .ofText source⟩ = .error failure) :
    ∃ e, failure = .document e := by
  obtain ⟨_, e, hrewrite, rfl⟩ := prepared_eq_error hprepared
  obtain ⟨p, hp, hline, hcolumn⟩ := Script.rewrite_error hrewrite (h.content_lt hsize)
  obtain ⟨base, hbase⟩ := h.exists_base
  have hfits := h.fits_fromOne hsize hbase hp
  obtain ⟨q, hq⟩ := LineCol.exists_relativeTo_iff.2 (Spot.fits_of_fits_fromOne hfits)
  rw [base_eq hbase, hline, hcolumn, ToolPosition.relativeTo_of_spot (ToolPosition.spot_next
    (Spot.fits_fromOne_of_relativeTo p.spot_fits hfits)) hq
    (by rwa [LineCol.relativeTo_eq_ok_iff.1 hq])]
  exact ⟨_, rfl⟩

/-- A script that breaks the rules of its language is told where `toldOffset` says. -/
theorem IsReached.tellsAt_of_failsAt {dialect : Script.Dialect} {message : String} {offset : Nat}
    (h : s.IsReached options path source log)
    (hsize : Text.byteLength source.toList < UInt32.size)
    (hkind : s.kind = .script) (hcontext : s.context = .perInstance)
    (hdialect : (ScriptLanguage.ofName s.lang?).dialect? = some dialect)
    (hfails : Script.FailsAt dialect s.content.toList offset message) :
    TellsAt options path source log message
      (s.contentSpan.start + Script.toldOffset s.content.toList offset) := by
  obtain ⟨base, inner, p, hbase, hinner, houter, hp, hfits⟩ :=
    h.placed.exists_position hsize (Script.toldOffset_isBoundary s.content.toList offset)
  have hprepared := prepared_of_failsAt (k := ⟨options, path, source, .ofText source⟩)
    hkind hcontext hdialect hfails hinner
  have hinnerFits : inner.spot.fromOne.Fits := by
    rw [LineCol.relativeTo_eq_ok_iff.1 hp] at hfits
    exact Spot.fits_fromOne_of_relativeTo inner.spot_fits hfits
  rw [base_eq hbase, ToolPosition.relativeTo_of_spot (ToolPosition.spot_next hinnerFits) hp
    hfits] at hprepared
  refine ⟨p, houter, LineCol.toNat_add_one hfits.1, ?_⟩
  have htells := h.endsBehind (transcript_of_unprepared hprepared)
  rw [List.append_nil] at htells
  exact htells

/-- A section that its tool turns down as it is in the document is told where the tool says. -/
theorem IsReached.tellsAt_of_refused {failure : ToolFailure} {offset : Nat} {inner : LineCol}
    {place : ToolPosition} (h : s.IsReached options path source log)
    (hsize : Text.byteLength source.toList < UInt32.size)
    (hprepared : s.prepared ⟨options, path, source, .ofText source⟩ = .ok none)
    (hneeds : s.needsTool options = true) (hoffset : IsBoundary s.content.toList offset)
    (hinner : Text.position? s.content.toList offset = some inner)
    (hplace : place.spot = inner.spot.fromOne) (hstart : failure.start = some place) :
    TellsAt options path source
      (log ++ [⟨.call (s.request ⟨options, path, source, .ofText source⟩ none),
        (.error (.failed failure) : ToolAnswer)⟩])
      failure.message (s.contentSpan.start + offset) := by
  obtain ⟨base, inner', p, hbase, hinner', houter, hp, hfits⟩ :=
    h.placed.exists_position hsize hoffset
  obtain rfl := Option.some.inj (hinner.symm.trans hinner')
  have hrefused := transcript_of_refused hprepared hneeds (.failed failure)
  have htold : Failure.ofSectionTool ((none : Option SectionOutput).bind SectionOutput.map?) base
      (.failed failure) = .document ⟨failure.message, some (p.line + 1), some p.col⟩ := by
    rw [Failure.ofSectionTool, ToolFailure.place, hstart]
    change Failure.ofPlace _ ((place.relativeTo base).map some) = _
    rw [ToolPosition.relativeTo_of_spot hplace hp hfits]
    rfl
  rw [base_eq hbase, htold] at hrefused
  exact ⟨p, houter, LineCol.toNat_add_one hfits.1, h.endsBehind hrefused⟩

end Section

end

/-- Positions in a part of a text count from where the part starts, and counting from a place that
itself counts from another one is counting from that. So a fault of a script is told at its place in
the document unless the script starts with a byte order mark, and what a tool says of a section that
nothing has changed is told at its place in the document. -/
theorem errors_in_sections (source : String)
    (hsize : Text.byteLength source.toList < UInt32.size) :
    (∀ (inside : List Char) (start stop i : Nat),
      Text.slice? source.toList start stop = some inside → IsBoundary inside i →
      ∃ base p q, Text.position? source.toList start = some base ∧
        Text.position? inside i = some p ∧ p.relativeTo base = .ok q ∧
        Text.position? source.toList (start + i) = some q) ∧
    (∀ p q r a b : LineCol, p.relativeTo q = .ok a → q.relativeTo r = .ok b →
      a.relativeTo r = p.relativeTo b) ∧
    ∀ (options : BuildOptions) (path : Path) (log : List (Exchange Step Step.Answer))
      (s : Section), s.IsReached options path source log →
      (∀ dialect offset message, s.kind = .script → s.context = .perInstance →
        (ScriptLanguage.ofName s.lang?).dialect? = some dialect →
        Script.FailsAt dialect s.content.toList offset message →
        TellsAt options path source log message
            (s.contentSpan.start + Script.toldOffset s.content.toList offset) ∧
          (Script.withoutMark s.content.toList = s.content.toList →
            IsBoundary s.content.toList offset →
            TellsAt options path source log message (s.contentSpan.start + offset))) ∧
      ∀ (failure : ToolFailure) (offset : Nat) (p : LineCol) (place : ToolPosition),
        s.prepared ⟨options, path, source, .ofText source⟩ = .ok none →
        s.needsTool options = true → IsBoundary s.content.toList offset →
        Text.position? s.content.toList offset = some p →
        place.spot = p.spot.fromOne → failure.start = some place →
        TellsAt options path source
          (log ++ [⟨.call (s.request ⟨options, path, source, .ofText source⟩ none),
            (.error (.failed failure) : ToolAnswer)⟩])
          failure.message (s.contentSpan.start + offset) := by
  refine ⟨?_, fun p q r a b => LineCol.relativeTo_assoc, ?_⟩
  · intro inside start stop i hslice hi
    obtain ⟨front, back, hsource, rfl, rfl⟩ := Text.slice?_eq_some_iff.1 hslice
    obtain ⟨p, hp⟩ := Text.exists_position? hi
    rw [hsource] at hsize ⊢
    obtain ⟨q, hq, houter⟩ := Text.exists_position?_shift hp hsize
    exact ⟨LineCol.after front, p, q, LineIndex.unitLineCol?_append _ _, hp, hq, houter⟩
  · intro options path log s hreached
    refine ⟨?_, ?_⟩
    · intro dialect offset message hkind hcontext hdialect hfails
      have htells := hreached.tellsAt_of_failsAt hsize hkind hcontext hdialect hfails
      refine ⟨htells, ?_⟩
      intro hmark hoffset
      rwa [Script.toldOffset_of_noMark hmark hoffset] at htells
    · intro failure offset p place hprepared hneeds hoffset hp hplace hstart
      exact hreached.tellsAt_of_refused hsize hprepared hneeds hoffset hp hplace hstart

/-- Both kinds of errors behind a character of two units: on the second line, and behind the tag. -/
theorem errors_in_sections_of_script_and_style :
    (∃ base p q, Text.position? "a\n😀b".toList 1 = some base ∧
        Text.position? "\n😀b".toList 5 = some p ∧ p.relativeTo base = .ok q ∧
        Text.position? "a\n😀b".toList (1 + 5) = some q) ∧
      (∃ a b, LineCol.relativeTo ⟨1, 2⟩ ⟨0, 3⟩ = .ok a ∧ LineCol.relativeTo ⟨0, 3⟩ ⟨0, 4⟩ = .ok b ∧
        a.relativeTo ⟨0, 4⟩ = LineCol.relativeTo ⟨1, 2⟩ b) ∧
      TellsAt {} ⟨"A.svelte"⟩ "<script>\n'😀');</script>" []
        "Expected ';', '\x7d' or <eof>" 15 ∧
      TellsAt {} ⟨"A.svelte"⟩ "😀<style lang=scss>b\x7b</style>"
        [⟨.call (.preprocess (.style .scss) "b\x7b" [("lang", "scss")] "A.svelte"),
          (.error (.failed ⟨"expected a brace", some ⟨1, 2⟩, none⟩) : ToolAnswer)⟩]
        "expected a brace" 23 := by
  refine ⟨(errors_in_sections "a\n😀b" (by decide +kernel)).1 _ 1 7 5 (by decide +kernel)
      (by decide +kernel),
    ⟨⟨1, 2⟩, ⟨0, 7⟩, by decide +kernel, by decide +kernel,
      (errors_in_sections "" (by decide)).2.1 _ ⟨0, 3⟩ _ _ _ (by decide +kernel)
        (by decide +kernel)⟩, ?_, ?_⟩
  · let script : Section := ⟨.script, ⟨0, 26⟩, ⟨8, 17⟩, "\n'😀');", []⟩
    have hreached :
        script.IsReached {} ⟨"A.svelte"⟩ "<script>\n'😀');</script>" [] :=
      Section.isReached_of_first (c := ⟨none, some script, none⟩) (by decide +kernel) rfl
    have hfails : Script.FailsAt .javascript script.content.toList 7
        "Expected ';', '\x7d' or <eof>" := by
      refine ⟨⟨.expectedStatementEnd, 7⟩, ?_, by decide +kernel, rfl⟩
      exact eq_of_map_error (f := fun _ => ()) (by decide +kernel)
    exact (((errors_in_sections _ (by decide +kernel)).2.2 _ _ _ _ hreached).1 .javascript 7 _
      rfl (by decide +kernel) (by decide +kernel) hfails).2 (by decide +kernel) (by decide +kernel)
  · let style : Section :=
      ⟨.style, ⟨4, 31⟩, ⟨21, 23⟩, "b\x7b", [⟨"lang", some "scss", ⟨11, 20⟩⟩]⟩
    have hreached :
        style.IsReached {} ⟨"A.svelte"⟩ "😀<style lang=scss>b\x7b</style>" [] :=
      Section.isReached_of_first (c := ⟨none, none, some style⟩) (by decide +kernel) rfl
    exact ((errors_in_sections _ (by decide +kernel)).2.2 _ _ _ _ hreached).2
      ⟨"expected a brace", some ⟨1, 2⟩, none⟩ 2 ⟨0, 2⟩ ⟨1, 2⟩ rfl (by decide +kernel)
      (by decide +kernel) (by decide +kernel) rfl rfl

/-- A byte order mark counts as three bytes and as one unit, and a fault behind it is told three
units in front of where it is. -/
theorem errors_in_sections_behind_mark :
    Script.FailsAt .javascript "\ufefflet = ;".toList 9 "Expression expected" ∧
      IsBoundary "\ufefflet = ;".toList 9 ∧
      Text.position? "<script>\ufefflet = ;</script>".toList (8 + 9) = some ⟨0, 15⟩ ∧
      TellsBehind {} ⟨"A.svelte"⟩ "<script>\ufefflet = ;</script>" []
        ⟨"Expression expected", some 1, some 12⟩ := by
  let script : Section := ⟨.script, ⟨0, 27⟩, ⟨8, 18⟩, "\ufefflet = ;", []⟩
  have hfails : Script.FailsAt .javascript script.content.toList 9 "Expression expected" := by
    refine ⟨⟨.expectedExpression, 6⟩, ?_, by decide +kernel, rfl⟩
    exact eq_of_map_error (f := fun _ => ()) (by decide +kernel)
  have hreached :
      script.IsReached {} ⟨"A.svelte"⟩ "<script>\ufefflet = ;</script>" [] :=
    Section.isReached_of_first (c := ⟨none, some script, none⟩) (by decide +kernel) rfl
  refine ⟨hfails, by decide +kernel, by decide +kernel, ?_⟩
  obtain ⟨p, hp, -, htells⟩ := hreached.tellsAt_of_failsAt (by decide +kernel) rfl
    (by decide +kernel) (by decide +kernel) hfails
  have htold : Text.position? "<script>\ufefflet = ;</script>".toList
      (script.contentSpan.start + Script.toldOffset script.content.toList 9) = some ⟨0, 12⟩ := by
    decide +kernel
  obtain rfl := Option.some.inj (htold.symm.trans hp)
  exact htells

end ComponentBuild
