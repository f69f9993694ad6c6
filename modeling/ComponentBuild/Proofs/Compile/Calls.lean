import ComponentBuild.Compile.Run
import ComponentBuild.Proofs.Compile.Replaced
import ComponentBuild.Proofs.Transcript

namespace ComponentBuild

/-- A call of a tool and its answer. -/
structure ToolCall where
  request : Request
  answer : ToolAnswer

namespace ToolCall

/-- The files that are told of behind a call: a tool for a section tells what it has read. -/
def files (call : ToolCall) : List Path :=
  match call.request, call.answer with
  | .preprocess .., .ok output => output.dependencies
  | _, _ => []

/-- A call and what is told of right behind it. -/
def exchanges (document : Path) (call : ToolCall) : List (Exchange Step Step.Answer) :=
  ⟨.call call.request, call.answer⟩ ::
    call.files.map fun file => ⟨.dependency document file, ()⟩

/-- What the tools have made. -/
def outputs (calls : List ToolCall) : List ToolOutput := calls.filterMap (·.answer.toOption)

def Succeeds (call : ToolCall) : Prop := ∃ output, call.answer = .ok output

end ToolCall

namespace Section

def language (s : Section) : SectionLanguage :=
  match s.kind with
  | .script => .script (.ofName s.lang?)
  | .style => .style (.ofName s.lang?)

/-- Whether there is a tool for the section. -/
def needsTool (s : Section) (options : BuildOptions) : Bool :=
  match s.language with
  | .script l => l == .typescript || l == .coffeescript
  | .style l => l != .css && !(l == .postcss && options.postcssPlugins.isEmpty)

/-- The sections that need a tool. -/
def withTools (options : BuildOptions) (ss : List Section) : List Section :=
  ss.filter (·.needsTool options)

theorem withTools_of_needsTool {s : Section} {options : BuildOptions} (ss : List Section)
    (h : s.needsTool options = true) : withTools options (s :: ss) = s :: withTools options ss :=
  List.filter_cons_of_pos h

theorem withTools_of_needsNone {s : Section} {options : BuildOptions} (ss : List Section)
    (h : s.needsTool options = false) : withTools options (s :: ss) = withTools options ss :=
  List.filter_cons_of_neg (by rw [h]; exact Bool.false_ne_true)

/-- What becomes of a section before its tool is called. -/
def prepared (s : Section) (k : SectionContext) : Except Failure (Option SectionOutput) :=
  match s.language with
  | .script l => (l.dialect?.map (s.rewritten k)).getD (.ok none)
  | .style _ => .ok none

/-- A section that cannot be prepared is a script that cannot be rewritten. -/
theorem prepared_eq_error {s : Section} {k : SectionContext} {failure : Failure}
    (h : s.prepared k = .error failure) :
    ∃ options e, Script.rewrite options s.content = .error e ∧
      failure = .ofPlace e.message
        ((ToolPosition.relativeTo ⟨e.line, e.column⟩ (s.base k)).map some) := by
  unfold prepared at h
  split at h
  next l _ =>
    cases hdialect : l.dialect? with
    | none =>
      rw [hdialect] at h
      cases h
    | some dialect =>
      rw [hdialect] at h
      change s.rewritten k dialect = _ at h
      unfold rewritten at h
      dsimp only at h
      split at h
      next e hrewrite => exact ⟨_, e, hrewrite, (Except.error.inj h).symm⟩
      next => cases h
  next => cases h

def request (s : Section) (k : SectionContext) (changed : Option SectionOutput) : Request :=
  .preprocess s.language ((changed.map SectionOutput.code).getD s.content) s.attributeValues
    k.path.text

end Section

/-- The new content of a section that was changed before a tool got it. -/
def ToolOutput.replaces (output : ToolOutput) (changed : Option SectionOutput) : SectionOutput :=
  ⟨output.code, PositionMap.composeOptional output.map? (changed.bind SectionOutput.map?)⟩

/-- The new contents of sections, when their tools have made `outputs`. -/
def newContents (k : SectionContext) : List Section → List ToolOutput →
    List (Section × SectionOutput)
  | [], _ => []
  | s :: rest, outputs =>
    let changed := (s.prepared k).toOption.join
    if s.needsTool k.options then
      (outputs.head?.map fun o => (s, o.replaces changed)).toList ++
        newContents k rest outputs.tail
    else (changed.map (s, ·)).toList ++ newContents k rest outputs

/-- A call that is made once all calls in front of it have succeeded. -/
inductive PlannedCall where
  | preprocess (s : Section)
  | compile
  | instrument
  | transpile

/-- One call for each section that needs a tool, then those for the whole document. -/
def Component.plan (c : Component) (options : BuildOptions) : List PlannedCall :=
  (Section.withTools options c.sections).map .preprocess ++
    .compile :: ((if options.hot && options.target == .browser then [.instrument] else []) ++
      [.transpile])

namespace Component

variable (c : Component) (options : BuildOptions) (path : Path) (source : String)

/-- The new contents of the sections of a document, when their tools have made `outputs`. -/
def contents (outputs : List ToolOutput) : List (Section × SectionOutput) :=
  newContents ⟨options, path, source, .ofText source⟩ c.sections outputs

/-- A document in plain languages: the one that the tools for sections were called for, with the new
contents in the places of the old ones. -/
structure IsPlain (outputs : List ToolOutput) (plain : Preprocessed) : Prop where
  text : Preprocessed.Replaces 0 (c.contents options path source outputs) source.toList
    plain.code.toList
  map : if (c.contents options path source outputs).isEmpty then plain.map? = none
    else Preprocessed.splice ⟨options, path, source, .ofText source⟩
      (c.contents options path source outputs) = .ok plain

/-- What a planned call asks for, when the calls in front of it have made `outputs`: a section's
tool gets the prepared content, the compiler the document in plain languages, and each tool behind
it what the one in front has made. The map leads from what a tool gets to the document, or to the
content of a section that starts at `base?`. -/
inductive Asks : List ToolOutput → PlannedCall → Request → Option PositionMap → Option LineCol → Prop
  | preprocess {outputs : List ToolOutput} {s : Section} {changed : Option SectionOutput}
      (h : s.prepared ⟨options, path, source, .ofText source⟩ = .ok changed) :
      Asks outputs (.preprocess s) (s.request ⟨options, path, source, .ofText source⟩ changed)
        (changed.bind SectionOutput.map?) (some (s.base ⟨options, path, source, .ofText source⟩))
  | compile {outputs : List ToolOutput} {plain : Preprocessed}
      (h : c.IsPlain options path source outputs plain) :
      Asks outputs .compile (.compile plain.code (.ofDocument path options)) plain.map? none
  | instrument {outputs : List ToolOutput} {plain : Preprocessed} {compiled : ToolOutput}
      (h : c.IsPlain options path source outputs plain) :
      Asks (outputs ++ [compiled]) .instrument
        (.instrument compiled.code plain.code (.ofDocument path options))
        (PositionMap.composeOptional compiled.map? plain.map?) none
  | transpile {outputs : List ToolOutput} {plain : Preprocessed} {compiled : ToolOutput}
      (hinstruments : options.instruments = false)
      (h : c.IsPlain options path source outputs plain) :
      Asks (outputs ++ [compiled]) .transpile (.transpile compiled.code path.text)
        (PositionMap.composeOptional compiled.map? plain.map?) none
  | transpileInstrumented {outputs : List ToolOutput} {plain : Preprocessed}
      {compiled instrumented : ToolOutput} (hinstruments : options.instruments = true)
      (h : c.IsPlain options path source outputs plain) :
      Asks (outputs ++ [compiled, instrumented]) .transpile
        (.transpile (Text.replaceAll acceptCall "" instrumented.code) path.text)
        (PositionMap.composeOptional compiled.map? plain.map?) none

end Component

namespace Request

def stage : Request → Stage
  | preprocess .. => .preprocess
  | compile .. => .compile
  | instrument .. => .instrument
  | transpile .. => .transpile

end Request

namespace ToolError

/-- Whether a failed call is no fault of the document: the tool could not be run, or a tool behind
the compiler did not say where it failed. -/
def IsInternal (e : ToolError) (r : Request) : Prop :=
  match e with
  | .host _ => True
  | .failed f => f.start = none ∧ (r.stage = .instrument ∨ r.stage = .transpile)

def cause : ToolError → String
  | .host cause => cause
  | .failed f => f.message

end ToolError

/-- What a failed call ends the build with, when what its tool got leads to the document by a map
and from a base on. The document's author is shown the frame of a failure in the whole document. -/
def Failure.Tells (e : ToolError) (r : Request) (map : Option PositionMap) (base? : Option LineCol)
    (failure : Failure) : Prop :=
  (e.IsInternal r ∧ ∃ i : InternalError, failure = .abort (.internal i) ∧ i.stage = r.stage ∧
    i.cause = e.cause) ∨
  ¬ e.IsInternal r ∧ ∃ f, e = .failed f ∧
    failure.Blames (if r.stage = .preprocess then f.message else withFrame f.message f.frame)
      (f.told map base?)

theorem Failure.ofSectionTool_tells (map : Option PositionMap) (base : LineCol) (e : ToolError)
    {r : Request} (hr : r.stage = .preprocess) :
    (ofSectionTool map base e).Tells e r map (some base) := by
  cases e with
  | host cause => exact .inl ⟨trivial, _, rfl, hr.symm, rfl⟩
  | failed f =>
    refine .inr ⟨?_, f, rfl, ?_⟩
    · rintro ⟨-, h | h⟩ <;> cases hr.symm.trans h
    · rw [if_pos hr]
      exact ofSectionTool_blames

theorem Failure.ofTool_tells (map : Option PositionMap) (e : ToolError) {r : Request}
    (hr : r.stage ≠ .preprocess) : (ofTool r.stage map e).Tells e r map none := by
  cases e with
  | host cause => exact .inl ⟨trivial, _, rfl, rfl, rfl⟩
  | failed f =>
    by_cases h : f.start.isNone && r.stage != .compile
    · obtain ⟨hstart, hstage⟩ := Bool.and_eq_true_iff.1 h
      refine .inl ⟨⟨Option.isNone_iff_eq_none.1 hstart, ?_⟩, _, by rw [ofTool, if_pos h], rfl, rfl⟩
      cases hs : r.stage <;> simp_all
    · refine .inr ⟨?_, f, rfl, ?_⟩
      · rintro ⟨hstart, hstage | hstage⟩ <;> rw [hstart, hstage] at h <;> exact h rfl
      · rw [if_neg hr]
        exact ofTool_blames h

namespace Section

variable {s : Section} {k : SectionContext} {log : List (Exchange Step Step.Answer)}

/-- Files are told of one after the other. -/
theorem transcript_dependencies (document : Path) (files : List Path) {r : Except Failure PUnit}
    (h : Steps.Transcript (forIn files PUnit.unit fun file _ => do
        Steps.dependency document file
        return ForInStep.yield PUnit.unit) log r) :
    log = (files.map fun file => ⟨.dependency document file, ()⟩) ∧ r = .ok PUnit.unit := by
  induction files generalizing log with
  | nil => exact Steps.transcript_pure.1 h
  | cons file files ih =>
    rw [List.forIn_cons, bind_assoc] at h
    obtain ⟨_, back, rfl, hback⟩ := Steps.transcript_lift_bind.1 h
    rw [pure_bind] at hback
    obtain ⟨rfl, hr⟩ := ih hback
    exact ⟨rfl, hr⟩

/-- A section's tool is called, and the files that it has read are told of. -/
theorem transcript_transform {language : SectionLanguage} {content : String}
    {prior : Option PositionMap} {r : Except Failure SectionOutput}
    (h : Steps.Transcript (s.transform k language content prior) log r) :
    ∃ answer : ToolAnswer,
      log = ToolCall.exchanges k.path
        ⟨.preprocess language content s.attributeValues k.path.text, answer⟩ ∧
      r = (answer.map fun o => ⟨o.code, o.map?⟩).mapError
        (Failure.ofSectionTool prior (s.base k)) := by
  rcases Steps.transcript_call_bind h with ⟨output, back, rfl, hback⟩ | ⟨e, rfl, rfl⟩
  · rcases Steps.transcript_bind.1 hback with ⟨_, files, _, rfl, hfiles, hend⟩ | ⟨e, -, hfiles⟩
    · obtain ⟨rfl, -⟩ := transcript_dependencies k.path output.dependencies hfiles
      obtain ⟨rfl, rfl⟩ := Steps.transcript_pure.1 hend
      refine ⟨.ok output, ?_, rfl⟩
      rw [List.append_nil]
      rfl
    · obtain ⟨-, hr⟩ := transcript_dependencies k.path output.dependencies hfiles
      cases hr
  · exact ⟨.error e, rfl, rfl⟩

theorem needsTool_script (hkind : s.kind = .script) :
    s.needsTool k.options = (ScriptLanguage.ofName s.lang?).needsTool := by
  unfold needsTool language
  rw [hkind]
  cases ScriptLanguage.ofName s.lang? <;> rfl

theorem needsTool_style (hkind : s.kind = .style) :
    s.needsTool k.options = styleNeedsTool (StyleLanguage.ofName s.lang?) k.options := by
  unfold needsTool language
  rw [hkind]
  cases StyleLanguage.ofName s.lang? <;> rfl

/-- A section that needs no tool is done, and the tool of any other is called. -/
theorem transcript_withTool {needs : Bool} {rest : Option SectionOutput}
    {language : SectionLanguage} {content : String} {prior : Option PositionMap}
    (finish : SectionOutput → SectionOutput) {r : Except Failure (Option SectionOutput)}
    (h : Steps.Transcript (do
      if !needs then return rest
      let output ← s.transform k language content prior
      return some (finish output)) log r) :
    needs = false ∧ log = [] ∧ r = .ok rest ∨
    needs = true ∧ ∃ answer : ToolAnswer,
      log = ToolCall.exchanges k.path
        ⟨.preprocess language content s.attributeValues k.path.text, answer⟩ ∧
      r = (answer.map fun o => some (finish ⟨o.code, o.map?⟩)).mapError
        (Failure.ofSectionTool prior (s.base k)) := by
  cases needs with
  | false => exact .inl ⟨rfl, Steps.transcript_pure.1 h⟩
  | true =>
    obtain ⟨x, hx, rfl⟩ := Steps.transcript_bind_pure.1 h
    obtain ⟨answer, rfl, rfl⟩ := transcript_transform hx
    refine .inr ⟨rfl, answer, rfl, ?_⟩
    cases answer <;> rfl

/-- A script that is prepared is done, or its tool is called with what it was prepared to. -/
theorem transcript_changed {l : ScriptLanguage} {changed : Option SectionOutput}
    {r : Except Failure (Option SectionOutput)} (hlanguage : s.language = .script l)
    (h : Steps.Transcript (do
      if !l.needsTool then return changed
      let prior := changed.bind SectionOutput.map?
      let content := (changed.map SectionOutput.code).getD s.content
      let output ← s.transform k (.script l) content prior
      return some { output with map? := PositionMap.composeOptional output.map? prior }) log r) :
    l.needsTool = false ∧ log = [] ∧ r = .ok changed ∨
    l.needsTool = true ∧ ∃ answer : ToolAnswer,
      log = ToolCall.exchanges k.path ⟨s.request k changed, answer⟩ ∧
      r = (answer.map fun o => some (o.replaces changed)).mapError
        (Failure.ofSectionTool (changed.bind SectionOutput.map?) (s.base k)) := by
  rw [request, hlanguage]
  exact transcript_withTool _ h

/-- What a section comes to: it cannot be prepared, or no tool has to go on with it, or its tool is
called with what it was prepared to. -/
theorem transcript_output {r : Except Failure (Option SectionOutput)}
    (h : Steps.Transcript (s.output k) log r) :
    (∃ e, s.prepared k = .error e ∧ log = [] ∧ r = .error e) ∨
    ∃ changed, s.prepared k = .ok changed ∧
      (s.needsTool k.options = false ∧ log = [] ∧ r = .ok changed ∨
      s.needsTool k.options = true ∧ ∃ answer : ToolAnswer,
        log = ToolCall.exchanges k.path ⟨s.request k changed, answer⟩ ∧
        r = (answer.map fun o => some (o.replaces changed)).mapError
          (Failure.ofSectionTool (changed.bind SectionOutput.map?) (s.base k))) := by
  unfold output at h
  cases hkind : s.kind with
  | script =>
    rw [hkind] at h
    have hlanguage : s.language = .script (.ofName s.lang?) := by rw [language, hkind]
    rw [needsTool_script hkind]
    unfold prepared
    rw [hlanguage]
    change Steps.Transcript (s.script k) log r at h
    unfold script at h
    dsimp only at h ⊢
    -- The rewriting has failed, or it has left a content for the tool, if there is one.
    generalize (ScriptLanguage.ofName s.lang?).dialect?.map (s.rewritten k) = rewriting at h ⊢
    rcases rewriting with _ | e | changed
    · exact .inr ⟨none, rfl, transcript_changed hlanguage h⟩
    · exact .inl ⟨e, rfl, Steps.transcript_throw.1 h⟩
    · exact .inr ⟨changed, rfl, transcript_changed hlanguage h⟩
  | style =>
    rw [hkind] at h
    have hlanguage : s.language = .style (.ofName s.lang?) := by rw [language, hkind]
    have hprepared : s.prepared k = .ok none := by rw [prepared, hlanguage]
    refine .inr ⟨none, hprepared, ?_⟩
    rw [needsTool_style hkind]
    change Steps.Transcript (s.styleOutput k) log r at h
    unfold styleOutput at h
    rw [request, hlanguage]
    refine (transcript_withTool id h).imp_right ?_
    rintro ⟨hneeds, answer, hlog, hr⟩
    refine ⟨hneeds, answer, hlog, hr.trans ?_⟩
    rcases answer with e | ⟨code, _ | map, files⟩ <;> rfl

end Section

/-- The calls for sections in their order, and what they come to. -/
inductive SectionCalls (k : SectionContext) :
    List Section → List ToolCall → Except Failure (List (Section × SectionOutput)) → Prop
  | nil : SectionCalls k [] [] (.ok [])
  | unprepared {s : Section} {rest : List Section} {e : Failure}
      (h : s.prepared k = .error e) :
      SectionCalls k (s :: rest) [] (.error e)
  | quiet {s : Section} {rest : List Section} {changed : Option SectionOutput}
      {calls : List ToolCall} {r : Except Failure (List (Section × SectionOutput))}
      (h : s.prepared k = .ok changed) (hneeds : s.needsTool k.options = false)
      (hrest : SectionCalls k rest calls r) :
      SectionCalls k (s :: rest) calls (r.map ((changed.map (s, ·)).toList ++ ·))
  | refused {s : Section} {rest : List Section} {changed : Option SectionOutput} {e : ToolError}
      (h : s.prepared k = .ok changed) (hneeds : s.needsTool k.options = true) :
      SectionCalls k (s :: rest) [⟨s.request k changed, .error e⟩]
        (.error (.ofSectionTool (changed.bind SectionOutput.map?) (s.base k) e))
  | called {s : Section} {rest : List Section} {changed : Option SectionOutput}
      {output : ToolOutput} {calls : List ToolCall}
      {r : Except Failure (List (Section × SectionOutput))}
      (h : s.prepared k = .ok changed) (hneeds : s.needsTool k.options = true)
      (hrest : SectionCalls k rest calls r) :
      SectionCalls k (s :: rest) (⟨s.request k changed, .ok output⟩ :: calls)
        (r.map ([(s, output.replaces changed)] ++ ·))

theorem transcript_changedSections {k : SectionContext} {ss : List Section}
    {log : List (Exchange Step Step.Answer)} {r : Except Failure (List (Section × SectionOutput))}
    (h : Steps.Transcript (changedSections k ss) log r) :
    ∃ calls, log = calls.flatMap (ToolCall.exchanges k.path) ∧ SectionCalls k ss calls r := by
  induction ss generalizing log r with
  | nil =>
    obtain ⟨rfl, rfl⟩ := Steps.transcript_pure.1 h
    exact ⟨[], rfl, .nil⟩
  | cons s rest ih =>
    rcases Steps.transcript_bind.1 h with ⟨o, front, back, rfl, hsection, hback⟩ | ⟨f, rfl, hsection⟩
    · obtain ⟨x, hx, rfl⟩ := Steps.transcript_bind_pure.1 hback
      obtain ⟨calls, rfl, hcalls⟩ := ih hx
      obtain ⟨_, _, _, hr⟩ | ⟨changed, hprepared,
        ⟨hneeds, rfl, hr⟩ | ⟨hneeds, answer, rfl, hr⟩⟩ := Section.transcript_output hsection
      · cases hr
      · cases hr
        exact ⟨calls, rfl, .quiet hprepared hneeds hcalls⟩
      · cases answer with
        | error e => cases hr
        | ok output =>
          cases hr
          exact ⟨⟨s.request k changed, .ok output⟩ :: calls, rfl,
            .called hprepared hneeds hcalls⟩
    · obtain ⟨e, hprepared, rfl, hr⟩ | ⟨changed, hprepared,
        ⟨hneeds, rfl, hr⟩ | ⟨hneeds, answer, rfl, hr⟩⟩ := Section.transcript_output hsection
      · cases hr
        exact ⟨[], rfl, .unprepared hprepared⟩
      · cases hr
      · cases answer with
        | ok output => cases hr
        | error e =>
          cases hr
          exact ⟨[⟨s.request k changed, .error e⟩], (List.append_nil _).symm,
            .refused hprepared hneeds⟩

namespace SectionCalls

variable {k : SectionContext} {ss : List Section} {calls : List ToolCall}

/-- The calls are for the sections that need a tool, in their order. -/
theorem requests {r : Except Failure (List (Section × SectionOutput))}
    (h : SectionCalls k ss calls r) (n : Nat) (call : ToolCall) (hn : calls[n]? = some call) :
    ∃ s changed, (Section.withTools k.options ss)[n]? = some s ∧ s.prepared k = .ok changed ∧
      call.request = s.request k changed := by
  induction h generalizing n with
  | nil | unprepared => cases hn
  | @quiet s rest _ _ _ _ hneeds _ ih =>
    rw [Section.withTools_of_needsNone rest hneeds]
    exact ih n hn
  | @refused s rest changed e h hneeds =>
    rw [Section.withTools_of_needsTool rest hneeds]
    cases n with
    | zero =>
      cases hn
      exact ⟨s, changed, rfl, h, rfl⟩
    | succ n => cases hn
  | @called s rest changed output calls r h hneeds _ ih =>
    rw [Section.withTools_of_needsTool rest hneeds]
    cases n with
    | zero =>
      cases hn
      exact ⟨s, changed, rfl, h, rfl⟩
    | succ n => exact ih n hn

/-- Sections that come to their new contents have had all their calls, with success. -/
theorem of_ok {contents : List (Section × SectionOutput)}
    (h : SectionCalls k ss calls (.ok contents)) :
    (∀ s ∈ ss, ∃ o, s.prepared k = .ok o) ∧
      calls.length = (Section.withTools k.options ss).length ∧
      (∀ call ∈ calls, call.Succeeds) ∧ newContents k ss (ToolCall.outputs calls) = contents := by
  generalize hr : Except.ok contents = r at h
  induction h generalizing contents with
  | nil =>
    cases hr
    exact ⟨fun _ h => absurd h List.not_mem_nil, rfl, fun _ h => absurd h List.not_mem_nil, rfl⟩
  | unprepared | refused => cases hr
  | @quiet s rest changed calls r h hneeds _ ih =>
    cases r with
    | error f => cases hr
    | ok others =>
      cases hr
      obtain ⟨hprepared, hlength, hok, hcontents⟩ := ih rfl
      rw [Section.withTools_of_needsNone rest hneeds]
      refine ⟨List.forall_mem_cons.2 ⟨⟨changed, h⟩, hprepared⟩, hlength, hok, ?_⟩
      simp only [newContents, h, hneeds, hcontents]
      rfl
  | @called s rest changed output calls r h hneeds _ ih =>
    cases r with
    | error f => cases hr
    | ok others =>
      cases hr
      obtain ⟨hprepared, hlength, hok, hcontents⟩ := ih rfl
      rw [Section.withTools_of_needsTool rest hneeds]
      refine ⟨List.forall_mem_cons.2 ⟨⟨changed, h⟩, hprepared⟩, congrArg (· + 1) hlength,
        List.forall_mem_cons.2 ⟨⟨output, rfl⟩, hok⟩, ?_⟩
      have houtputs : ToolCall.outputs (⟨s.request k changed, .ok output⟩ :: calls) =
          output :: ToolCall.outputs calls := rfl
      simp only [newContents, h, hneeds, houtputs, List.tail_cons, hcontents]
      rfl

/-- Sections that fail do so in front of a call, or with the last one. -/
theorem of_error {f : Failure} (h : SectionCalls k ss calls (.error f)) :
    (∃ front s rest, ss = front ++ s :: rest ∧
      (∀ t ∈ front, ∃ o, t.prepared k = .ok o) ∧ s.prepared k = .error f ∧
      calls.length = (Section.withTools k.options front).length ∧
      ∀ call ∈ calls, call.Succeeds) ∨
    ∃ front s changed e, calls = front ++ [⟨s.request k changed, .error e⟩] ∧
      (∀ call ∈ front, call.Succeeds) ∧
      (Section.withTools k.options ss)[front.length]? = some s ∧ s.prepared k = .ok changed ∧
      f = .ofSectionTool (changed.bind SectionOutput.map?) (s.base k) e := by
  generalize hr : Except.error f = r at h
  induction h generalizing f with
  | nil => cases hr
  | @unprepared s rest e h =>
    cases hr
    exact .inl ⟨[], s, rest, rfl, fun _ h => absurd h List.not_mem_nil, h, rfl,
      fun _ h => absurd h List.not_mem_nil⟩
  | @refused s rest changed e h hneeds =>
    cases hr
    refine .inr ⟨[], s, changed, e, rfl, fun _ h => absurd h List.not_mem_nil, ?_, h, rfl⟩
    rw [Section.withTools_of_needsTool rest hneeds]
    rfl
  | @quiet s rest changed calls r h hneeds _ ih =>
    cases r with
    | ok others => cases hr
    | error g =>
      cases hr
      rw [Section.withTools_of_needsNone rest hneeds]
      rcases ih rfl with ⟨front, t, back, rfl, hfront, ht, hlength, hok⟩ | hcall
      · refine .inl ⟨s :: front, t, back, rfl, ?_, ht, ?_, hok⟩
        · exact List.forall_mem_cons.2 ⟨⟨changed, h⟩, hfront⟩
        · rw [Section.withTools_of_needsNone front hneeds]
          exact hlength
      · exact .inr hcall
  | @called s rest changed output calls r h hneeds _ ih =>
    cases r with
    | ok others => cases hr
    | error g =>
      cases hr
      rw [Section.withTools_of_needsTool rest hneeds]
      rcases ih rfl with ⟨front, t, back, rfl, hfront, ht, hlength, hok⟩ |
        ⟨front, t, changed', e, rfl, hok, ht, hprepared, rfl⟩
      · refine .inl ⟨s :: front, t, back, rfl, ?_, ht, ?_, ?_⟩
        · exact List.forall_mem_cons.2 ⟨⟨changed, h⟩, hfront⟩
        · rw [Section.withTools_of_needsTool front hneeds]
          exact congrArg (· + 1) hlength
        · exact List.forall_mem_cons.2 ⟨⟨output, rfl⟩, hok⟩
      · exact .inr ⟨_ :: front, t, changed', e, rfl,
          List.forall_mem_cons.2 ⟨⟨output, rfl⟩, hok⟩, ht, hprepared, rfl⟩

end SectionCalls

/-- New contents are those of sections in their order. -/
theorem newContents_sublist (k : SectionContext) (ss : List Section) (outputs : List ToolOutput) :
    ((newContents k ss outputs).map Prod.fst).Sublist ss := by
  induction ss generalizing outputs with
  | nil => exact .slnil
  | cons s rest ih =>
    have hcons {o : Option SectionOutput} {outputs : List ToolOutput} :
        (((o.map (s, ·)).toList ++ newContents k rest outputs).map Prod.fst).Sublist (s :: rest) := by
      cases o with
      | none => exact (ih outputs).cons s
      | some o => exact (ih outputs).cons_cons s
    rw [newContents]
    split
    · have hmap : (outputs.head?.map fun o => (s, o.replaces (s.prepared k).toOption.join)) =
          (outputs.head?.map fun o => o.replaces (s.prepared k).toOption.join).map (s, ·) :=
        (Option.map_map ..).symm
      rw [hmap]
      exact hcons
    · exact hcons

end ComponentBuild
