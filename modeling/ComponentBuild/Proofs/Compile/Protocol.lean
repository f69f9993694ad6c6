import ComponentBuild.Proofs.Compile.Preprocess
import ComponentBuild.Proofs.Compile.Reported

namespace ComponentBuild

open Text (StandsAt)

/-- Calls follow the plan of a component: they are its first ones, and each asks for what it plans
when the calls in front have made what they have. -/
def Component.Plans (c : Component) (options : BuildOptions) (path : Path) (source : String)
    (calls : List ToolCall) : Prop :=
  ∀ n call, calls[n]? = some call → ∃ p map base?, (c.plan options)[n]? = some p ∧
    c.Asks options path source (ToolCall.outputs (calls.take n)) p call.request map base?

/-- All calls for sections are made, and one of the maps that come with the new contents tells a
place that does not fit where the content is a part of the document. -/
structure Component.Overflows (c : Component) (options : BuildOptions) (path : Path)
    (source : String) (calls : List ToolCall) : Prop where
  prepared : ∀ s ∈ c.sections, ∃ o, s.prepared ⟨options, path, source, .ofText source⟩ = .ok o
  length : calls.length = (Section.withTools options c.sections).length
  succeeds : ∀ call ∈ calls, call.Succeeds
  part : ∃ code : String,
    Preprocessed.Replaces 0 (c.contents options path source (ToolCall.outputs calls)) source.toList
      code.toList ∧
    ∃ part ∈ Preprocessed.parts 0 0 (c.contents options path source (ToolCall.outputs calls)),
      part.Overflows ⟨options, path, source, .ofText source⟩ code

/-- How a build ends: by itself, in front of a call, or with the last one. -/
inductive Ending (options : BuildOptions) (path : Path) (source : String) :
    List ToolCall → Except Failure Compiled → Prop
  | undivided {e : ScanError} (h : Document.detect path.text source = .error e) :
      Ending options path source [] (.error (e.toFailure source))
  | markup {parts : List HtmlPart} (h : Document.detect path.text source = .ok (.markup parts)) :
      Ending options path source [] (.ok (.markup parts))
  /-- The calls for the sections in front of the first that cannot be prepared are made. -/
  | unprepared {c : Component} {front rest : List Section} {s : Section}
      {calls : List ToolCall} {failure : Failure}
      (h : Document.detect path.text source = .ok (.component c))
      (hsections : c.sections = front ++ s :: rest)
      (hfront : ∀ t ∈ front, ∃ o, t.prepared ⟨options, path, source, .ofText source⟩ = .ok o)
      (hs : s.prepared ⟨options, path, source, .ofText source⟩ = .error failure)
      (hlength : calls.length = (Section.withTools options front).length)
      (hcalls : ∀ call ∈ calls, call.Succeeds) :
      Ending options path source calls (.error failure)
  | overflowed {c : Component} {calls : List ToolCall}
      (h : Document.detect path.text source = .ok (.component c))
      (hoverflows : c.Overflows options path source calls) :
      Ending options path source calls (.error (.abort .overflow))
  | failed {c : Component} {front : List ToolCall} {p : PlannedCall} {request : Request}
      {map : Option PositionMap} {base? : Option LineCol} {e : ToolError} {failure : Failure}
      (h : Document.detect path.text source = .ok (.component c))
      (hp : (c.plan options)[front.length]? = some p) (hfront : ∀ call ∈ front, call.Succeeds)
      (hasks : c.Asks options path source (ToolCall.outputs front) p request map base?)
      (htells : failure.Tells e request map base?) :
      Ending options path source (front ++ [⟨request, .error e⟩]) (.error failure)
  /-- All calls of the plan are made. -/
  | built {c : Component} {calls : List ToolCall} {output : ToolOutput}
      {map? : Option PositionMap} (h : Document.detect path.text source = .ok (.component c))
      (hlength : calls.length = (c.plan options).length)
      (hcalls : ∀ call ∈ calls, call.Succeeds)
      (hlast : (ToolCall.outputs calls).getLast? = some output) :
      Ending options path source calls (.ok (.component output.code map?))

section

variable {c : Component} {options : BuildOptions} {path : Path} {source : String}

theorem Component.Plans.snoc {calls : List ToolCall} {p : PlannedCall} {call : ToolCall}
    {map : Option PositionMap} {base? : Option LineCol}
    (h : c.Plans options path source calls) (hp : (c.plan options)[calls.length]? = some p)
    (hcall : c.Asks options path source (ToolCall.outputs calls) p call.request map base?) :
    c.Plans options path source (calls ++ [call]) := by
  intro n other hn
  rcases Nat.lt_trichotomy n calls.length with hlt | rfl | hgt
  · rw [List.getElem?_append_left hlt] at hn
    rw [List.take_append_of_le_length (Nat.le_of_lt hlt)]
    exact h n other hn
  · rw [List.getElem?_concat_length] at hn
    cases hn
    rw [List.take_left]
    exact ⟨p, map, base?, hp, hcall⟩
  · rw [List.getElem?_eq_none (by simp only [List.length_append, List.length_singleton]; omega)] at hn
    cases hn

/-- The rest of a build, behind calls that have succeeded. -/
def Component.Completes (c : Component) (options : BuildOptions) (path : Path) (source : String)
    (calls : List ToolCall) (log : List (Exchange Step Step.Answer))
    (r : Except Failure Compiled) : Prop :=
  ∃ later, log = later.flatMap (ToolCall.exchanges path) ∧
    c.Plans options path source (calls ++ later) ∧ Ending options path source (calls ++ later) r

/-- A stage for the whole document calls its tool; the build ends or goes on with the output. -/
theorem completes_stage {calls : List ToolCall} {p : PlannedCall} {request : Request}
    {map : Option PositionMap} {f : ToolOutput → Steps Compiled}
    {log : List (Exchange Step Step.Answer)} {r : Except Failure Compiled}
    (hdetect : Document.detect path.text source = .ok (.component c))
    (h : Steps.Transcript (Steps.call request (.ofTool request.stage map) >>= f) log r)
    (hplans : c.Plans options path source calls) (hcalls : ∀ call ∈ calls, call.Succeeds)
    (hp : (c.plan options)[calls.length]? = some p)
    (hasks : c.Asks options path source (ToolCall.outputs calls) p request map none)
    (hstage : request.stage ≠ .preprocess)
    (hrest : ∀ output back, Steps.Transcript (f output) back r →
      c.Plans options path source (calls ++ [⟨request, .ok output⟩]) →
      (∀ call ∈ calls ++ [⟨request, .ok output⟩], call.Succeeds) →
      c.Completes options path source (calls ++ [⟨request, .ok output⟩]) back r) :
    c.Completes options path source calls log r := by
  have hexchanges (answer : ToolAnswer) :
      ToolCall.exchanges path ⟨request, answer⟩ = [⟨.call request, answer⟩] := by
    cases request with
    | preprocess => exact absurd rfl hstage
    | compile | instrument | transpile => rfl
  have hnext (answer : ToolAnswer) :
      c.Plans options path source (calls ++ [⟨request, answer⟩]) := hplans.snoc hp hasks
  rcases Steps.transcript_call_bind h with ⟨output, back, rfl, hback⟩ | ⟨e, rfl, rfl⟩
  · obtain ⟨later, rfl, hlater, hending⟩ := hrest output back hback (hnext _) (by
      intro call hcall
      rcases List.mem_append.1 hcall with hcall | hcall
      · exact hcalls call hcall
      · exact ⟨output, by rw [List.mem_singleton.1 hcall]⟩)
    rw [List.append_assoc] at hlater hending
    refine ⟨⟨request, .ok output⟩ :: later, ?_, hlater, hending⟩
    rw [List.flatMap_cons, hexchanges]
    rfl
  · refine ⟨[⟨request, .error e⟩], ?_, hnext _,
      .failed hdetect hp hcalls hasks (Failure.ofTool_tells map e hstage)⟩
    rw [List.flatMap_singleton, hexchanges]

theorem outputs_concat (calls : List ToolCall) (request : Request) (output : ToolOutput) :
    ToolCall.outputs (calls ++ [⟨request, .ok output⟩]) = ToolCall.outputs calls ++ [output] := by
  unfold ToolCall.outputs
  rw [List.filterMap_append]
  rfl

/-- The transpiler is the last tool, and what it makes is what the document is built into. -/
theorem completes_transpile {calls : List ToolCall} {code : String} {map? : Option PositionMap}
    {log : List (Exchange Step Step.Answer)} {r : Except Failure Compiled}
    (hdetect : Document.detect path.text source = .ok (.component c))
    (h : Steps.Transcript (do
      let transpiled ← Steps.call (.transpile code path.text) (.ofTool .transpile map?)
      return .component transpiled.code (PositionMap.composeOptional transpiled.map? map?)) log r)
    (hplans : c.Plans options path source calls) (hcalls : ∀ call ∈ calls, call.Succeeds)
    (hp : (c.plan options)[calls.length]? = some .transpile)
    (hlength : (c.plan options).length = calls.length + 1)
    (hasks : c.Asks options path source (ToolCall.outputs calls) .transpile
      (.transpile code path.text) map? none) :
    c.Completes options path source calls log r := by
  refine completes_stage hdetect h hplans hcalls hp hasks nofun ?_
  intro transpiled back hback hplans hcalls
  obtain ⟨rfl, rfl⟩ := Steps.transcript_pure.1 hback
  refine ⟨[], rfl, by rwa [List.append_nil], ?_⟩
  rw [List.append_nil]
  refine .built hdetect ?_ hcalls ?_
  · rw [hlength, List.length_append, List.length_singleton]
  · rw [outputs_concat, List.getLast?_concat]

variable (c options) in
theorem Component.plan_behind (n : Nat) :
    (c.plan options)[(Section.withTools options c.sections).length + n]? =
      (PlannedCall.compile :: ((if options.instruments then [.instrument] else []) ++
        [.transpile]))[n]? := by
  unfold Component.plan
  rw [List.getElem?_append_right (by rw [List.length_map]; omega), List.length_map,
    Nat.add_sub_cancel_left]
  rfl

variable (c options) in
theorem Component.plan_section {s : Section} {n : Nat}
    (h : (Section.withTools options c.sections)[n]? = some s) :
    (c.plan options)[n]? = some (.preprocess s) := by
  have hlt : n < (Section.withTools options c.sections).length :=
    (List.getElem?_eq_some_iff.1 h).1
  unfold Component.plan
  rw [List.getElem?_append_left (by rwa [List.length_map]), List.getElem?_map, h]
  rfl

variable (c options) in
theorem Component.plan_length :
    (c.plan options).length = (Section.withTools options c.sections).length +
      if options.instruments then 3 else 2 := by
  unfold Component.plan
  rw [List.length_append, List.length_map]
  refine congrArg (_ + ·) ?_
  change (PlannedCall.compile :: ((if options.instruments then [.instrument] else []) ++
    [.transpile])).length = _
  cases options.instruments <;> rfl

/-- Behind preprocessing come the compiler, the instrumentation if it is wanted, and the
transpiler. -/
theorem completes_build {calls : List ToolCall} {plain : Preprocessed}
    {log : List (Exchange Step Step.Answer)} {r : Except Failure Compiled}
    (hdetect : Document.detect path.text source = .ok (.component c))
    (h : Steps.Transcript (do
      let compile := CompileOptions.ofDocument path options
      let compiled ← Steps.call (.compile plain.code compile) (.ofTool .compile plain.map?)
      let map? := PositionMap.composeOptional compiled.map? plain.map?
      let code ← instrument options compile plain.code compiled.code map?
      let transpiled ← Steps.call (.transpile code path.text) (.ofTool .transpile map?)
      return .component transpiled.code (PositionMap.composeOptional transpiled.map? map?)) log r)
    (hplans : c.Plans options path source calls) (hcalls : ∀ call ∈ calls, call.Succeeds)
    (hlength : calls.length = (Section.withTools options c.sections).length)
    (hplain : c.IsPlain options path source (ToolCall.outputs calls) plain) :
    c.Completes options path source calls log r := by
  have hnth := c.plan_behind options
  have hplan := c.plan_length options
  rw [← hlength] at hnth hplan
  refine completes_stage (p := .compile) hdetect h hplans hcalls (hnth 0) (.compile hplain) nofun ?_
  intro compiled back hback hplans hcalls
  unfold instrument at hback
  cases hinstruments : options.instruments with
  | false =>
    rw [hinstruments] at hback hnth hplan
    refine completes_transpile hdetect hback hplans hcalls ?_ ?_ ?_
    · rw [List.length_append]
      exact hnth 1
    · rw [hplan, List.length_append]
      rfl
    · rw [outputs_concat]
      exact .transpile hinstruments hplain
  | true =>
    rw [hinstruments] at hback hnth hplan
    change Steps.Transcript ((Steps.call _ _ >>= fun output =>
      pure (Text.replaceAll acceptCall "" output.code)) >>= _) back r at hback
    rw [bind_assoc] at hback
    refine completes_stage (p := .instrument) hdetect hback hplans hcalls ?_ ?_ nofun ?_
    · rw [List.length_append]
      exact hnth 1
    · rw [outputs_concat]
      exact .instrument hplain
    intro instrumented back hback hplans hcalls
    rw [pure_bind] at hback
    refine completes_transpile hdetect hback hplans hcalls ?_ ?_ ?_
    · rw [List.length_append, List.length_append]
      exact hnth 2
    · rw [hplan, List.length_append, List.length_append]
      rfl
    · rw [outputs_concat, outputs_concat, List.append_assoc]
      exact .transpileInstrumented hinstruments hplain

/-- The calls for the sections are the first that a component plans. -/
theorem SectionCalls.plans {calls : List ToolCall}
    {r : Except Failure (List (Section × SectionOutput))}
    (h : SectionCalls ⟨options, path, source, .ofText source⟩ c.sections calls r) :
    c.Plans options path source calls := by
  intro n call hn
  obtain ⟨s, changed, hs, hprepared, hrequest⟩ := h.requests n call hn
  have hasks : c.Asks options path source (ToolCall.outputs (calls.take n)) (.preprocess s)
      (s.request ⟨options, path, source, .ofText source⟩ changed) _ _ := .preprocess hprepared
  rw [← hrequest] at hasks
  exact ⟨_, _, _, c.plan_section options hs, hasks⟩

/-- The new contents of a component stand in the places of the old ones. -/
theorem Component.contents_inOrder (hdetect : Document.detect path.text source = .ok (.component c))
    (outputs : List ToolOutput) :
    Preprocessed.InOrder source.toList 0 (c.contents options path source outputs) :=
  Preprocessed.inOrder_of_sublist (detect_placed hdetect).1 (detect_placed hdetect).2
    (newContents_sublist _ _ _)

theorem Component.contents_replaces
    (hdetect : Document.detect path.text source = .ok (.component c)) (outputs : List ToolOutput) :
    Preprocessed.Replaces 0 (c.contents options path source outputs) source.toList
      (Splice.code (Preprocessed.pieces source.toList 0
        (c.contents options path source outputs))).toList := by
  rw [Splice.toList_code]
  exact (Component.contents_inOrder hdetect outputs).replaces (StandsAt.zero _)

/-- The document that preprocessing comes to, if its maps fit. -/
theorem Component.isPlain_of_splice
    (hdetect : Document.detect path.text source = .ok (.component c)) {outputs : List ToolOutput}
    {plain : Preprocessed} (hsome : (c.contents options path source outputs).isEmpty = false)
    (h : Preprocessed.splice ⟨options, path, source, .ofText source⟩
      (c.contents options path source outputs) = .ok plain) :
    c.IsPlain options path source outputs plain := by
  refine ⟨?_, by rwa [if_neg (by rw [hsome]; exact Bool.false_ne_true)]⟩
  rw [Preprocessed.code_of_splice h]
  exact Component.contents_replaces hdetect outputs

theorem Component.isPlain_of_isEmpty {outputs : List ToolOutput}
    (h : (c.contents options path source outputs).isEmpty = true) :
    c.IsPlain options path source outputs ⟨source, none⟩ := by
  refine ⟨?_, by rw [if_pos h]⟩
  rw [List.isEmpty_iff.1 h]
  exact .nil 0 _

theorem transcript_build {log : List (Exchange Step Step.Answer)} {r : Except Failure Compiled}
    (hdetect : Document.detect path.text source = .ok (.component c))
    (h : Steps.Transcript (c.build options path source) log r) :
    c.Completes options path source [] log r := by
  unfold Component.build Component.preprocess at h
  rw [bind_assoc] at h
  rcases Steps.transcript_bind.1 h with ⟨contents, front, back, rfl, hsections, hback⟩ |
    ⟨f, rfl, hsections⟩
  · obtain ⟨calls, rfl, hcalls⟩ := transcript_changedSections hsections
    obtain ⟨hprepared, hlength, hok, hcontents⟩ := hcalls.of_ok
    change c.contents options path source (ToolCall.outputs calls) = contents at hcontents
    subst hcontents
    cases hempty : (c.contents options path source (ToolCall.outputs calls)).isEmpty with
    | true =>
      rw [if_pos hempty, pure_bind] at hback
      obtain ⟨later, rfl, hplans, hending⟩ := completes_build hdetect hback hcalls.plans hok hlength
        (Component.isPlain_of_isEmpty hempty)
      exact ⟨calls ++ later, List.flatMap_append.symm, hplans, hending⟩
    | false =>
      rw [if_neg (by rw [hempty]; exact Bool.false_ne_true)] at hback
      cases hsplice : Preprocessed.splice ⟨options, path, source, .ofText source⟩
          (c.contents options path source (ToolCall.outputs calls)) with
      | ok plain =>
        rw [hsplice] at hback
        obtain ⟨later, rfl, hplans, hending⟩ := completes_build hdetect hback hcalls.plans hok
          hlength (Component.isPlain_of_splice hdetect hempty hsplice)
        exact ⟨calls ++ later, List.flatMap_append.symm, hplans, hending⟩
      | error e =>
        rw [hsplice] at hback
        obtain ⟨rfl, rfl⟩ := Steps.transcript_throw.1 hback
        refine ⟨calls, List.append_nil _, hcalls.plans, .overflowed hdetect
          ⟨hprepared, hlength, hok, _, Component.contents_replaces hdetect _,
            Preprocessed.splice_eq_error_iff.1 hsplice⟩⟩
  · obtain ⟨calls, rfl, hcalls⟩ := transcript_changedSections hsections
    refine ⟨calls, rfl, hcalls.plans, ?_⟩
    rcases hcalls.of_error with ⟨front, s, rest, hsplit, hfront, hs, hlength, hok⟩ |
      ⟨front, s, changed, e, rfl, hok, hs, hprepared, rfl⟩
    · exact .unprepared hdetect hsplit hfront hs hlength hok
    · exact .failed hdetect (c.plan_section options hs) hok (.preprocess hprepared)
        (Failure.ofSectionTool_tells _ _ e rfl)

theorem transcript_buildStages {log : List (Exchange Step Step.Answer)}
    {r : Except Failure Compiled}
    (h : Steps.Transcript (buildStages options path source) log r) :
    ∃ calls, log = calls.flatMap (ToolCall.exchanges path) ∧
      (calls = [] ∨ ∃ c, Document.detect path.text source = .ok (.component c) ∧
        c.Plans options path source calls) ∧
      Ending options path source calls r := by
  unfold buildStages at h
  split at h
  next e hdetect =>
    obtain ⟨rfl, rfl⟩ := Steps.transcript_throw.1 h
    exact ⟨[], rfl, .inl rfl, .undivided hdetect⟩
  next parts hdetect =>
    obtain ⟨rfl, rfl⟩ := Steps.transcript_pure.1 h
    exact ⟨[], rfl, .inl rfl, .markup hdetect⟩
  next c hdetect =>
    obtain ⟨calls, hlog, hplans, hending⟩ := transcript_build hdetect h
    exact ⟨calls, hlog, .inr ⟨c, hdetect, hplans⟩, hending⟩

/-- What a build gives back. -/
def resultOf : Except Failure Compiled → Except Abort (Option Compiled)
  | .ok compiled => .ok (some compiled)
  | .error (.document _) => .ok none
  | .error (.abort e) => .error e

/-- What a build tells the author of the document. -/
def reportOf : Except Failure Compiled → Option DocumentError
  | .error (.document e) => some e
  | _ => none

/-- A call fails at a place that does not fit in the document. -/
def FailsOutside (options : BuildOptions) (path : Path) (source : String) (calls : List ToolCall) :
    Prop :=
  ∃ c front p request map base? f place, Document.detect path.text source = .ok (.component c) ∧
    calls = front ++ [⟨request, .error (.failed f)⟩] ∧ (c.plan options)[front.length]? = some p ∧
    c.Asks options path source (ToolCall.outputs front) p request map base? ∧
    f.told map base? = some place ∧ ¬ place.Fits

/-- How a build goes, by its calls, what it tells at its end and what it gives back. -/
structure Protocol (options : BuildOptions) (path : Path) (source : String)
    (calls : List ToolCall) (report : Option DocumentError)
    (r : Except Abort (Option Compiled)) : Prop where
  /-- Tools are called for a component only, and as its plan says. -/
  planned : calls = [] ∨ ∃ c, Document.detect path.text source = .ok (.component c) ∧
    c.Plans options path source calls
  /-- The plan goes by the order of the sections in the document. -/
  ordered : ∀ c, Document.detect path.text source = .ok (.component c) →
    c.sections.Perm ([c.moduleScript, c.instanceScript, c.style].filterMap id) ∧
    c.sections.Pairwise fun s t => s.span.start ≤ t.span.start
  /-- No call comes behind one that fails. -/
  succeeds : ∀ call ∈ calls.dropLast, call.Succeeds
  ending : ∃ x, Ending options path source calls x ∧ report = reportOf x ∧ r = resultOf x
  outcome : (∃ compiled, r = .ok (some compiled) ∧ report = none) ∨
    (∃ e, r = .ok none ∧ report = some e) ∨
    (∃ e : InternalError, r = .error (.internal e) ∧ report = none) ∨
    r = .error .overflow ∧ report = none
  /-- The build breaks off with an internal error exactly for a call that fails by no fault of the
  document. -/
  internal_iff : (∃ e : InternalError, r = .error (.internal e)) ↔
    ∃ call ∈ calls, ∃ e, call.answer = .error e ∧ e.IsInternal call.request
  /-- The build of a document of less than 4 GiB breaks off with an overflow exactly for a place
  that a tool tells and that does not fit. -/
  overflow_iff : Text.byteLength source.toList < UInt32.size →
    (r = .error .overflow ↔ FailsOutside options path source calls ∨
      ∃ c, Document.detect path.text source = .ok (.component c) ∧
        c.Overflows options path source calls)

theorem Component.IsPlain.unique {outputs : List ToolOutput} {plain plain' : Preprocessed}
    (h : c.IsPlain options path source outputs plain)
    (h' : c.IsPlain options path source outputs plain') : plain = plain' := by
  have hmap := h.map
  have hmap' := h'.map
  split at hmap
  next hempty =>
    rw [if_pos hempty] at hmap'
    obtain ⟨code, map?⟩ := plain
    obtain ⟨code', map?'⟩ := plain'
    have hcode := String.toList_inj.1 (h.text.unique h'.text)
    exact congrArg₂ Preprocessed.mk hcode (hmap.trans hmap'.symm)
  next hempty =>
    rw [if_neg hempty] at hmap'
    exact Except.ok.inj (hmap.symm.trans hmap')

/-- What a planned call asks for follows from what the calls in front of it have made. -/
theorem Component.Asks.unique {outputs : List ToolOutput} {p : PlannedCall} {r r' : Request}
    {map map' : Option PositionMap} {base? base?' : Option LineCol}
    (h : c.Asks options path source outputs p r map base?)
    (h' : c.Asks options path source outputs p r' map' base?') :
    r = r' ∧ map = map' ∧ base? = base?' := by
  generalize houtputs : outputs = outputs' at h'
  cases h with
  | preprocess hs =>
    cases h' with
    | preprocess hs' =>
      cases hs.symm.trans hs'
      exact ⟨rfl, rfl, rfl⟩
  | compile hplain =>
    cases h' with
    | compile hplain' =>
      subst houtputs
      cases hplain.unique hplain'
      exact ⟨rfl, rfl, rfl⟩
  | instrument hplain =>
    cases h' with
    | instrument hplain' =>
      obtain ⟨rfl, hlast⟩ := List.append_inj' houtputs rfl
      cases hlast
      cases hplain.unique hplain'
      exact ⟨rfl, rfl, rfl⟩
  | transpile hinstruments hplain =>
    cases h' with
    | transpile _ hplain' =>
      obtain ⟨rfl, hlast⟩ := List.append_inj' houtputs rfl
      cases hlast
      cases hplain.unique hplain'
      exact ⟨rfl, rfl, rfl⟩
    | transpileInstrumented hinstruments' => cases hinstruments.symm.trans hinstruments'
  | transpileInstrumented hinstruments hplain =>
    cases h' with
    | transpile hinstruments' => cases hinstruments.symm.trans hinstruments'
    | transpileInstrumented _ hplain' =>
      obtain ⟨rfl, hlast⟩ := List.append_inj' houtputs rfl
      cases hlast
      cases hplain.unique hplain'
      exact ⟨rfl, rfl, rfl⟩

theorem Ending.succeeds {calls : List ToolCall} {x : Except Failure Compiled}
    (h : Ending options path source calls x) : ∀ call ∈ calls.dropLast, call.Succeeds := by
  cases h with
  | undivided | markup => exact fun _ h => absurd h List.not_mem_nil
  | unprepared _ _ _ _ _ hcalls | built _ _ hcalls =>
    exact fun call hcall => hcalls call (List.dropLast_subset _ hcall)
  | overflowed _ hoverflows =>
    exact fun call hcall => hoverflows.succeeds call (List.dropLast_subset _ hcall)
  | failed _ _ hfront =>
    rw [List.dropLast_concat]
    exact hfront

theorem ToolCall.Succeeds.not_error {call : ToolCall} (h : call.Succeeds) (e : ToolError) :
    call.answer ≠ .error e := by
  obtain ⟨output, h⟩ := h
  rw [h]
  exact nofun

theorem resultOf_eq_error_iff {x : Except Failure Compiled} {e : Abort} :
    resultOf x = .error e ↔ x = .error (.abort e) := by
  rcases x with (d | a) | compiled <;> simp [resultOf]

/-- A document that is blamed is not let off. -/
theorem Failure.Blames.ne_internal {failure : Failure} {message : String} {place : Option Spot}
    (h : failure.Blames message place) (e : InternalError) : failure ≠ .abort (.internal e) := by
  rcases h with ⟨_, -, rfl⟩ | ⟨-, rfl⟩ <;> exact nofun

theorem Failure.ofPlace_ne_internal (message : String) (place : Checked (Option ToolPosition))
    (e : InternalError) : ofPlace message place ≠ .abort (.internal e) := by
  cases place <;> exact nofun

theorem Section.prepared_ne_internal {s : Section} {k : SectionContext} {failure : Failure}
    (h : s.prepared k = .error failure) (e : InternalError) : failure ≠ .abort (.internal e) := by
  obtain ⟨_, _, -, rfl⟩ := prepared_eq_error h
  exact Failure.ofPlace_ne_internal _ _ _

theorem Ending.internal_iff {calls : List ToolCall} {x : Except Failure Compiled}
    (h : Ending options path source calls x) :
    (∃ e : InternalError, resultOf x = .error (.internal e)) ↔
      ∃ call ∈ calls, ∃ e, call.answer = .error e ∧ e.IsInternal call.request := by
  have of_succeeds {calls : List ToolCall} (hcalls : ∀ call ∈ calls, call.Succeeds) :
      ¬ ∃ call ∈ calls, ∃ e, call.answer = .error e ∧ e.IsInternal call.request :=
    fun ⟨call, hcall, e, he, _⟩ => (hcalls call hcall).not_error e he
  have of_failure {failure : Failure}
      (hfailure : ∀ e : InternalError, failure ≠ .abort (.internal e)) :
      ¬ ∃ e : InternalError, resultOf (.error failure) = .error (.internal e) :=
    fun ⟨e, he⟩ => hfailure e (Except.error.inj (resultOf_eq_error_iff.1 he))
  cases h with
  | undivided =>
    exact iff_of_false (of_failure (Failure.ofPlace_ne_internal _ _))
      (of_succeeds fun _ h => absurd h List.not_mem_nil)
  | markup => exact iff_of_false nofun (of_succeeds fun _ h => absurd h List.not_mem_nil)
  | unprepared _ _ _ hs _ hcalls =>
    exact iff_of_false (of_failure (Section.prepared_ne_internal hs)) (of_succeeds hcalls)
  | overflowed _ hoverflows => exact iff_of_false nofun (of_succeeds hoverflows.succeeds)
  | built _ _ hcalls => exact iff_of_false nofun (of_succeeds hcalls)
  | @failed c front p request map base? e failure _ _ hfront _ htells =>
    have hlast : ⟨request, .error e⟩ ∈ front ++ [⟨request, .error e⟩] :=
      List.mem_append_right _ (List.mem_singleton_self _)
    rcases htells with ⟨hinternal, i, rfl, -⟩ | ⟨hinternal, f, rfl, hblames⟩
    · exact iff_of_true ⟨i, rfl⟩ ⟨_, hlast, e, rfl, hinternal⟩
    · refine iff_of_false (of_failure hblames.ne_internal) ?_
      rintro ⟨call, hcall, g, hg, hinternal'⟩
      rcases List.mem_append.1 hcall with hcall | hcall
      · exact (hfront call hcall).not_error g hg
      · cases List.mem_singleton.1 hcall
        cases hg
        exact hinternal hinternal'

theorem Failure.Blames.eq_overflow_iff {failure : Failure} {message : String} {place : Option Spot}
    (h : failure.Blames message place) :
    failure = .abort .overflow ↔ ∃ s, place = some s ∧ ¬ s.Fits := by
  rcases h with ⟨p, rfl, rfl⟩ | ⟨hplace, rfl⟩
  · refine iff_of_false nofun ?_
    rintro ⟨s, hs, hnot⟩
    obtain ⟨q, rfl, rfl⟩ := Option.map_eq_some_iff.1 hs
    exact hnot q.spot_fits
  · exact iff_of_true rfl hplace

theorem FailsOutside.not_succeeds {calls : List ToolCall}
    (h : FailsOutside options path source calls) : ¬ ∀ call ∈ calls, call.Succeeds := by
  obtain ⟨c, front, p, request, map, base?, f, place, -, rfl, -⟩ := h
  intro hcalls
  exact (hcalls _ (List.mem_append_right _ (List.mem_singleton_self _))).not_error _ rfl

/-- What the last call has asked for is settled by the plan, and so is the place of its failure. -/
theorem failsOutside_concat_iff {front : List ToolCall} {p : PlannedCall} {request : Request}
    {map : Option PositionMap} {base? : Option LineCol} {e : ToolError}
    (hdetect : Document.detect path.text source = .ok (.component c))
    (hp : (c.plan options)[front.length]? = some p)
    (hasks : c.Asks options path source (ToolCall.outputs front) p request map base?) :
    FailsOutside options path source (front ++ [⟨request, .error e⟩]) ↔
      ∃ f place, e = .failed f ∧ f.told map base? = some place ∧ ¬ place.Fits := by
  constructor
  · rintro ⟨c', front', p', request', map', base?', f, place, hc', hcalls, hp', hasks', htold, hnot⟩
    obtain ⟨rfl, hlast⟩ := List.append_inj' hcalls rfl
    cases hlast
    cases hdetect.symm.trans hc'
    cases hp.symm.trans hp'
    obtain ⟨-, rfl, rfl⟩ := hasks.unique hasks'
    exact ⟨f, place, rfl, htold, hnot⟩
  · rintro ⟨f, place, rfl, htold, hnot⟩
    exact ⟨c, front, p, request, map, base?, f, place, hdetect, rfl, hp, hasks, htold, hnot⟩

theorem Component.Overflows.length_lt {calls : List ToolCall}
    (h : c.Overflows options path source calls) : calls.length < (c.plan options).length := by
  have hplan := c.plan_length options
  rw [← h.length] at hplan
  split at hplan <;> omega

theorem Ending.overflow_iff {calls : List ToolCall} {x : Except Failure Compiled}
    (h : Ending options path source calls x)
    (hsize : Text.byteLength source.toList < UInt32.size) :
    resultOf x = .error .overflow ↔ FailsOutside options path source calls ∨
      ∃ c, Document.detect path.text source = .ok (.component c) ∧
        c.Overflows options path source calls := by
  have no_component {y : Except ScanError Document} (hy : Document.detect path.text source = y)
      (hne : ∀ c, y ≠ .ok (.component c)) :
      ¬ (FailsOutside options path source calls ∨
        ∃ c, Document.detect path.text source = .ok (.component c) ∧
          c.Overflows options path source calls) := by
    rintro (⟨c, -, -, -, -, -, -, -, hc, -⟩ | ⟨c, hc, -⟩) <;> exact hne c (hy.symm.trans hc)
  rw [resultOf_eq_error_iff]
  cases h with
  | @undivided e hdetect =>
    refine iff_of_false ?_ (no_component hdetect nofun)
    obtain ⟨-, q, -, -, htold⟩ := ScanError.toFailure_of_tagAt (detect_error hdetect) hsize
    rw [htold]
    exact nofun
  | markup hdetect => exact iff_of_false nofun (no_component hdetect nofun)
  | @unprepared c front rest s calls failure hdetect hsections _ hs _ hcalls =>
    have hmem : s ∈ c.sections := by
      rw [hsections]
      exact List.mem_append_right _ List.mem_cons_self
    obtain ⟨e, rfl⟩ := ((detect_placed hdetect).1 s hmem).exists_document hsize hs
    refine iff_of_false nofun ?_
    rintro (hout | ⟨c', hc', hoverflows⟩)
    · exact hout.not_succeeds hcalls
    · cases hdetect.symm.trans hc'
      obtain ⟨o, ho⟩ := hoverflows.prepared s hmem
      cases ho.symm.trans hs
  | overflowed hdetect hoverflows => exact iff_of_true rfl (.inr ⟨_, hdetect, hoverflows⟩)
  | @built c calls output map? hdetect hlength hcalls _ =>
    refine iff_of_false nofun ?_
    rintro (hout | ⟨c', hc', hoverflows⟩)
    · exact hout.not_succeeds hcalls
    · cases hdetect.symm.trans hc'
      exact absurd hlength hoverflows.length_lt.ne
  | @failed c front p request map base? e failure hdetect hp hfront hasks htells =>
    have hsucceeds : ¬ ∃ c', Document.detect path.text source = .ok (.component c') ∧
        c'.Overflows options path source (front ++ [⟨request, .error e⟩]) := by
      rintro ⟨c', -, hoverflows⟩
      exact (hoverflows.succeeds _ (List.mem_append_right _
        (List.mem_singleton_self _))).not_error e rfl
    rw [or_iff_left hsucceeds, failsOutside_concat_iff hdetect hp hasks, Except.error.injEq]
    rcases htells with ⟨hinternal, i, rfl, -⟩ | ⟨-, f, rfl, hblames⟩
    · refine iff_of_false nofun ?_
      rintro ⟨f, place, rfl, htold, -⟩
      rw [ToolFailure.told_of_start_none hinternal.1] at htold
      cases htold
    · rw [hblames.eq_overflow_iff]
      simp only [ToolError.failed.injEq, exists_and_left, exists_eq_left']

end

theorem transcript_buildDocument {options : BuildOptions} {path : Path} {source : String}
    {log : List (Exchange Step Step.Answer)} {r : Except Abort (Option Compiled)}
    (h : (buildDocument options path source).Transcript log r) :
    ∃ calls x, log = calls.flatMap (ToolCall.exchanges path) ++
        (reportOf x).toList.map (fun e => ⟨.error path e, ()⟩) ∧ r = resultOf x ∧
      (calls = [] ∨ ∃ c, Document.detect path.text source = .ok (.component c) ∧
        c.Plans options path source calls) ∧
      Ending options path source calls x := by
  obtain ⟨x, front, back, rfl, hstages, hback⟩ := Dialogue.transcript_bind.1 h
  obtain ⟨calls, rfl, hplanned, hending⟩ := transcript_buildStages hstages
  have hback : back = (reportOf x).toList.map (fun e => ⟨.error path e, ()⟩) ∧ r = resultOf x := by
    rcases x with (e | e) | compiled
    · cases hback with
      | ask hrest =>
        obtain ⟨rfl, rfl⟩ := Dialogue.transcript_done.1 hrest
        exact ⟨rfl, rfl⟩
    · exact Dialogue.transcript_done.1 hback
    · exact Dialogue.transcript_done.1 hback
  obtain ⟨rfl, rfl⟩ := hback
  exact ⟨calls, x, rfl, rfl, hplanned, hending⟩

end ComponentBuild
