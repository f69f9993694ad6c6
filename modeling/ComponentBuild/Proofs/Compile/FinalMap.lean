import ComponentBuild.Compile.Run
import ComponentBuild.Proofs.Compile.Preprocess
import ComponentBuild.Proofs.Position.Compose
import ComponentBuild.Proofs.Transcript

namespace ComponentBuild

theorem preprocess_map_sources {c : Component} {options : BuildOptions} {path : Path}
    {source : String} {log : List (Exchange Step Step.Answer)} {plain : Preprocessed}
    (h : Steps.Transcript (c.preprocess options path source) log (.ok plain))
    {m : PositionMap} (hm : plain.map? = some m) : m.sources = [⟨path.text, some source⟩] := by
  obtain ⟨outputs, _, back, -, -, h⟩ := Steps.transcript_bind_ok.1 h
  split at h
  · obtain ⟨-, h⟩ := Steps.transcript_pure.1 h
    cases h
    cases hm
  · obtain ⟨-, h⟩ := Steps.transcript_checked.1 h
    cases hsplice : Preprocessed.splice ⟨options, path, source, .ofText source⟩ outputs with
    | error e =>
      rw [hsplice] at h
      cases h
    | ok spliced =>
      rw [hsplice] at h
      obtain rfl := Except.ok.inj h
      obtain ⟨n, hn, hs⟩ := splice_map_sources hsplice
      cases hn.symm.trans hm
      exact hs

/-- The exchanges of a component that is built: those of preprocessing, the compiler's, those of
instrumentation and at last the transpiler's. -/
theorem transcript_build_ok {c : Component} {options : BuildOptions} {path : Path}
    {source : String} {log : List (Exchange Step Step.Answer)} {result : Compiled}
    (h : Steps.Transcript (c.build options path source) log (.ok result)) :
    ∃ plain compiled js transpiled front middle,
      log = front ++
        ⟨.call (.compile plain.code (.ofDocument path options)), (.ok compiled : ToolAnswer)⟩ ::
          (middle ++ [⟨.call (.transpile js path.text), (.ok transpiled : ToolAnswer)⟩]) ∧
      Steps.Transcript (c.preprocess options path source) front (.ok plain) ∧
      Steps.Transcript (instrument options (.ofDocument path options) plain.code compiled.code
        (PositionMap.composeOptional compiled.map? plain.map?)) middle (.ok js) ∧
      result = .component transpiled.code (PositionMap.composeOptional transpiled.map?
        (PositionMap.composeOptional compiled.map? plain.map?)) := by
  obtain ⟨plain, front, _, rfl, hplain, h⟩ := Steps.transcript_bind_ok.1 h
  obtain ⟨compiled, _, _, rfl, hcompiled, h⟩ := Steps.transcript_bind_ok.1 h
  obtain ⟨js, middle, _, rfl, hjs, h⟩ := Steps.transcript_bind_ok.1 h
  obtain ⟨transpiled, _, _, rfl, htranspiled, h⟩ := Steps.transcript_bind_ok.1 h
  obtain ⟨rfl, hresult⟩ := Steps.transcript_pure.1 h
  cases Steps.transcript_call_ok.1 hcompiled
  cases Steps.transcript_call_ok.1 htranspiled
  refine ⟨plain, compiled, js, transpiled, front, middle, ?_, hplain, hjs, Except.ok.inj hresult⟩
  rw [List.append_nil, List.singleton_append]

/-- A document becomes a component only through the stages of one. -/
theorem transcript_buildDocument_component {options : BuildOptions} {path : Path}
    {source code : String} {map? : Option PositionMap} {log : List (Exchange Step Step.Answer)}
    (h : (buildDocument options path source).Transcript log
      (.ok (some (.component code map?)))) :
    ∃ c, Document.detect path.text source = .ok (.component c) ∧
      Steps.Transcript (c.build options path source) log (.ok (.component code map?)) := by
  obtain ⟨r, front, back, rfl, hfront, hback⟩ := Dialogue.transcript_bind.1 h
  rcases r with (e | e) | compiled
  · -- The error is told, and then there is no result.
    obtain ⟨_, _, _, -, -, hback⟩ := Dialogue.transcript_bind.1 hback
    obtain ⟨-, hback⟩ := Dialogue.transcript_done.1 hback
    cases hback
  · obtain ⟨-, hback⟩ := Dialogue.transcript_done.1 hback
    cases hback
  · obtain ⟨rfl, hback⟩ := Dialogue.transcript_done.1 hback
    cases hback
    rw [List.append_nil]
    change Steps.Transcript (buildStages options path source) front _ at hfront
    unfold buildStages at hfront
    split at hfront
    next e _ =>
      obtain ⟨-, hfront⟩ := Steps.transcript_throw.1 hfront
      cases hfront
    next parts _ =>
      obtain ⟨-, hfront⟩ := Steps.transcript_pure.1 hfront
      cases hfront
    next c hc => exact ⟨c, hc, hfront⟩

/-- A transcript is that of the stages of a component: preprocessing, the compiler's call,
instrumentation and at last the transpiler's call. -/
def StagesOf (options : BuildOptions) (path : Path) (source : String)
    (log : List (Exchange Step Step.Answer)) (plain : Preprocessed)
    (compiled transpiled : ToolOutput) : Prop :=
  ∃ c front middle js, Document.detect path.text source = .ok (.component c) ∧
    Steps.Transcript (c.preprocess options path source) front (.ok plain) ∧
    Steps.Transcript (instrument options (.ofDocument path options) plain.code compiled.code
      (PositionMap.composeOptional compiled.map? plain.map?)) middle (.ok js) ∧
    log = front ++
      ⟨.call (.compile plain.code (.ofDocument path options)), (.ok compiled : ToolAnswer)⟩ ::
        (middle ++ [⟨.call (.transpile js path.text), (.ok transpiled : ToolAnswer)⟩])

/-- How the final map goes with the maps of the stages. It is missing only where all of them are,
and finds what can be followed through them. Once a section has changed, the document is its one
source, with its text, and it names no position there that preprocessing does not name. -/
structure FinalMap (path : Path) (source : String) (plain : Preprocessed)
    (compiled transpiled : ToolOutput) (map? : Option PositionMap) : Prop where
  eq_none_iff : map? = none ↔
    plain.map? = none ∧ compiled.map? = none ∧ transpiled.map? = none
  lookup : ∀ p r, PositionMap.chain
      (transpiled.map?.toList ++ (compiled.map?.toList ++ plain.map?.toList)) p = some r →
    ∃ m, map? = some m ∧ m.lookup p = some r
  sources : ∀ first, plain.map? = some first →
    ∃ m, map? = some m ∧ m.sources = [⟨path.text, some source⟩] ∧ m.originals ⊆ first.originals

theorem finalMap_composeOptional {path : Path} {source : String} {plain : Preprocessed}
    (hplain : ∀ m, plain.map? = some m → m.sources = [⟨path.text, some source⟩])
    (compiled transpiled : ToolOutput) :
    FinalMap path source plain compiled transpiled
      (PositionMap.composeOptional transpiled.map?
        (PositionMap.composeOptional compiled.map? plain.map?)) := by
  have hall := ((PositionMap.AnswersFor.ofOption plain.map?).compose compiled.map?).compose
    transpiled.map?
  refine ⟨?_, hall.lookup, fun first hfirst => ?_⟩
  · rw [hall.eq_none_iff]
    simp only [List.append_eq_nil_iff, Option.toList_eq_nil_iff]
    tauto
  · obtain ⟨mid, hmid, hs, ho⟩ := PositionMap.composeOptional_singleton compiled.map?
      (hplain first hfirst) (List.Subset.refl _)
    rw [hfirst, hmid]
    exact PositionMap.composeOptional_singleton transpiled.map? hs ho

/-- However tools answer, a document that becomes a component has gone through the stages of one,
and its map goes with their maps. -/
theorem component_final_map (options : BuildOptions) (path : Path) (source code : String)
    (map? : Option PositionMap) (log : List (Exchange Step Step.Answer))
    (h : (buildDocument options path source).Transcript log
      (.ok (some (.component code map?)))) :
    ∃ plain compiled transpiled, StagesOf options path source log plain compiled transpiled ∧
      code = transpiled.code ∧ FinalMap path source plain compiled transpiled map? := by
  obtain ⟨c, hc, hbuild⟩ := transcript_buildDocument_component h
  obtain ⟨plain, compiled, js, transpiled, front, middle, hlog, hplain, hjs, hresult⟩ :=
    transcript_build_ok hbuild
  obtain ⟨rfl, rfl⟩ := Compiled.component.inj hresult
  exact ⟨plain, compiled, transpiled, ⟨c, front, middle, js, hc, hplain, hjs, hlog⟩, rfl,
    finalMap_composeOptional (fun _ => preprocess_map_sources hplain) compiled transpiled⟩

/-- The map of code that starts with text from a place of a source. -/
def startMap (source : String) (p : LineCol) : PositionMap :=
  (PositionMap.empty.addSource source).1.add ⟨0, 0⟩ 0 p

/-- Tools for a style, of which those behind preprocessing tell where their code starts. -/
def startTool : Request → ToolAnswer
  | .compile .. => .ok ⟨"b", some (startMap "plain" ⟨0, 17⟩), []⟩
  | .transpile .. => .ok ⟨"c", some (startMap "compiled" ⟨0, 0⟩), []⟩
  | _ => .ok ⟨"d", none, []⟩

def startAnswer (q : Step) : q.Answer :=
  Step.casesOn q startTool (fun _ _ => ()) (fun _ _ => ())

/-- A style in another language whose code is found through three maps. -/
theorem component_final_map_of_style :
    ∃ log m, (buildDocument {} ⟨"A.svelte"⟩ "<style lang=less>a</style>").Transcript log
        (.ok (some (.component "c" (some m)))) ∧
      ∃ plain compiled transpiled,
        StagesOf {} ⟨"A.svelte"⟩ "<style lang=less>a</style>" log plain compiled transpiled ∧
        compiled.map? = some (startMap "plain" ⟨0, 17⟩) ∧
        transpiled.map? = some (startMap "compiled" ⟨0, 0⟩) ∧
        FinalMap ⟨"A.svelte"⟩ "<style lang=less>a</style>" plain compiled transpiled (some m) ∧
        m.sources = [⟨"A.svelte", some "<style lang=less>a</style>"⟩] ∧
        m.lookup ⟨0, 0⟩ = some ⟨"A.svelte", ⟨0, 17⟩⟩ := by
  let built := buildDocument {} ⟨"A.svelte"⟩ "<style lang=less>a</style>"
  have hd : Document.detect "A.svelte" "<style lang=less>a</style>" = .ok (.component ⟨none, none,
      some ⟨.style, ⟨0, 26⟩, ⟨17, 18⟩, "a", [⟨"lang", some "less", ⟨7, 16⟩⟩]⟩⟩) := by
    decide +kernel
  let m : PositionMap := ⟨none, [⟨"A.svelte", some "<style lang=less>a</style>"⟩],
    [⟨⟨0, 0⟩, some ⟨0, ⟨0, 17⟩⟩⟩], List.nodup_singleton _, List.pairwise_singleton _ _⟩
  have hrun : built.run (m := Id) startAnswer = .ok (some (.component "c" (some m))) := by
    unfold built buildDocument buildStages
    rw [hd]
    rfl
  have hlookup : m.lookup ⟨0, 0⟩ = some ⟨"A.svelte", ⟨0, 17⟩⟩ := rfl
  have h : built.Transcript (built.log startAnswer) _ :=
    hrun ▸ Dialogue.transcript_log startAnswer _
  obtain ⟨plain, compiled, transpiled, hstages, -, hmap⟩ := component_final_map _ _ _ _ _ _ h
  have hanswer {r : Request} {a : ToolAnswer}
      (hr : (⟨.call r, a⟩ : Exchange Step Step.Answer) ∈ built.log startAnswer) :
      a = startTool r := Dialogue.answer_of_mem_log hr
  obtain ⟨-, front, middle, js, -, -, -, hlog⟩ := id hstages
  obtain rfl : compiled = ⟨"b", some (startMap "plain" ⟨0, 17⟩), []⟩ :=
    Except.ok.inj (hanswer (hlog ▸ List.mem_append_right _ List.mem_cons_self))
  obtain rfl : transpiled = ⟨"c", some (startMap "compiled" ⟨0, 0⟩), []⟩ :=
    Except.ok.inj (hanswer (hlog ▸ List.mem_append_right _ (List.mem_cons_of_mem _
      (List.mem_append_right _ (List.mem_singleton_self _)))))
  -- Without a map of the preprocessed document the final one would lead into that.
  obtain ⟨first, hfirst⟩ : ∃ first, plain.map? = some first := by
    refine Option.ne_none_iff_exists'.1 fun hnone => ?_
    obtain ⟨_, hm, hplain⟩ := hmap.lookup ⟨0, 0⟩ ⟨"plain", ⟨0, 17⟩⟩ (by
      rw [hnone]
      decide +kernel)
    cases hm
    exact absurd (hlookup.symm.trans hplain) (by decide)
  obtain ⟨_, hm, hsources, -⟩ := hmap.sources first hfirst
  cases hm
  exact ⟨_, m, h, plain, _, _, hstages, rfl, rfl, hmap, hsources, hlookup⟩

end ComponentBuild
