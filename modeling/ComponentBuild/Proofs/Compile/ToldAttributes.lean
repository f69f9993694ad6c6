import ComponentBuild.Proofs.Compile.Protocol
import ComponentBuild.Proofs.Lists

namespace ComponentBuild

/-- The value of an attribute as tools are told it. -/
def Attribute.told (a : Attribute) : String := a.value.getD "true"

namespace Section

def lastAttribute? (s : Section) (name : String) : Option Attribute :=
  s.attributes.reverse.find? (·.name == name)

theorem lookup_putAttribute (name value : String) (values : List (String × String)) (n : String) :
    (putAttribute name value values).lookup n =
      if name = n then some value else values.lookup n := by
  induction values with
  | nil => rw [putAttribute, lookup_cons_eq]
  | cons p values ih =>
    obtain ⟨m, v⟩ := p
    rw [putAttribute, lookup_cons_eq]
    by_cases hm : m = name
    · rw [if_pos hm, lookup_cons_eq, hm]
      split <;> rfl
    · rw [if_neg hm, lookup_cons_eq, ih]
      by_cases hn : m = n
      · rw [if_pos hn, if_pos hn, if_neg fun h => hm (hn.trans h.symm)]
      · rw [if_neg hn, if_neg hn]

theorem names_putAttribute (name value : String) (values : List (String × String)) :
    (putAttribute name value values).map Prod.fst =
      if (values.map Prod.fst).contains name then values.map Prod.fst
      else values.map Prod.fst ++ [name] := by
  induction values with
  | nil => rfl
  | cons p values ih =>
    obtain ⟨m, v⟩ := p
    rw [putAttribute]
    by_cases hm : m = name
    · simp [hm]
    · rw [if_neg hm, List.map_cons, ih, List.map_cons, List.contains_cons,
        beq_false_of_ne (Ne.symm hm), Bool.false_or]
      split <;> rfl

/-- Attributes as they are put one behind the other. -/
def collect (as : List Attribute) : List (String × String) :=
  as.foldl (fun values a => putAttribute a.name (a.value.getD "true") values) []

theorem collect_concat (as : List Attribute) (a : Attribute) :
    collect (as ++ [a]) = putAttribute a.name a.told (collect as) := by
  rw [collect, List.foldl_append]
  rfl

theorem lookup_collect (as : List Attribute) (name : String) :
    (collect as).lookup name = (as.reverse.find? (·.name == name)).map Attribute.told := by
  induction as using List.reverseRecOn with
  | nil => rfl
  | append_singleton as a ih =>
    rw [collect_concat, lookup_putAttribute, ih, List.reverse_concat, List.find?_cons]
    by_cases h : a.name = name
    · simp [h]
    · simp [h, beq_false_of_ne h]

theorem names_collect (as : List Attribute) :
    (collect as).map Prod.fst = (as.map Attribute.name).eraseDups := by
  induction as using List.reverseRecOn with
  | nil => rfl
  | append_singleton as a ih =>
    rw [collect_concat, names_putAttribute, ih, List.map_append, List.map_singleton,
      eraseDups_concat]
    simp only [List.contains_iff_mem, List.mem_eraseDups]

theorem mem_names_collect {as : List Attribute} {name : String} :
    name ∈ (collect as).map Prod.fst ↔ (as.find? (·.name == name)).isSome = true := by
  rw [names_collect, List.mem_eraseDups, List.mem_map, List.find?_isSome]
  simp only [beq_iff_eq]

theorem find?_reverse_of_nodup {as : List Attribute} (h : (as.map Attribute.name).Nodup)
    (name : String) : as.reverse.find? (·.name == name) = as.find? (·.name == name) := by
  induction as with
  | nil => rfl
  | cons a as ih =>
    rw [List.map_cons, List.nodup_cons] at h
    rw [List.reverse_cons, List.find?_append, ih h.2, List.find?_singleton, List.find?_cons]
    cases ha : a.name == name with
    | false => rw [if_neg Bool.false_ne_true, Option.or_none]
    | true =>
      have hnone : as.find? (·.name == name) = none := by
        refine List.find?_eq_none.2 fun b hb hname => h.1 (List.mem_map.2 ⟨b, hb, ?_⟩)
        rw [beq_iff_eq.1 hname, beq_iff_eq.1 ha]
      rw [hnone, if_pos rfl, Option.none_or]

/-- What the tool of a section is told of its attributes. -/
structure Told (s : Section) (values : List (String × String)) : Prop where
  /-- Each name is told once, in the place of the first attribute of that name. -/
  names : values.map Prod.fst = (s.attributes.map Attribute.name).eraseDups
  mem_iff : ∀ name, name ∈ values.map Prod.fst ↔ (s.attribute? name).isSome = true
  last : ∀ name, values.lookup name = (s.lastAttribute? name).map Attribute.told
  /-- The tool is told what the section is asked for exactly if the last attribute of the name says
  the same as the first. -/
  agrees_iff : ∀ name, values.lookup name = (s.attribute? name).map Attribute.told ↔
    ∀ first ∈ s.attribute? name, ∀ last ∈ s.lastAttribute? name, last.told = first.told
  agrees : (s.attributes.map Attribute.name).Nodup →
    ∀ name, values.lookup name = (s.attribute? name).map Attribute.told
  /-- Without a repeated name the language of the section is the one that its tool is told. -/
  language : (s.attributes.map Attribute.name).Nodup → ∀ language, s.lang? = some language →
    values.lookup "lang" = some language ∨
      ∃ type, values.lookup "type" = some type ∧ mediaSubtype type = language

theorem isSome_lastAttribute? (s : Section) (name : String) :
    (s.lastAttribute? name).isSome = (s.attribute? name).isSome := by
  rw [Bool.eq_iff_iff, lastAttribute?, attribute?, List.find?_isSome, List.find?_isSome]
  simp only [List.mem_reverse]

theorem told_of_attributeValue? {s : Section} {name value : String}
    (h : s.attributeValue? name = some value) :
    (s.attribute? name).map Attribute.told = some value := by
  obtain ⟨a, ha, hvalue⟩ := Option.bind_eq_some_iff.1 h
  rw [ha, Option.map_some, Attribute.told, hvalue]
  rfl

theorem told_attributeValues (s : Section) : s.Told s.attributeValues := by
  have hlast (name : String) :
      s.attributeValues.lookup name = (s.lastAttribute? name).map Attribute.told :=
    lookup_collect s.attributes name
  have hagrees (hnodup : (s.attributes.map Attribute.name).Nodup) (name : String) :
      s.attributeValues.lookup name = (s.attribute? name).map Attribute.told := by
    rw [hlast, lastAttribute?, find?_reverse_of_nodup hnodup]
    rfl
  refine ⟨names_collect s.attributes, fun name => mem_names_collect, hlast, ?_, hagrees, ?_⟩
  · intro name
    rw [hlast]
    have hsome := s.isSome_lastAttribute? name
    cases hfirst : s.attribute? name with
    | none =>
      rw [hfirst, Option.isSome_none, Option.isSome_eq_false_iff, Option.isNone_iff_eq_none] at hsome
      rw [hsome]
      exact iff_of_true rfl fun _ h => nomatch h
    | some first =>
      rw [hfirst] at hsome
      obtain ⟨last, hlast⟩ := Option.isSome_iff_exists.1 hsome
      rw [hlast]
      simp only [Option.map_some, Option.some.injEq, Option.mem_def, forall_eq']
  · intro hnodup language hlanguage
    unfold lang? at hlanguage
    split at hlanguage
    next lang hlang =>
      rw [← hlanguage]
      exact .inl ((hagrees hnodup "lang").trans (told_of_attributeValue? hlang))
    next =>
      obtain ⟨type, htype, hsubtype⟩ := Option.map_eq_some_iff.1 hlanguage
      exact .inr ⟨type, (hagrees hnodup "type").trans (told_of_attributeValue? htype), hsubtype⟩

end Section

theorem mem_exchanges {document : Path} {call : ToolCall} {x : Exchange Step Step.Answer}
    {request : Request} (hx : x ∈ call.exchanges document) (hquestion : x.question = .call request) :
    call.request = request := by
  rcases List.mem_cons.1 hx with rfl | hx
  · exact Step.call.inj hquestion
  · obtain ⟨file, -, rfl⟩ := List.mem_map.1 hx
    cases hquestion

/-- A tool for sections is asked about a section of the document. -/
theorem Component.Plans.preprocess {c : Component} {options : BuildOptions} {path : Path}
    {source : String} {calls : List ToolCall} (h : c.Plans options path source calls)
    {call : ToolCall} (hcall : call ∈ calls) {language : SectionLanguage} {content : String}
    {attributes : List (String × String)} {filename : String}
    (hrequest : call.request = .preprocess language content attributes filename) :
    ∃ s ∈ c.sections, language = s.language ∧ attributes = s.attributeValues ∧
      filename = path.text := by
  obtain ⟨n, hn⟩ := List.mem_iff_getElem?.1 hcall
  obtain ⟨p, _, _, hp, hasks⟩ := h n call hn
  rw [hrequest] at hasks
  generalize ToolCall.outputs (calls.take n) = outputs at hasks
  cases hasks with
  | @preprocess _ s =>
    have hmem := List.mem_of_getElem? hp
    unfold Component.plan at hmem
    have hs : s ∈ Section.withTools options c.sections := by
      rcases List.mem_append.1 hmem with hmem | hmem
      · obtain ⟨t, ht, heq⟩ := List.mem_map.1 hmem
        cases heq
        exact ht
      · split at hmem <;> simp at hmem
    exact ⟨s, (List.mem_filter.1 hs).1, rfl, rfl, rfl⟩

/-- The tool of a section is told each of its attributes once, with what the last attribute of that
name says, while the section itself, and so the choice of the tool, goes by the first one. Both are
the same where no name is repeated. Whatever tools answer, all that a tool is told of attributes in
the course of a build is this. -/
theorem attributes_told (options : BuildOptions) (path : Path) (source : String)
    (log : List (Exchange Step Step.Answer)) (r : Except Abort (Option Compiled)) :
    (∀ s : Section, s.Told s.attributeValues) ∧
    ((buildDocument options path source).Transcript log r →
      ∀ x ∈ log, ∀ language content attributes filename,
        x.question = .call (.preprocess language content attributes filename) →
        ∃ c, Document.detect path.text source = .ok (.component c) ∧
          ∃ s ∈ c.sections, language = s.language ∧ s.Told attributes ∧ filename = path.text) := by
  refine ⟨Section.told_attributeValues, ?_⟩
  intro h x hx language content attributes filename hquestion
  obtain ⟨calls, result, rfl, -, hplanned, -⟩ := transcript_buildDocument h
  rcases List.mem_append.1 hx with hx | hx
  · obtain ⟨call, hcall, hx⟩ := List.mem_flatMap.1 hx
    rcases hplanned with rfl | ⟨c, hdetect, hplans⟩
    · cases hcall
    · obtain ⟨s, hs, hlanguage, hattributes, hfilename⟩ :=
        hplans.preprocess hcall (mem_exchanges hx hquestion)
      exact ⟨c, hdetect, s, hs, hlanguage, hattributes ▸ s.told_attributeValues, hfilename⟩
  · obtain ⟨e, -, rfl⟩ := List.mem_map.1 hx
    cases hquestion

/-- Surroundings whose tools all make the same. -/
def sameAnswer (q : Step) : q.Answer :=
  Step.casesOn q (fun _ => (.ok ⟨"c", none, []⟩ : ToolAnswer)) (fun _ _ => ()) (fun _ _ => ())

/-- A style with two attributes in a document of its own. -/
theorem attributes_told_of_style :
    ∃ log r, (buildDocument {} ⟨"A.svelte"⟩ "<style lang=scss a>b</style>").Transcript log r ∧
      ∃ x ∈ log, ∃ attributes,
        x.question = .call (.preprocess (.style .scss) "b" attributes "A.svelte") ∧
        ∃ c, Document.detect "A.svelte" "<style lang=scss a>b</style>" = .ok (.component c) ∧
          ∃ s ∈ c.sections, .style .scss = s.language ∧ s.Told attributes := by
  have hdetect : Document.detect "A.svelte" "<style lang=scss a>b</style>" =
      .ok (.component ⟨none, none, some ⟨.style, ⟨0, 28⟩, ⟨19, 20⟩, "b",
        [⟨"lang", some "scss", ⟨7, 16⟩⟩, ⟨"a", none, ⟨17, 18⟩⟩]⟩⟩) := by
    decide +kernel
  have hlog := Dialogue.transcript_log sameAnswer
    (buildDocument {} ⟨"A.svelte"⟩ "<style lang=scss a>b</style>")
  have hcall : ⟨.call (.preprocess (.style .scss) "b" [("lang", "scss"), ("a", "true")] "A.svelte"),
      (.ok ⟨"c", none, []⟩ : ToolAnswer)⟩ ∈
      (buildDocument {} ⟨"A.svelte"⟩ "<style lang=scss a>b</style>").log sameAnswer := by
    unfold buildDocument buildStages
    rw [hdetect]
    exact List.mem_cons_self
  obtain ⟨c, hc, s, hs, hlanguage, htold, -⟩ :=
    (attributes_told _ _ _ _ _).2 hlog _ hcall _ _ _ _ rfl
  exact ⟨_, _, hlog, _, hcall, _, rfl, c, hc, s, hs, hlanguage, htold⟩

/-- The tool for the first `lang` of a style is told the last one. -/
theorem attributes_told_last :
    ∃ c s log r, Document.detect "A.svelte" "<style lang=\"scss\" lang=\"less\">a</style>" =
        .ok (.component c) ∧ c.sections = [s] ∧ s.attributeValue? "lang" = some "scss" ∧
      (buildDocument {} ⟨"A.svelte"⟩ "<style lang=\"scss\" lang=\"less\">a</style>").Transcript
        log r ∧
      ∃ x ∈ log,
        x.question = .call (.preprocess (.style .scss) "a" [("lang", "less")] "A.svelte") := by
  have hdetect : Document.detect "A.svelte" "<style lang=\"scss\" lang=\"less\">a</style>" =
      .ok (.component ⟨none, none, some ⟨.style, ⟨0, 40⟩, ⟨31, 32⟩, "a",
        [⟨"lang", some "scss", ⟨7, 18⟩⟩, ⟨"lang", some "less", ⟨19, 30⟩⟩]⟩⟩) := by
    decide +kernel
  have hlog := Dialogue.transcript_log sameAnswer
    (buildDocument {} ⟨"A.svelte"⟩ "<style lang=\"scss\" lang=\"less\">a</style>")
  have hcall : ⟨.call (.preprocess (.style .scss) "a" [("lang", "less")] "A.svelte"),
      (.ok ⟨"c", none, []⟩ : ToolAnswer)⟩ ∈
      (buildDocument {} ⟨"A.svelte"⟩ "<style lang=\"scss\" lang=\"less\">a</style>").log
        sameAnswer := by
    unfold buildDocument buildStages
    rw [hdetect]
    exact List.mem_cons_self
  exact ⟨_, _, _, _, hdetect, rfl, rfl, hlog, _, hcall, rfl⟩

end ComponentBuild
