import ComponentBuild.Position.Compose
import ComponentBuild.Proofs.Position.Lookup

namespace ComponentBuild.PositionMap

/-- A position followed through maps one behind the other, that of the last stage first. -/
def chain : List PositionMap → LineCol → Option Resolved
  | [], _ => none
  | [m], p => m.lookup p
  | m :: n :: ms, p => (m.lookup p).bind fun mid => chain (n :: ms) mid.position

theorem insertMapping_append {x : Mapping} {xs : List Mapping}
    (h : ∀ y ∈ xs, y.generated ≤ x.generated) : insertMapping x xs = xs ++ [x] := by
  induction xs with
  | nil => rfl
  | cons y ys ih =>
    obtain ⟨hy, hys⟩ := List.forall_mem_cons.1 h
    rw [insertMapping, if_pos hy, ih hys, List.cons_append]

theorem resolve_mono {m n : PositionMap} {x : Mapping} {r : Resolved}
    (h : m.sources <+: n.sources) (hr : m.resolve x = some r) : n.resolve x = some r := by
  obtain ⟨o, ho, hn⟩ := Option.bind_eq_some_iff.1 hr
  obtain ⟨name, hname, rfl⟩ := Option.map_eq_some_iff.1 hn
  obtain ⟨s, hs, rfl⟩ := Option.map_eq_some_iff.1 hname
  obtain ⟨rest, hrest⟩ := h
  have hlt : o.source < m.sources.length := (List.getElem?_eq_some_iff.1 hs).1
  simp only [resolve, sourceName?, ho, Option.bind_some, ← hrest,
    List.getElem?_append_left hlt, hs, Option.map_some]

theorem addSource_extends (m : PositionMap) (name : String) :
    m.sources <+: (m.addSource name).1.sources := by
  rcases m.addSource_sources name with h | h
  · exact ⟨[], by rw [h, List.append_nil]⟩
  · exact ⟨_, h.symm⟩

theorem composeMapping_of_none {earlier m : PositionMap} {x : Mapping}
    (h : earlier.follow x = none) : composeMapping earlier m x = m := by
  simp only [composeMapping, h]

/-- A mapping that can be followed comes behind all that are not later, with the answer of the
earlier map. -/
theorem composeMapping_of_some {earlier m : PositionMap} {x : Mapping} {r : Resolved}
    (h : earlier.follow x = some r) (hm : ∀ y ∈ m.mappings, y.generated ≤ x.generated) :
    ∃ y, (composeMapping earlier m x).mappings = m.mappings ++ [y] ∧
      y.generated = x.generated ∧ (composeMapping earlier m x).resolve y = some r ∧
      m.sources <+: (composeMapping earlier m x).sources := by
  simp only [composeMapping, h, add, addMapping]
  refine ⟨⟨x.generated, some ⟨(m.addSource r.source).2, r.position⟩⟩, ?_, rfl, ?_, ?_⟩
  · rw [addSource_mappings]
    exact insertMapping_append hm
  · have hname := m.sourceName?_addSource r.source
    simp only [sourceName?] at hname
    simp only [resolve, sourceName?, Option.bind_some, hname, Option.map_some]
  · exact m.addSource_extends r.source

/-- A mapping of the later stage and the mapping of `m` that stands for it. -/
def StandsFor (earlier m : PositionMap) (x y : Mapping) : Prop :=
  y.generated = x.generated ∧ ∃ r, earlier.follow x = some r ∧ m.resolve y = some r

theorem foldl_composeMapping (earlier : PositionMap) {xs : List Mapping} {m : PositionMap}
    (hx : xs.Pairwise fun a b => a.generated ≤ b.generated)
    (hm : ∀ y ∈ m.mappings, ∀ x ∈ xs, y.generated ≤ x.generated) :
    m.sources <+: (xs.foldl (composeMapping earlier) m).sources ∧
      ∃ ys, (xs.foldl (composeMapping earlier) m).mappings = m.mappings ++ ys ∧
        List.Forall₂ (StandsFor earlier (xs.foldl (composeMapping earlier) m))
          (xs.filter fun x => (earlier.follow x).isSome) ys := by
  induction xs generalizing m with
  | nil => exact ⟨List.prefix_rfl, [], by simp, .nil⟩
  | cons x xs ih =>
    obtain ⟨hxs, hrest⟩ := List.pairwise_cons.1 hx
    cases hf : earlier.follow x with
    | none =>
      simp only [List.foldl_cons, composeMapping_of_none hf, List.filter_cons, hf]
      exact ih hrest fun y hy z hz => hm y hy z (List.mem_cons_of_mem _ hz)
    | some r =>
      obtain ⟨y, hy, hyx, hyr, hpre⟩ :=
        composeMapping_of_some hf fun y hy => hm y hy x (List.mem_cons_self ..)
      have hnext : ∀ z ∈ (composeMapping earlier m x).mappings, ∀ w ∈ xs,
          z.generated ≤ w.generated := by
        intro z hz w hw
        rw [hy, List.mem_append, List.mem_singleton] at hz
        rcases hz with hz | rfl
        · exact hm z hz w (List.mem_cons_of_mem _ hw)
        · exact hyx ▸ hxs w hw
      obtain ⟨hpre', ys, hys, hall⟩ := ih hrest hnext
      simp only [List.foldl_cons, List.filter_cons, hf, Option.isSome_some, if_true]
      exact ⟨hpre.trans hpre', y :: ys, by rw [hys, hy]; simp,
        .cons ⟨hyx, r, hf, resolve_mono hpre' hyr⟩ hall⟩

/-- The sources and mappings of a composed map are those of the followed mappings, but for a
source with the content that is kept. -/
theorem compose_mappings (later earlier : PositionMap) :
    (compose later earlier).mappings =
      (later.mappings.foldl (composeMapping earlier) (ofFile later.file)).mappings := by
  unfold compose
  simp only
  split
  · exact addSource_mappings _ _
  · rfl

theorem setContent_resolve (m : PositionMap) (index : Nat) (content : String) (x : Mapping) :
    (m.setContent index content).resolve x = m.resolve x := by
  simp only [resolve, sourceName?, setContent, ← List.getElem?_map, names_setContent]

theorem compose_resolve {later earlier : PositionMap} {y : Mapping} {r : Resolved}
    (h : (later.mappings.foldl (composeMapping earlier) (ofFile later.file)).resolve y = some r) :
    (compose later earlier).resolve y = some r := by
  unfold compose
  simp only
  split
  · rw [setContent_resolve]
    exact resolve_mono (addSource_extends _ _) h
  · exact h

/-- The composed map has one mapping for each of the later map that the earlier one can follow,
and it says what the earlier one says. -/
theorem compose_forall₂ (later earlier : PositionMap) :
    List.Forall₂ (StandsFor earlier (compose later earlier))
      (later.mappings.filter fun x => (earlier.follow x).isSome)
      (compose later earlier).mappings := by
  obtain ⟨-, ys, hys, hall⟩ := foldl_composeMapping (m := ofFile later.file) earlier later.ordered
    (fun y hy => by simp [ofFile, empty] at hy)
  rw [compose_mappings, hys]
  refine hall.imp ?_
  rintro x y ⟨hxy, r, hf, hr⟩
  exact ⟨hxy, r, hf, compose_resolve hr⟩

/-- A composed map looks at the mappings that can be followed, and at no others. -/
theorem lookup_compose (later earlier : PositionMap) (p : LineCol) :
    (compose later earlier).lookup p =
      (nearest p (later.mappings.filter fun x =>
        x.generated.line = p.line && (earlier.follow x).isSome)).bind earlier.follow := by
  have hall : List.Forall₂ (fun x y => y.generated = x.generated ∧
      (compose later earlier).resolve y = earlier.follow x) _ _ :=
    (compose_forall₂ later earlier).imp fun x y ⟨hxy, r, hf, hr⟩ => ⟨hxy, hr.trans hf.symm⟩
  have hrel := nearest_forall₂ p hall
  rw [← List.filter_filter, ← nearest_line earlier.follow p (later.ordered.filter _), lookup_eq]
  cases hx : nearest p (later.mappings.filter fun x => (earlier.follow x).isSome) <;>
    cases hy : nearest p (compose later earlier).mappings <;> rw [hx, hy] at hrel <;> cases hrel
  · rfl
  next hxy => simp only [Option.bind_some, hxy.1, hxy.2]

/-- A composed map keeps what two lookups one behind the other find. -/
theorem lookup_compose_of_lookup {later earlier : PositionMap} {p : LineCol} {mid r : Resolved}
    (hl : later.lookup p = some mid) (he : earlier.lookup mid.position = some r) :
    (compose later earlier).lookup p = some r := by
  obtain ⟨x, hx, hif⟩ := Option.bind_eq_some_iff.1 hl
  split at hif
  next hline =>
    obtain ⟨o, ho, hname⟩ := Option.bind_eq_some_iff.1 hif
    obtain ⟨name, -, rfl⟩ := Option.map_eq_some_iff.1 hname
    have hf : earlier.follow x = some r := by
      rw [follow, ho]
      exact he
    rw [lookup_compose, nearest_filter later.ordered hx (by simp [hline, hf])]
    exact hf
  next => contradiction

/-- Nothing is found exactly where no mapping at or before the position on its line can be
followed. -/
theorem lookup_compose_eq_none_iff (later earlier : PositionMap) (p : LineCol) :
    (compose later earlier).lookup p = none ↔
      ∀ x ∈ later.mappings, x.generated.line = p.line → x.generated ≤ p →
        earlier.follow x = none := by
  rw [lookup_compose]
  constructor
  · intro h x hx hline hp
    by_contra hf
    have hsome := Option.isSome_iff_ne_none.2 hf
    cases hn : nearest p (later.mappings.filter fun x =>
        x.generated.line = p.line && (earlier.follow x).isSome) with
    | none =>
      have hall := (nearest_eq_none_iff (later.ordered.filter _)).1 hn x
        (List.mem_filter.2 ⟨hx, by simp [hline, hsome]⟩)
      exact not_le.2 hall hp
    | some y =>
      have hy := (List.mem_filter.1 (nearest_mem (later.ordered.filter _) hn).1).2
      rw [hn, Option.bind_some] at h
      simp [h] at hy
  · intro h
    cases hn : nearest p (later.mappings.filter fun x =>
        x.generated.line = p.line && (earlier.follow x).isSome) with
    | none => rfl
    | some y =>
      obtain ⟨hmem, hy⟩ := nearest_mem (later.ordered.filter _) hn
      obtain ⟨hmem, hpass⟩ := List.mem_filter.1 hmem
      rw [Bool.and_eq_true, decide_eq_true_iff] at hpass
      exact h y hmem hpass.1 hy

/-- The positions of originals that a map names. -/
def originals (m : PositionMap) : List LineCol :=
  m.mappings.filterMap fun x => x.original.map Location.position

theorem mem_originals {m : PositionMap} {q : LineCol} :
    q ∈ m.originals ↔ ∃ x ∈ m.mappings, ∃ o, x.original = some o ∧ o.position = q := by
  simp only [originals, List.mem_filterMap, Option.map_eq_some_iff]

theorem resolve_position {m : PositionMap} {x : Mapping} {r : Resolved}
    (h : m.resolve x = some r) : ∃ o, x.original = some o ∧ o.position = r.position := by
  obtain ⟨o, ho, hn⟩ := Option.bind_eq_some_iff.1 h
  obtain ⟨_, -, rfl⟩ := Option.map_eq_some_iff.1 hn
  exact ⟨o, ho, rfl⟩

/-- An answer is what some mapping of the map says. -/
theorem lookup_mem {m : PositionMap} {p : LineCol} {r : Resolved} (h : m.lookup p = some r) :
    ∃ x ∈ m.mappings, m.resolve x = some r := by
  obtain ⟨x, hx, hif⟩ := Option.bind_eq_some_iff.1 h
  split at hif
  next => exact ⟨x, (nearest_mem m.ordered hx).1, hif⟩
  next => contradiction

/-- No composition names a position that the earlier map does not name. -/
theorem compose_originals_subset (later earlier : PositionMap) :
    (compose later earlier).originals ⊆ earlier.originals := by
  intro q hq
  obtain ⟨y, hy, o, ho, rfl⟩ := mem_originals.1 hq
  obtain ⟨i, hi, rfl⟩ := List.mem_iff_getElem.1 hy
  have hall := compose_forall₂ later earlier
  have hlt := hall.length_eq ▸ hi
  obtain ⟨-, r, hf, hr⟩ := hall.get hlt hi
  obtain ⟨o', ho', hp⟩ := resolve_position hr
  obtain rfl : o = o' := by simpa [ho] using ho'
  obtain ⟨z, -, hz⟩ := Option.bind_eq_some_iff.1 hf
  obtain ⟨w, hw, hwr⟩ := lookup_mem hz
  obtain ⟨l, hl, hlp⟩ := resolve_position hwr
  exact mem_originals.2 ⟨w, hw, l, hl, hlp.trans hp.symm⟩

theorem follow_source {earlier : PositionMap} {x : Mapping} {r : Resolved} {s : Source}
    (hs : earlier.sources = [s]) (h : earlier.follow x = some r) : r.source = s.name := by
  obtain ⟨_, -, hl⟩ := Option.bind_eq_some_iff.1 h
  obtain ⟨y, -, hy⟩ := lookup_mem hl
  obtain ⟨o, -, hn⟩ := Option.bind_eq_some_iff.1 hy
  obtain ⟨name, hname, rfl⟩ := Option.map_eq_some_iff.1 hn
  obtain ⟨t, ht, rfl⟩ := Option.map_eq_some_iff.1 hname
  rw [hs] at ht
  rw [List.mem_singleton.1 (List.mem_of_getElem? ht)]

/-- A source that is there is not added again. -/
theorem addSource_singleton {m : PositionMap} {s : Source} (h : m.sources = [s]) :
    m.addSource s.name = (m, 0) := by
  unfold addSource
  split
  next i hi =>
    obtain ⟨hlt, -⟩ := List.findIdx?_eq_some_iff_getElem.1 hi
    rw [h, List.length_singleton, Nat.lt_one_iff] at hlt
    rw [hlt]
  next hi => simp [h] at hi

theorem addSource_empty {m : PositionMap} (h : m.sources = []) (name : String) :
    (m.addSource name).1.sources = [⟨name, none⟩] ∧ (m.addSource name).2 = 0 := by
  unfold addSource
  split
  next hi => simp [h] at hi
  next => simp [h]

/-- Behind a map with one source a composition has that source, or none yet. -/
theorem foldl_composeMapping_sources {earlier : PositionMap} {s : Source} (xs : List Mapping)
    {m : PositionMap} (hs : earlier.sources = [s])
    (hm : m.sources = [] ∨ m.sources = [⟨s.name, none⟩]) :
    (xs.foldl (composeMapping earlier) m).sources = [] ∨
      (xs.foldl (composeMapping earlier) m).sources = [⟨s.name, none⟩] := by
  induction xs generalizing m with
  | nil => exact hm
  | cons x xs ih =>
    apply ih
    cases hf : earlier.follow x with
    | none => rwa [composeMapping_of_none hf]
    | some r =>
      simp only [composeMapping, hf, add, addMapping, follow_source hs hf]
      rcases hm with hm | hm
      · exact .inr (addSource_empty hm _).1
      · exact .inr ((congrArg (·.1.sources) (addSource_singleton hm)).trans hm)

/-- A map with one source, its text embedded, hands both on to every composition. -/
theorem compose_sources_singleton (later : PositionMap) {earlier : PositionMap}
    {name text : String} (hs : earlier.sources = [⟨name, some text⟩]) :
    (compose later earlier).sources = [⟨name, some text⟩] := by
  have hname : earlier.sourceName? 0 = some name := by simp [sourceName?, hs]
  have hcontent : earlier.sourceContent? 0 = some text := by simp [sourceContent?, hs]
  simp only [compose, hname, hcontent, setContent]
  rcases foldl_composeMapping_sources later.mappings (m := ofFile later.file) hs (.inl rfl)
    with h | h
  · obtain ⟨hsource, hindex⟩ := addSource_empty h name
    simp [hsource, hindex]
  · rw [addSource_singleton (s := ⟨name, none⟩) h]
    simp [h]

/-- A map answers for the maps of several stages: there is none only where no stage has one, and
what can be followed through the stages it finds too. -/
structure AnswersFor (stages : List PositionMap) (m? : Option PositionMap) : Prop where
  eq_none_iff : m? = none ↔ stages = []
  lookup : ∀ p r, chain stages p = some r → ∃ m, m? = some m ∧ m.lookup p = some r

theorem AnswersFor.ofOption (m? : Option PositionMap) : AnswersFor m?.toList m? := by
  refine ⟨by cases m? <;> simp, fun p r h => ?_⟩
  cases m? with
  | none => cases h
  | some m => exact ⟨m, rfl, h⟩

theorem AnswersFor.compose {stages : List PositionMap} {earlier : Option PositionMap}
    (h : AnswersFor stages earlier) (later : Option PositionMap) :
    AnswersFor (later.toList ++ stages) (composeOptional later earlier) := by
  cases later with
  | none => exact h
  | some l =>
    cases earlier with
    | none =>
      rw [h.eq_none_iff.1 rfl]
      exact .ofOption (some l)
    | some e =>
      refine ⟨by simp [composeOptional], fun p r hc => ⟨PositionMap.compose l e, rfl, ?_⟩⟩
      cases stages with
      | nil => cases h.eq_none_iff.2 rfl
      | cons m ms =>
        obtain ⟨mid, hl, hrest⟩ := Option.bind_eq_some_iff.1 hc
        obtain ⟨_, ⟨⟩, he⟩ := h.lookup _ _ hrest
        exact lookup_compose_of_lookup hl he

/-- What holds of a map to one text is kept through the stages behind it. -/
theorem composeOptional_singleton (later : Option PositionMap) {m first : PositionMap}
    {name text : String} (hs : m.sources = [⟨name, some text⟩])
    (ho : m.originals ⊆ first.originals) :
    ∃ n, composeOptional later (some m) = some n ∧ n.sources = [⟨name, some text⟩] ∧
      n.originals ⊆ first.originals := by
  cases later with
  | none => exact ⟨m, rfl, hs, ho⟩
  | some l =>
    exact ⟨_, rfl, compose_sources_singleton l hs,
      List.Subset.trans (compose_originals_subset l m) ho⟩

/-- A composed map keeps every answer of the two lookups, one behind the other. Where these end
nowhere, it answers by the nearest mapping on the line that can be followed, and answers nothing
exactly if there is none. -/
theorem lookup_compose_chain (later earlier : PositionMap) (p : LineCol) :
    (∀ r, chain [later, earlier] p = some r → (compose later earlier).lookup p = some r) ∧
    (compose later earlier).lookup p =
      (nearest p (later.mappings.filter fun x =>
        x.generated.line = p.line && (earlier.follow x).isSome)).bind earlier.follow ∧
    ((compose later earlier).lookup p = none ↔
      ∀ x ∈ later.mappings, x.generated.line = p.line → x.generated ≤ p →
        earlier.follow x = none) := by
  refine ⟨fun r h => ?_, lookup_compose later earlier p,
    lookup_compose_eq_none_iff later earlier p⟩
  obtain ⟨mid, hl, he⟩ := Option.bind_eq_some_iff.1 h
  exact lookup_compose_of_lookup hl he

/-- Text that comes from nowhere is answered for by the mapping in front of it. -/
theorem lookup_compose_behind_dropped :
    let earlier := (empty.addSource "App.svelte").1.add ⟨0, 0⟩ 0 ⟨0, 0⟩
    let later := ((empty.addSource "App.js").1.add ⟨0, 0⟩ 0 ⟨0, 0⟩).addMapping ⟨0, 5⟩ none
    chain [later, earlier] ⟨0, 7⟩ = none ∧
      (compose later earlier).lookup ⟨0, 7⟩ = some ⟨"App.svelte", ⟨0, 0⟩⟩ := by
  decide

end ComponentBuild.PositionMap
