import ComponentBuild.Proofs.Lists
import ComponentBuild.Proofs.Position.Compose
import ComponentBuild.Proofs.Position.Order
import ComponentBuild.Proofs.Position.V3

namespace ComponentBuild.PositionMap

/-- A source and its content, which a composition takes over from the earlier map. -/
def carried (earlier : PositionMap) : List (String × String) :=
  match earlier.sourceName? 0, earlier.sourceContent? 0 with
  | some name, some content => [(name, content)]
  | _, _ => []

/-- The source that a composition asks for at a mapping of the later map. -/
def asked (earlier : PositionMap) (x : Mapping) : Option String :=
  (earlier.follow x).map Resolved.source

/-- The sources that a composition asks for, in their order. -/
def composedNames (later earlier : PositionMap) : List String :=
  later.mappings.filterMap (asked earlier) ++ (carried earlier).map Prod.fst

/-- A place in a source, told by where its name first comes up. -/
def located (names : List String) (name : String) (position : LineCol) : Location :=
  ⟨names.eraseDups.idxOf name, position⟩

/-- What a composition adds for a mapping of the later map. -/
def followed (names : List String) (earlier : PositionMap) (x : Mapping) : Option Mapping :=
  (earlier.follow x).map fun found =>
    ⟨x.generated, some (located names found.source found.position)⟩

def V3Fields.segments (v : V3Fields) : Except V3Error (List Segment) :=
  readLines v.sources.length v.names 0 .start (Text.splitOn ';' v.mappings.toList)
    (Text.splitOn ';' v.ranges.toList)

/-- The sources of a text under its root, each with its content. -/
def V3Fields.named (v : V3Fields) : List (String × Option String) :=
  (v.sources.map fun s => underRoot v.sourceRoot (s.getD "")).zip
    ((v.contents.map some ++ List.replicate v.sources.length none).map Option.join)

/-- The fields that stand in the text of a map. -/
def v3Fields? (bytes : ByteArray) : Option V3Fields := do
  let text ← String.fromUTF8? bytes
  let cs ← (dropHeader text.toList).toOption
  match Json.parse? cs with
  | some (.object fields) => V3Fields.ofFields? fields
  | _ => none

/-- A source that is read, if it has a content. -/
def given (s : String × Option String) : Option (String × String) := s.2.map (s.1, ·)

/-- What a text says, if it is the text of a map: its sources and its segments in their order. -/
def recorded (bytes : ByteArray) : List (String × Option String) × List Segment :=
  match ofV3Bytes bytes, v3Fields? bytes with
  | .ok _, some v => (v.named, v.segments.toOption.getD [])
  | _, _ => ([], [])

/-- The mapping that a segment of a text is read as. -/
def segmentMapping (sources : List (String × Option String)) (s : Segment) : Mapping :=
  ⟨s.generated, (s.source.bind fun id => sources[id.toNat]?).map fun source =>
    located (sources.map Prod.fst) source.1 s.position⟩

theorem V3Fields.toMap_eq (v : V3Fields) :
    v.toMap = v.segments.map (ofSegments (v.file.map fileName) v.named) := by
  simp only [V3Fields.toMap, V3Fields.segments, V3Fields.named, List.length_map]

/-- A text that is read as a map has fields, and says no more than these. -/
theorem ofV3Bytes_eq_ok {bytes : ByteArray} {m : PositionMap} (h : ofV3Bytes bytes = .ok m) :
    ∃ v segments, v3Fields? bytes = some v ∧ v.segments = .ok segments ∧
      ofSegments (v.file.map fileName) v.named segments = m := by
  unfold ofV3Bytes at h
  split at h
  next text htext =>
    unfold ofV3Text at h
    split at h
    next => cases h
    next cs hcs =>
      split at h
      next fields hfields =>
        unfold ofFields at h
        split at h
        next => cases h
        next v _ hv _ _ =>
          rw [V3Fields.toMap_eq] at h
          refine ⟨v, ?_⟩
          cases hsegments : v.segments with
          | error e =>
            rw [hsegments] at h
            cases h
          | ok segments =>
            rw [hsegments] at h
            simp only [Except.map] at h
            split at h
            next => cases h
            next =>
              cases h
              refine ⟨segments, ?_, rfl, rfl⟩
              simp [v3Fields?, htext, hcs, hfields, hv, Except.toOption]
        next => cases h
      next => cases h
  next => cases h

/-- How a map is made. A text that cannot be read makes an empty map. A part with places that do not
fit ends the program; a step that takes one in is passed over. -/
inductive History where
  | empty
  | withFile (h : History) (file : String)
  | addSource (h : History) (name : String)
  | setContent (h : History) (index : Nat) (content : String)
  | addMapping (h : History) (generated : LineCol) (original : Option Location)
  | extendShifted (h part : History) (generatedBase originalBase : LineCol) (source : Nat)
  | compose (later earlier : History)
  | read (bytes : ByteArray)

namespace History

def map : History → PositionMap
  | empty => PositionMap.empty
  | withFile h file => h.map.withFile file
  | addSource h name => (h.map.addSource name).1
  | setContent h index content => h.map.setContent index content
  | addMapping h generated original => h.map.addMapping generated original
  | extendShifted h part generatedBase originalBase source =>
    (h.map.extendShifted part.map generatedBase originalBase source).toOption.getD h.map
  | compose later earlier => PositionMap.compose later.map earlier.map
  | read bytes => (ofV3Bytes bytes).toOption.getD PositionMap.empty

/-- The names of sources, in the order in which they were asked for. -/
def names : History → List String
  | empty => []
  | withFile h _ => h.names
  | addSource h name => h.names ++ [name]
  | setContent h _ _ => h.names
  | addMapping h _ _ => h.names
  | extendShifted h _ _ _ _ => h.names
  | compose later earlier => composedNames later.map earlier.map
  | read bytes => (recorded bytes).1.map Prod.fst

/-- The contents that were given to sources, in their order. -/
def contents : History → List (String × String)
  | empty => []
  | withFile h _ => h.contents
  | addSource h _ => h.contents
  | setContent h index content =>
    h.contents ++ h.names.eraseDups[index]?.toList.map (·, content)
  | addMapping h _ _ => h.contents
  | extendShifted h _ _ _ _ => h.contents
  | compose _ earlier => carried earlier.map
  | read bytes => (recorded bytes).1.filterMap given

/-- The mappings that were added, in their order. -/
def inserted : History → List Mapping
  | empty => []
  | withFile h _ => h.inserted
  | addSource h _ => h.inserted
  | setContent h _ _ => h.inserted
  | addMapping h generated original => h.inserted ++ [⟨generated, original⟩]
  | extendShifted h part generatedBase originalBase source =>
    h.inserted ++ (part.map.shiftMappings generatedBase originalBase source).toOption.getD []
  | compose later earlier =>
    later.map.mappings.filterMap (followed (composedNames later.map earlier.map) earlier.map)
  | read bytes => (recorded bytes).2.map (segmentMapping (recorded bytes).1)

end History

/-- Sources by the names that were asked for and the contents that were given to them. -/
def sourcesOf (names : List String) (contents : List (String × String)) : List Source :=
  names.eraseDups.map fun name => ⟨name, contents.reverse.lookup name⟩

/-- A map has the sources that it was asked for, and contents only of such. -/
structure HasSources (m : PositionMap) (names : List String) (contents : List (String × String)) :
    Prop where
  sources : m.sources = sourcesOf names contents
  known : ∀ c ∈ contents, c.1 ∈ names

/-- A content for a source that is not there changes nothing. -/
theorem setContent_of_none {m : PositionMap} {index : Nat} (content : String)
    (h : m.sourceName? index = none) : m.setContent index content = m := by
  have hout : m.sources.length ≤ index := by simpa [sourceName?] using h
  have hsame : (m.sources.modify index fun s => { s with content := some content }) = m.sources :=
    List.modify_eq_self hout
  cases m
  simp only [setContent] at hsame ⊢
  congr 1

namespace HasSources

variable {m n : PositionMap} {names : List String} {contents : List (String × String)}

theorem none (file : Option String) : (ofFile file).HasSources [] [] := ⟨rfl, by simp⟩

theorem congr (h : m.HasSources names contents) (hn : n.sources = m.sources) :
    n.HasSources names contents := ⟨hn.trans h.sources, h.known⟩

theorem map_name (h : m.HasSources names contents) :
    m.sources.map Source.name = names.eraseDups := by
  rw [h.sources, sourcesOf, List.map_map]
  exact List.map_id _

theorem sourceName?_eq (h : m.HasSources names contents) (index : Nat) :
    m.sourceName? index = names.eraseDups[index]? := by
  rw [sourceName?, ← h.map_name, List.getElem?_map]

theorem addSource (h : m.HasSources names contents) (name : String) :
    (m.addSource name).1.HasSources (names ++ [name]) contents := by
  refine ⟨?_, fun c hc => List.mem_append_left _ (h.known c hc)⟩
  have hmem : name ∈ m.sources.map Source.name ↔ name ∈ names := by
    rw [h.map_name, List.mem_eraseDups]
  rw [sourcesOf, eraseDups_concat]
  by_cases hname : name ∈ names
  · rw [if_pos (List.contains_iff_mem.2 hname), ← sourcesOf, ← h.sources,
      addSource_of_mem (hmem.2 hname)]
  · have hcontent : contents.reverse.lookup name = .none :=
      lookup_reverse_eq_none fun c hc heq => hname (heq ▸ h.known c hc)
    rw [if_neg (mt List.contains_iff_mem.1 hname), (addSource_of_new (mt hmem.1 hname)).1,
      h.sources, List.map_append, List.map_singleton, hcontent, sourcesOf]

/-- The index of a source is that of its name among those that came up. -/
theorem addSource_index (h : m.HasSources names contents) {name : String} {more : List String}
    (hmore : names ++ [name] <+: more) : (m.addSource name).2 = more.eraseDups.idxOf name := by
  rw [idxOf_eraseDups (by simp) hmore]
  have hat := m.sourceName?_addSource name
  rw [(h.addSource name).sourceName?_eq] at hat
  obtain ⟨hlt, hname⟩ := List.getElem?_eq_some_iff.1 hat
  have hnodup : (names ++ [name]).eraseDups.Nodup := by
    rw [← (h.addSource name).map_name]
    exact (m.addSource name).1.names
  calc (m.addSource name).2
      = (names ++ [name]).eraseDups.idxOf (names ++ [name]).eraseDups[(m.addSource name).2] :=
        (hnodup.idxOf_getElem _ hlt).symm
    _ = (names ++ [name]).eraseDups.idxOf name := by rw [hname]

theorem setContent (h : m.HasSources names contents) (index : Nat) (content : String) :
    (m.setContent index content).HasSources names
      (contents ++ (m.sourceName? index).toList.map (·, content)) := by
  have hnodup : names.eraseDups.Nodup := h.map_name ▸ m.names
  cases hi : m.sourceName? index with
  | none => simpa [setContent_of_none content hi] using h
  | some name =>
    rw [h.sourceName?_eq] at hi
    have hmem := List.mem_of_getElem? hi
    refine ⟨?_, ?_⟩
    · have hlt := (List.getElem?_eq_some_iff.1 hi).1
      refine List.ext_getElem? fun i => ?_
      simp only [PositionMap.setContent, h.sources, sourcesOf, List.getElem?_modify,
        List.getElem?_map, Option.toList_some, List.map_singleton, lookup_reverse_concat]
      by_cases hindex : index = i
      · subst hindex
        simp [hi]
      · cases hother : names.eraseDups[i]? with
        | none => simp [hindex]
        | some other =>
          have hne : name ≠ other := by
            rintro rfl
            exact hindex ((List.getElem?_inj hlt hnodup).1 (hi.trans hother.symm))
          simp [hindex, hne]
    · intro c hc
      rcases List.mem_append.1 hc with hc | hc
      · exact h.known c hc
      · rw [List.mem_singleton.1 hc]
        exact List.mem_eraseDups.1 hmem

end HasSources

/-- A map has the sources and the contents that it was asked for, and holds what was added. -/
structure MadeOf (m : PositionMap) (names : List String) (contents : List (String × String))
    (inserted : List Mapping) : Prop extends m.HasSources names contents where
  held : m.HoldsInOrder inserted

namespace MadeOf

variable {m n : PositionMap} {names more : List String} {contents : List (String × String)}
  {inserted : List Mapping}

theorem none (file : Option String) : (ofFile file).MadeOf [] [] [] := ⟨.none file, fun _ => rfl⟩

theorem addSource (h : m.MadeOf names contents inserted) (name : String) :
    (m.addSource name).1.MadeOf (names ++ [name]) contents inserted := by
  refine ⟨h.toHasSources.addSource name, fun p => ?_⟩
  rw [addSource_mappings]
  exact h.held p

theorem setContent (h : m.MadeOf names contents inserted) (index : Nat) (content : String) :
    (m.setContent index content).MadeOf names
      (contents ++ (m.sourceName? index).toList.map (·, content)) inserted :=
  ⟨h.toHasSources.setContent index content, h.held⟩

theorem addMapping (h : m.MadeOf names contents inserted) (generated : LineCol)
    (original : Option Location) :
    (m.addMapping generated original).MadeOf names contents
      (inserted ++ [⟨generated, original⟩]) :=
  ⟨h.toHasSources.congr rfl, h.held.addMapping generated original⟩

theorem extendShifted (h : m.MadeOf names contents inserted) (part : PositionMap)
    (generatedBase originalBase : LineCol) (source : Nat) :
    ((m.extendShifted part generatedBase originalBase source).toOption.getD m).MadeOf names
      contents
      (inserted ++ (part.shiftMappings generatedBase originalBase source).toOption.getD []) := by
  cases hm : m.extendShifted part generatedBase originalBase source with
  | ok m' =>
    obtain ⟨hfits, -⟩ := extendShifted_eq_ok_iff.1 hm
    rw [shiftMappings_eq_ok_iff.2 ⟨hfits, rfl⟩]
    exact ⟨h.toHasSources.congr (extendShifted_sources hm), h.held.extendShifted hm⟩
  | error e =>
    rw [shiftMappings_eq_error_iff.2 (extendShifted_eq_error_iff.1 hm)]
    change m.MadeOf names contents (inserted ++ [])
    rwa [List.append_nil]

/-- A source that comes with its content. -/
theorem addSourceContent (h : m.MadeOf names contents inserted) (s : Source) :
    (m.addSourceContent s).MadeOf (names ++ [s.name])
      (contents ++ (s.content.map (s.name, ·)).toList) inserted := by
  obtain ⟨name, content⟩ := s
  cases content with
  | none =>
    rw [Option.map_none, Option.toList_none, List.append_nil]
    exact h.addSource name
  | some text =>
    have hset := (h.addSource name).setContent (m.addSource name).2 text
    rwa [m.sourceName?_addSource name] at hset

theorem composeMapping (h : m.MadeOf names contents inserted) {earlier : PositionMap} {x : Mapping}
    (hmore : names ++ (asked earlier x).toList <+: more) :
    (composeMapping earlier m x).MadeOf (names ++ (asked earlier x).toList) contents
      (inserted ++ (followed more earlier x).toList) := by
  unfold asked at hmore ⊢
  unfold followed
  cases hf : earlier.follow x with
  | none => simpa [PositionMap.composeMapping, hf] using h
  | some found =>
    rw [hf] at hmore
    have hadded := (h.addSource found.source).addMapping x.generated
      (some ⟨(m.addSource found.source).2, found.position⟩)
    rw [h.addSource_index hmore] at hadded
    simp only [PositionMap.composeMapping, hf, add, h.addSource_index hmore]
    exact hadded

theorem foldl_composeMapping (h : m.MadeOf names contents inserted) (earlier : PositionMap)
    (xs : List Mapping) (hmore : names ++ xs.filterMap (asked earlier) <+: more) :
    (xs.foldl (PositionMap.composeMapping earlier) m).MadeOf
      (names ++ xs.filterMap (asked earlier)) contents
      (inserted ++ xs.filterMap (followed more earlier)) := by
  induction xs generalizing m names inserted with
  | nil => simpa using h
  | cons x xs ih =>
    have hcons {α : Type} (f : Mapping → Option α) :
        (x :: xs).filterMap f = (f x).toList ++ xs.filterMap f := by
      rw [List.filterMap_cons]
      cases f x <;> rfl
    rw [hcons, hcons, ← List.append_assoc, ← List.append_assoc] at *
    exact ih (h.composeMapping ((List.prefix_append _ _).trans hmore)) hmore

theorem compose (later earlier : PositionMap) :
    (PositionMap.compose later earlier).MadeOf (composedNames later earlier) (carried earlier)
      (later.mappings.filterMap (followed (composedNames later earlier) earlier)) := by
  have hfold := (none later.file).foldl_composeMapping earlier later.mappings
    (List.prefix_append _ ((carried earlier).map Prod.fst))
  simp only [List.nil_append] at hfold
  change MadeOf _ _ _ (later.mappings.filterMap (followed (composedNames later earlier) earlier))
    at hfold
  generalize later.mappings.filterMap (followed (composedNames later earlier) earlier) = inserted
    at hfold ⊢
  unfold PositionMap.compose composedNames carried
  generalize later.mappings.filterMap (asked earlier) = names at hfold ⊢
  cases earlier.sourceName? 0 with
  | none => simpa using hfold
  | some name =>
    cases earlier.sourceContent? 0 with
    | none => simpa using hfold
    | some content => exact hfold.addSourceContent ⟨name, some content⟩

theorem addSources (h : m.MadeOf names contents inserted) (sources : List (String × Option String))
    (hmore : names ++ sources.map Prod.fst <+: more) :
    (m.addSources sources).1.MadeOf (names ++ sources.map Prod.fst)
        (contents ++ sources.filterMap given) inserted ∧
      (m.addSources sources).2 = sources.map fun s => more.eraseDups.idxOf s.1 := by
  induction sources generalizing m names contents with
  | nil => simpa [PositionMap.addSources] using h
  | cons s sources ih =>
    have hcontents :
        (s :: sources).filterMap given = (given s).toList ++ sources.filterMap given := by
      rw [List.filterMap_cons]
      cases given s <;> rfl
    rw [List.map_cons, List.append_cons] at hmore ⊢
    obtain ⟨hrest, hindices⟩ := ih (h.addSourceContent ⟨s.1, s.2⟩) hmore
    rw [addSources_cons m ⟨s.1, s.2⟩, hcontents, ← List.append_assoc, hindices, List.map_cons,
      h.addSource_index ((List.prefix_append _ _).trans hmore)]
    exact ⟨hrest, rfl⟩

theorem ofSegments (file : Option String) (sources : List (String × Option String))
    (segments : List Segment) :
    (PositionMap.ofSegments file sources segments).MadeOf (sources.map Prod.fst)
      (sources.filterMap given) (segments.map (segmentMapping sources)) := by
  obtain ⟨hadded, hindices⟩ := (none file).addSources sources List.prefix_rfl
  simp only [List.nil_append] at hadded hindices
  have hplace (s : Segment) : (s.source.bind fun id =>
      ((ofFile file).addSources sources).2[id.toNat]?).map (⟨·, s.position⟩) =
        (segmentMapping sources s).original := by
    simp only [hindices, segmentMapping, located, List.getElem?_map]
    cases s.source with
    | none => rfl
    | some id => exact Option.map_map ..
  simp only [PositionMap.ofSegments, hplace]
  refine ⟨hadded.toHasSources.congr ?_, ?_⟩
  · exact foldl_sources
      (f := fun m s => m.addMapping s.generated (segmentMapping sources s).original)
      (fun _ _ => rfl) _ _
  rw [List.map_eq_flatMap]
  exact HoldsInOrder.foldl (g := fun s => [segmentMapping sources s])
    (fun _ _ _ hm => hm.addMapping _ _) _ hadded.held

theorem read {bytes : ByteArray} (h : ofV3Bytes bytes = .ok m) :
    m.MadeOf ((recorded bytes).1.map Prod.fst) ((recorded bytes).1.filterMap given)
      ((recorded bytes).2.map (segmentMapping (recorded bytes).1)) := by
  obtain ⟨v, segments, hv, hsegments, rfl⟩ := ofV3Bytes_eq_ok h
  simp only [recorded, h, hv, hsegments]
  exact ofSegments _ v.named segments

end MadeOf

theorem History.madeOf (h : History) : h.map.MadeOf h.names h.contents h.inserted := by
  induction h with
  | empty => exact .none none
  | withFile h file ih => exact ⟨ih.toHasSources.congr rfl, ih.held⟩
  | addSource h name ih => exact ih.addSource name
  | setContent h index content ih =>
    rw [History.contents, ← ih.sourceName?_eq]
    exact ih.setContent index content
  | addMapping h generated original ih => exact ih.addMapping generated original
  | extendShifted h part generatedBase originalBase source ih _ =>
    exact ih.extendShifted part.map generatedBase originalBase source
  | compose later earlier => exact .compose later.map earlier.map
  | read bytes =>
    cases h : ofV3Bytes bytes with
    | error e =>
      simp only [History.map, History.names, History.contents, History.inserted, recorded, h]
      exact .none none
    | ok m =>
      simp only [History.map, h]
      exact .read h

/-- However a map was made, it has each source once, with the content it was given last, and holds
what was added, sorted by position and otherwise in the order in which it was added. A content for a
source that is not there changes nothing. A lookup answers as if all that was added were looked
through. -/
theorem map_of_history (h : History) :
    (h.map.mappings.Pairwise fun x y => x.generated ≤ y.generated) ∧
      h.map.mappings = (h.inserted.mergeSort fun x y => x.generated ≤ y.generated) ∧
      (h.map.sources.map Source.name).Nodup ∧ h.map.sources = sourcesOf h.names h.contents ∧
      (∀ index content, h.map.sourceName? index = none →
        h.map.setContent index content = h.map) ∧
      ∀ p, h.map.lookup p = (scan h.inserted p).bind h.map.resolve := by
  have hmade := h.madeOf
  refine ⟨h.map.ordered, hmade.held.mappings_eq_mergeSort, h.map.names, hmade.sources,
    fun index content hindex => ?_, hmade.held.lookup_eq_scan⟩
  exact setContent_of_none content hindex

end ComponentBuild.PositionMap
