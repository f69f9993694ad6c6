import ComponentBuild.Proofs.Json.RoundTrip
import ComponentBuild.Proofs.Position.Compose
import ComponentBuild.Proofs.Position.Segments

namespace ComponentBuild.PositionMap

/-- Maps whose mappings say the same, one by one, find the same. -/
theorem lookup_of_forall₂ {m n : PositionMap} (p : LineCol) (xs ys : List Mapping)
    (hxs : nearest p m.mappings = nearest p xs) (hys : nearest p n.mappings = nearest p ys)
    (h : List.Forall₂ (fun x y => y.generated = x.generated ∧ n.resolve y = m.resolve x) xs ys) :
    n.lookup p = m.lookup p := by
  have hrel := nearest_forall₂ p h
  rw [lookup_eq, lookup_eq, hxs, hys]
  cases hx : nearest p xs <;> cases hy : nearest p ys <;> rw [hx, hy] at hrel <;> cases hrel
  · rfl
  next hxy => simp only [Option.bind_some, hxy.1, hxy.2]

theorem nearest_cons_congr {p : LineCol} {xs ys : List Mapping} (x : Mapping)
    (h : nearest p xs = nearest p ys) : nearest p (x :: xs) = nearest p (x :: ys) := by
  rw [nearest, nearest, h]

/-- Of equal mappings only the first one counts. -/
theorem nearest_cons_cons (p : LineCol) (x : Mapping) (xs : List Mapping) :
    nearest p (x :: x :: xs) = nearest p (x :: xs) := by
  have hirrefl : ¬ x.generated < x.generated := lt_irrefl _
  by_cases hp : x.generated ≤ p
  · cases hn : nearest p xs with
    | none => simp only [nearest, hp, hn, if_true, hirrefl, if_false]
    | some y =>
      by_cases hlt : x.generated < y.generated
      · simp only [nearest, hp, hn, if_true, hlt]
      · simp only [nearest, hp, hn, if_true, hlt, if_false, hirrefl]
  · simp only [nearest, hp, if_false]

/-- The mapping that a segment stands for. -/
def Segment.mapping (s : Segment) : Mapping :=
  ⟨s.generated, s.source.map fun id => ⟨id.toNat, s.position⟩⟩

theorem Segment.Same.mapping {s t : Segment} (h : s.Same t) : t.mapping = s.mapping := by
  obtain ⟨generated, source, position⟩ := s
  obtain ⟨rfl, rfl, hposition⟩ := h
  cases hsource : t.source with
  | none => simp only [Segment.mapping, hsource, Option.map_none]
  | some id =>
    have hplace : t.position = position := hposition (by simp [hsource])
    simp only [Segment.mapping, hsource, hplace, Option.map_some]

theorem map_mapping_of_same {segments read : List Segment}
    (h : List.Forall₂ Segment.Same segments read) :
    read.map Segment.mapping = segments.map Segment.mapping := by
  induction h with
  | nil => rfl
  | cons hst _ ih => rw [List.map_cons, List.map_cons, hst.mapping, ih]

theorem hasSource_of_same {n : Nat} {segments read : List Segment}
    (h : List.Forall₂ Segment.Same segments read) (hsegments : ∀ s ∈ segments, s.HasSource n) :
    ∀ t ∈ read, t.HasSource n := by
  induction h with
  | nil => simp
  | cons hst _ ih =>
    obtain ⟨hs, hrest⟩ := List.forall_mem_cons.1 hsegments
    refine List.forall_mem_cons.2 ⟨fun id hid => ?_, ih hrest⟩
    rw [hst.source] at hid
    exact hs id hid

theorem nearest_withoutRepeats_some (p : LineCol) (s : Segment) (segments : List Segment) :
    nearest p (s.mapping :: (withoutRepeats (some s) segments).map Segment.mapping) =
      nearest p (s.mapping :: segments.map Segment.mapping) := by
  induction segments generalizing s with
  | nil => rfl
  | cons t segments ih =>
    by_cases hst : s = t
    · subst hst
      rw [withoutRepeats, if_pos rfl, ih, List.map_cons, nearest_cons_cons]
    · rw [withoutRepeats, if_neg (by simpa using hst), List.map_cons, List.map_cons]
      exact nearest_cons_congr _ (ih t)

/-- Leaving out repeated segments changes no lookup. -/
theorem nearest_withoutRepeats (p : LineCol) (segments : List Segment) :
    nearest p ((withoutRepeats none segments).map Segment.mapping) =
      nearest p (segments.map Segment.mapping) := by
  cases segments with
  | nil => rfl
  | cons s segments =>
    rw [withoutRepeats, if_neg (by simp), List.map_cons, List.map_cons]
    exact nearest_withoutRepeats_some p s segments

theorem withoutRepeats_sublist (last : Option Segment) (segments : List Segment) :
    (withoutRepeats last segments).Sublist segments := by
  induction segments generalizing last with
  | nil => exact List.Sublist.slnil
  | cons s segments ih =>
    rw [withoutRepeats]
    split
    · exact (ih last).cons s
    · exact (ih (some s)).cons_cons s

theorem segment_hasSource (m : PositionMap) (x : Mapping) :
    (m.segment x).HasSource m.sources.length := by
  intro id hid
  unfold segment at hid
  split at hid
  next o ho =>
    split at hid
    next hlt =>
      rw [← Option.some.inj hid]
      exact lt_of_le_of_lt (Nat.mod_le _ _) hlt
    next => cases hid
  next => cases hid

theorem segment_generated (m : PositionMap) (x : Mapping) :
    (m.segment x).generated = x.generated := by
  unfold segment
  split <;> rfl

/-- The segment of a mapping says what the mapping says. -/
theorem resolve_segment {m n : PositionMap} {x : Mapping} (hsources : n.sources = m.sources)
    (h : ∀ o ∈ x.original, o.source < UInt32.size) :
    (m.segment x).mapping.generated = x.generated ∧
      n.resolve (m.segment x).mapping = m.resolve x := by
  obtain ⟨generated, original⟩ := x
  cases original with
  | none => exact ⟨rfl, rfl⟩
  | some o =>
    have hword : o.source.toUInt32.toNat = o.source := Nat.mod_eq_of_lt (h o rfl)
    refine ⟨rfl, ?_⟩
    by_cases hlt : o.source < m.sources.length
    · simp [segment, Segment.mapping, resolve, sourceName?, hsources, hlt, hword]
    · simp [segment, Segment.mapping, resolve, sourceName?, hlt]

theorem addSource_of_new {m : PositionMap} {name : String}
    (h : name ∉ m.sources.map Source.name) :
    (m.addSource name).1.sources = m.sources ++ [⟨name, none⟩] ∧
      (m.addSource name).2 = m.sources.length ∧ (m.addSource name).1.file = m.file := by
  unfold addSource
  split
  next index hi =>
    obtain ⟨hlt, hname, -⟩ := List.findIdx?_eq_some_iff_getElem.1 hi
    refine absurd (List.mem_map.2 ⟨m.sources[index], List.getElem_mem hlt, ?_⟩) h
    simpa using hname
  next => exact ⟨rfl, rfl, rfl⟩

theorem addSource_of_mem {m : PositionMap} {name : String}
    (h : name ∈ m.sources.map Source.name) : (m.addSource name).1 = m := by
  unfold addSource
  split
  next => rfl
  next hi =>
    obtain ⟨s, hs, rfl⟩ := List.mem_map.1 h
    simpa using List.findIdx?_eq_none_iff.1 hi s hs

theorem modify_length_append {α : Type} (f : α → α) (xs : List α) (x : α) :
    (xs ++ [x]).modify xs.length f = xs ++ [f x] := by
  induction xs with
  | nil => rfl
  | cons y ys ih => exact congrArg (y :: ·) ih

/-- The map with a source added, its content included. -/
def addSourceContent (m : PositionMap) (s : Source) : PositionMap :=
  match s.content with
  | some text => (m.addSource s.name).1.setContent (m.addSource s.name).2 text
  | none => (m.addSource s.name).1

theorem addSourceContent_of_new {m : PositionMap} {s : Source}
    (h : s.name ∉ m.sources.map Source.name) :
    (m.addSourceContent s).sources = m.sources ++ [s] ∧ (m.addSourceContent s).file = m.file ∧
      (m.addSourceContent s).mappings = m.mappings := by
  obtain ⟨name, content⟩ := s
  obtain ⟨hsources, hindex, hfile⟩ := addSource_of_new h
  have hmappings := m.addSource_mappings name
  cases content with
  | none => exact ⟨hsources, hfile, hmappings⟩
  | some text =>
    refine ⟨?_, hfile, hmappings⟩
    simp only [addSourceContent, setContent, hsources, hindex, modify_length_append]

theorem addSources_cons (m : PositionMap) (s : Source) (rest : List (String × Option String)) :
    m.addSources ((s.name, s.content) :: rest) =
      (((m.addSourceContent s).addSources rest).1,
        (m.addSource s.name).2 :: ((m.addSourceContent s).addSources rest).2) := by
  obtain ⟨name, content⟩ := s
  cases content <;> rfl

/-- Sources with names of their own are added as they are, one behind the other. -/
theorem addSources_of_nodup (m : PositionMap) (sources : List Source)
    (h : ((m.sources ++ sources).map Source.name).Nodup) :
    let added := m.addSources (sources.map fun s => (s.name, s.content))
    added.1.sources = m.sources ++ sources ∧ added.1.file = m.file ∧
      added.1.mappings = m.mappings ∧ added.2 = List.range' m.sources.length sources.length := by
  induction sources generalizing m with
  | nil => exact ⟨(List.append_nil _).symm, rfl, rfl, rfl⟩
  | cons s sources ih =>
    have hnew : s.name ∉ m.sources.map Source.name := by
      rw [List.map_append, List.map_cons] at h
      intro hmem
      exact (List.nodup_append.1 h).2.2 _ hmem _ (List.mem_cons_self ..) rfl
    obtain ⟨hsources, hfile, hmappings⟩ := addSourceContent_of_new hnew
    obtain ⟨hrest, hrestFile, hrestMappings, hindices⟩ := ih (m.addSourceContent s) (by
      rw [hsources, List.append_assoc]
      exact h)
    rw [List.map_cons, addSources_cons]
    refine ⟨?_, hrestFile.trans hfile, hrestMappings.trans hmappings, ?_⟩
    · rw [hrest, hsources, List.append_assoc]
      rfl
    · rw [hindices, hsources, (addSource_of_new hnew).2.1, List.length_append,
        List.length_singleton]
      rfl

theorem foldl_addMapping {xs : List Mapping} {m : PositionMap}
    (h : (m.mappings ++ xs).Pairwise fun x y => x.generated ≤ y.generated) :
    let added := xs.foldl (fun m x => m.addMapping x.generated x.original) m
    added.mappings = m.mappings ++ xs ∧ added.sources = m.sources ∧ added.file = m.file := by
  induction xs generalizing m with
  | nil => exact ⟨(List.append_nil _).symm, rfl, rfl⟩
  | cons x xs ih =>
    have hx : (m.addMapping x.generated x.original).mappings = m.mappings ++ [x] := by
      refine insertMapping_append fun y hy => ?_
      exact (List.pairwise_append.1 h).2.2 y hy x (List.mem_cons_self ..)
    obtain ⟨hmappings, hsources, hfile⟩ := ih (m := m.addMapping x.generated x.original) (by
      rw [hx, List.append_assoc]
      exact h)
    refine ⟨?_, hsources, hfile⟩
    rw [List.foldl_cons, hmappings, hx, List.append_assoc]
    rfl

theorem getElem?_range'_zero {n i : Nat} (h : i < n) : (List.range' 0 n)[i]? = some i := by
  rw [List.getElem?_range' h, Nat.zero_add, Nat.one_mul]

/-- Segments are added as the mappings they stand for. -/
theorem foldl_segments {n : Nat} {segments : List Segment} (h : ∀ s ∈ segments, s.HasSource n)
    (m : PositionMap) :
    segments.foldl (fun m s => m.addMapping s.generated
        ((s.source.bind fun id => (List.range' 0 n)[id.toNat]?).map (⟨·, s.position⟩))) m =
      (segments.map Segment.mapping).foldl (fun m x => m.addMapping x.generated x.original) m := by
  induction segments generalizing m with
  | nil => rfl
  | cons s segments ih =>
    obtain ⟨hs, hsegments⟩ := List.forall_mem_cons.1 h
    have hplace : (s.source.bind fun id => (List.range' 0 n)[id.toNat]?).map (⟨·, s.position⟩) =
        s.mapping.original := by
      obtain ⟨generated, source, position⟩ := s
      cases source with
      | none => rfl
      | some id =>
        rw [Option.bind_some, getElem?_range'_zero (hs id rfl)]
        rfl
    rw [List.foldl_cons, List.map_cons, List.foldl_cons, hplace, ih hsegments]
    rfl

/-- The map that segments in order describe, over sources with names of their own. -/
theorem ofSegments_of_ordered (file : Option String) {sources : List Source}
    {segments : List Segment} (hnames : (sources.map Source.name).Nodup)
    (hsources : ∀ s ∈ segments, s.HasSource sources.length)
    (hordered : segments.Pairwise fun s t => s.generated ≤ t.generated) :
    let m := ofSegments file (sources.map fun s => (s.name, s.content)) segments
    m.file = file ∧ m.sources = sources ∧ m.mappings = segments.map Segment.mapping := by
  obtain ⟨hadded, hfile, hmappings, hindices⟩ :=
    addSources_of_nodup (ofFile file) sources hnames
  have hmapped : ((ofFile file).mappings ++ segments.map Segment.mapping).Pairwise
      fun x y => x.generated ≤ y.generated := List.pairwise_map.2 hordered
  obtain ⟨hall, hallSources, hallFile⟩ := foldl_addMapping (hmappings ▸ hmapped)
  have hzero : (ofFile file).sources.length = 0 := rfl
  rw [hzero] at hindices
  simp only [ofSegments, hindices, foldl_segments hsources]
  refine ⟨hallFile.trans hfile, hallSources.trans hadded, ?_⟩
  rw [hall, hmappings]
  rfl

theorem mapM_of_forall {α β : Type} {f : α → Option β} {g : α → β} {xs : List α}
    (h : ∀ x ∈ xs, f x = some (g x)) : xs.mapM f = some (xs.map g) := by
  induction xs with
  | nil => rfl
  | cons x xs ih =>
    obtain ⟨hx, hxs⟩ := List.forall_mem_cons.1 h
    rw [List.mapM_cons, hx, ih hxs]
    rfl

theorem toList?_map {α β : Type} {f : Json → Option β} {j : α → Json} {g : α → β} (xs : List α)
    (h : ∀ x, f (j x) = some (g x)) : Json.toList? f (.array (xs.map j)) = some (xs.map g) := by
  rw [Json.toList?, List.mapM_map]
  exact mapM_of_forall fun x _ => h x

/-- The text of the segments of a map. -/
def segmentsText (m : PositionMap) : String :=
  String.ofList (writeSegments 0 .start none (m.mappings.map m.segment))

/-- The contents that are written: none at all if no source has one. -/
def writtenContents (m : PositionMap) : List (Option String) :=
  if m.sources.any (·.content.isSome) then m.sources.map Source.content else []

/-- What a map is written with, as it is read. -/
def writtenFields (m : PositionMap) : V3Fields :=
  ⟨m.file.map .string, m.sources.map fun s => some s.name, none, m.writtenContents, 0,
    m.segmentsText, ""⟩

/-- The fields of a written map. -/
def fields (m : PositionMap) : List (String × Json) :=
  [("version", .nat 3)] ++
    (match m.file with
      | some file => [("file", .string file)]
      | none => []) ++
    [("sources", .ofStrings (m.sources.map Source.name))] ++
    (if m.sources.any (·.content.isSome) then
      [("sourcesContent", .array (m.sources.map fun s => .ofOption .string s.content))]
    else []) ++
    [("names", .array []), ("mappings", .string m.segmentsText)]

theorem toV3_eq (m : PositionMap) : m.toV3 = .object m.fields := rfl

/-- The field of a written map with a given name. -/
theorem field?_fields (m : PositionMap) (name : String) :
    Json.field? m.fields name = some
      (if name = "version" then some (.nat 3)
      else if name = "file" then m.file.map .string
      else if name = "sources" then some (.array (m.sources.map fun s => .string s.name))
      else if name = "sourcesContent" then
        if m.sources.any (·.content.isSome) then
          some (.array (m.sources.map fun s => .ofOption .string s.content))
        else none
      else if name = "names" then some (.array [])
      else if name = "mappings" then some (.string m.segmentsText)
      else none) := by
  unfold fields Json.field? Json.ofStrings
  cases m.file <;> by_cases hcontents : m.sources.any (·.content.isSome) = true
  all_goals
    simp only [hcontents, if_true, List.map_map]
    by_cases h1 : name = "version"
    · subst h1; rfl
    by_cases h2 : name = "file"
    · subst h2; rfl
    by_cases h3 : name = "sources"
    · subst h3; rfl
    by_cases h4 : name = "sourcesContent"
    · subst h4; rfl
    by_cases h5 : name = "names"
    · subst h5; rfl
    by_cases h6 : name = "mappings"
    · subst h6; rfl
    simp [h1, h2, h3, h4, h5, h6, Ne.symm h1, Ne.symm h2, Ne.symm h3, Ne.symm h4, Ne.symm h5,
      Ne.symm h6]

theorem optional?_fields_of_none {α : Type} {m : PositionMap} {name : String} (f : Json → Option α)
    (h : name ∉ ["version", "file", "sources", "sourcesContent", "names", "mappings"]) :
    Json.optional? m.fields name f = some none := by
  simp only [List.mem_cons, List.not_mem_nil, or_false, not_or] at h
  obtain ⟨h1, h2, h3, h4, h5, h6⟩ := h
  rw [Json.optional?, field?_fields, if_neg h1, if_neg h2, if_neg h3, if_neg h4, if_neg h5,
    if_neg h6]

theorem ofFields?_fields (m : PositionMap) :
    V3Fields.ofFields? m.fields = some m.writtenFields := by
  have hversion : Json.optional? m.fields "version" Json.toWord? = some (some 3) := by
    rw [Json.optional?, field?_fields]
    rfl
  have hfile : Json.optional? m.fields "file" some = some (m.file.map .string) := by
    rw [Json.optional?, field?_fields]
    cases m.file <;> rfl
  have hsources : Json.optional? m.fields "sources" (Json.toList? (Json.toOption? Json.toText?)) =
      some (some (m.sources.map fun s => some s.name)) := by
    have hlist := toList?_map (f := Json.toOption? Json.toText?) (j := fun s => .string s.name)
      (g := fun s => some s.name) m.sources fun _ => rfl
    rw [Json.optional?, field?_fields]
    exact congrArg (Option.map some) hlist
  have hcontents : Json.optional? m.fields "sourcesContent"
      (Json.toList? (Json.toOption? Json.toText?)) =
        some (if m.sources.any (·.content.isSome) then some (m.sources.map Source.content)
          else none) := by
    have hlist := toList?_map (f := Json.toOption? Json.toText?)
      (j := fun s => .ofOption .string s.content) (g := Source.content) m.sources
      fun s => by cases s.content <;> rfl
    rw [Json.optional?, field?_fields]
    by_cases h : m.sources.any (·.content.isSome) = true
    · simp only [h, if_true]
      exact congrArg (Option.map some) hlist
    · simp only [h]
      rfl
  have hnames : Json.optional? m.fields "names" (Json.toList? some) = some (some []) := by
    rw [Json.optional?, field?_fields]
    rfl
  have hmappings : Json.optional? m.fields "mappings" Json.toText? =
      some (some m.segmentsText) := by
    rw [Json.optional?, field?_fields]
    rfl
  have hempty : (if m.sources.any (·.content.isSome) then some (m.sources.map Source.content)
      else none).getD [] = m.writtenContents := by
    rw [writtenContents]
    split <;> rfl
  simp only [V3Fields.ofFields?, hversion, hfile, hsources, hcontents, hnames, hmappings,
    optional?_fields_of_none _ (by decide : "sourceRoot" ∉ _),
    optional?_fields_of_none _ (by decide : "rangeMappings" ∉ _),
    optional?_fields_of_none _ (by decide : "ignoreList" ∉ _),
    optional?_fields_of_none _ (by decide : "x_facebook_offsets" ∉ _),
    optional?_fields_of_none _ (by decide : "x_metro_module_paths" ∉ _), bind, Option.bind, hempty]
  rfl

/-- A written map is read by its segments; it has no part that makes it another kind of map. -/
theorem ofFields_fields (m : PositionMap) (depth : Nat) :
    ofFields (depth + 1) m.fields = m.writtenFields.toMap := by
  rw [ofFields, ofFields?_fields, optional?_fields_of_none _ (by decide : "sections" ∉ _),
    optional?_fields_of_none _ (by decide : "x_facebook_sources" ∉ _)]
  cases h : m.writtenFields.toMap <;> simp [h]

theorem toV3_fitsDepth (m : PositionMap) : m.toV3.FitsDepth 127 := by
  have harray (items : List (Option String)) :
      Json.FitsDepth 126 (.array (items.map (.ofOption .string))) := by
    rw [Json.FitsDepth, Json.itemsFitDepth_iff]
    refine ⟨by decide, fun v hv => ?_⟩
    obtain ⟨item, _, rfl⟩ := List.mem_map.1 hv
    cases item <;> trivial
  have hsources := harray (m.sources.map fun s => some s.name)
  have hcontents := harray (m.sources.map Source.content)
  rw [List.map_map] at hsources hcontents
  rw [toV3_eq, Json.FitsDepth, Json.fieldsFitDepth_iff]
  refine ⟨by decide, fun f hf => ?_⟩
  simp only [fields, List.mem_append, List.mem_cons, List.not_mem_nil, or_false] at hf
  rcases hf with ((((rfl | hf) | rfl) | hf) | rfl | rfl)
  · trivial
  · split at hf
    next =>
      rw [List.mem_singleton.1 hf]
      trivial
    next => cases hf
  · rw [Json.ofStrings, List.map_map]
    exact hsources
  · split at hf
    next =>
      rw [List.mem_singleton.1 hf]
      exact hcontents
    next => cases hf
  · exact ⟨by decide, trivial⟩
  · trivial

theorem ofV3Text_toV3Text (m : PositionMap) : ofV3Text m.toV3Text = m.writtenFields.toMap := by
  have hparse : Json.parse? m.toV3Text.toList = some (.object m.fields) := by
    rw [← toV3_eq]
    exact Json.parse?_render m.toV3_fitsDepth
  have hheader : dropHeader m.toV3Text.toList = .ok m.toV3Text.toList := by
    rw [toV3Text, Json.render, String.toList_ofList, toV3_eq]
    rfl
  rw [ofV3Text, hheader]
  simp only [hparse]
  exact ofFields_fields m 63

theorem ofV3Bytes_toUTF8 (text : String) : ofV3Bytes text.toUTF8 = ofV3Text text := by
  have hvalid : String.fromUTF8? text.toUTF8 = some text := dif_pos text.isValidUTF8
  rw [ofV3Bytes, hvalid]

theorem zip_map_contents (sources : List Source) (rest : List (Option String)) :
    (sources.map Source.name).zip (sources.map Source.content ++ rest) =
      sources.map fun s => (s.name, s.content) := by
  induction sources with
  | nil => rfl
  | cons s sources ih => exact congrArg ((s.name, s.content) :: ·) ih

/-- The contents that are written, and none where there are no more, belong to the sources. -/
theorem zip_writtenContents (m : PositionMap) :
    (m.sources.map Source.name).zip
        (m.writtenContents ++ List.replicate m.sources.length none) =
      m.sources.map fun s => (s.name, s.content) := by
  unfold writtenContents
  split
  next => exact zip_map_contents m.sources _
  next h =>
    have hnone : List.replicate m.sources.length none = m.sources.map Source.content := by
      refine (List.eq_replicate_iff.2 ⟨List.length_map _, fun c hc => ?_⟩).symm
      obtain ⟨s, hs, rfl⟩ := List.mem_map.1 hc
      by_contra hsome
      exact h (List.any_eq_true.2 ⟨s, hs, Option.isSome_iff_ne_none.2 hsome⟩)
    have hzip := zip_map_contents m.sources []
    rwa [List.append_nil, ← hnone] at hzip

/-- The segments that are read from a written map. -/
theorem readLines_segmentsText (m : PositionMap) :
    ∃ ts, readLines m.sources.length 0 0 .start (Text.splitOn ';' m.segmentsText.toList)
        (Text.splitOn ';' "".toList) = .ok ts ∧
      List.Forall₂ Segment.Same (withoutRepeats none (m.mappings.map m.segment)) ts := by
  rw [segmentsText, String.toList_ofList]
  refine readLines_writeSegments (fun s hs => ?_) (fun r hr => List.mem_singleton.1 hr)
  obtain ⟨x, _, rfl⟩ := List.mem_map.1 hs
  exact m.segment_hasSource x

theorem toMap_writtenFields {m : PositionMap} {ts : List Segment}
    (h : readLines m.sources.length 0 0 .start (Text.splitOn ';' m.segmentsText.toList)
      (Text.splitOn ';' "".toList) = .ok ts) :
    m.writtenFields.toMap =
      .ok (ofSegments m.file (m.sources.map fun s => (s.name, s.content)) ts) := by
  have hfile : (m.file.map Json.string).map fileName = m.file := by
    cases m.file <;> rfl
  have hnames : (m.sources.map fun s => some s.name).map (fun s => underRoot none (s.getD "")) =
      m.sources.map Source.name := by
    rw [List.map_map]
    rfl
  have hcontents : (m.writtenContents.map some ++ List.replicate m.sources.length none).map
      Option.join = m.writtenContents ++ List.replicate m.sources.length none := by
    rw [List.map_append, List.map_map, List.map_replicate]
    exact congrArg (· ++ _) (List.map_id _)
  simp only [V3Fields.toMap, writtenFields, hnames, List.length_map, h, Except.map, hfile,
    hcontents, zip_writtenContents]

/-- Writing a map and reading it again succeeds, with a map that has the same file, sources and
contents and that answers every lookup as the first one does. Any map is allowed whose indices of
sources are words, be there such sources or not. -/
theorem ofV3Bytes_toV3Text (m : PositionMap)
    (h : ∀ x ∈ m.mappings, ∀ o ∈ x.original, o.source < UInt32.size) :
    ∃ n, ofV3Bytes m.toV3Text.toUTF8 = .ok n ∧ n.file = m.file ∧ n.sources = m.sources ∧
      ∀ p, n.lookup p = m.lookup p := by
  obtain ⟨ts, hread, hsame⟩ := readLines_segmentsText m
  have hkept := withoutRepeats_sublist none (m.mappings.map m.segment)
  have hmappings := map_mapping_of_same hsame
  have hsources : ∀ t ∈ ts, t.HasSource m.sources.length := by
    refine hasSource_of_same hsame fun s hs => ?_
    obtain ⟨x, _, rfl⟩ := List.mem_map.1 (hkept.subset hs)
    exact m.segment_hasSource x
  have hsegments : (m.mappings.map m.segment).Pairwise fun s t => s.generated ≤ t.generated := by
    refine List.pairwise_map.2 (m.ordered.imp fun {x y} hxy => ?_)
    rwa [segment_generated, segment_generated]
  have hordered : ts.Pairwise fun s t => s.generated ≤ t.generated := by
    have hmapped : (ts.map Segment.mapping).Pairwise fun x y => x.generated ≤ y.generated := by
      rw [hmappings]
      exact List.pairwise_map.2 (hsegments.sublist hkept)
    exact (List.pairwise_map (f := Segment.mapping)).1 hmapped
  obtain ⟨hfile, hnames, hall⟩ :=
    ofSegments_of_ordered m.file m.names hsources hordered
  refine ⟨_, ?_, hfile, hnames, fun p => ?_⟩
  · rw [ofV3Bytes_toUTF8, ofV3Text_toV3Text, toMap_writtenFields hread]
  · refine lookup_of_forall₂ p m.mappings (m.mappings.map fun x => (m.segment x).mapping) rfl ?_ ?_
    · rw [hall, hmappings, nearest_withoutRepeats, List.map_map]
      rfl
    · refine List.forall₂_map_right_iff.2 (List.forall₂_same.2 fun x hx => ?_)
      exact resolve_segment hnames (h x hx)

/-- A map with a mapping given twice, one out of order, one to a source that is not there, one on
the last line there is, and a content with a quote, a control character and a line feed. -/
def repeating : PositionMap :=
  let m := ((empty.withFile "b\u00e9.js").addSource "a \"b\".svelte").1.setContent 0 "\"\u0001\n"
  let m := ((m.addSource "").1.add ⟨7, 4294967295⟩ 0 ⟨4294967295, 3⟩).add ⟨0, 4⟩ 1 ⟨2, 2⟩
  ((m.add ⟨0, 4⟩ 1 ⟨2, 2⟩).add ⟨3, 0⟩ 9 ⟨0, 0⟩).addMapping ⟨4294967295, 1⟩ none

theorem ofV3Bytes_toV3Text_of_repeating :
    (∀ x ∈ repeating.mappings, ∀ o ∈ x.original, o.source < UInt32.size) ∧
      ∃ n, ofV3Bytes repeating.toV3Text.toUTF8 = .ok n ∧ n.file = some "b\u00e9.js" ∧
        n.sources = [⟨"a \"b\".svelte", some "\"\u0001\n"⟩, ⟨"", none⟩] ∧
        n.lookup ⟨0, 9⟩ = some ⟨"", ⟨2, 2⟩⟩ ∧ n.lookup ⟨3, 1⟩ = none ∧
        n.lookup ⟨7, 4294967295⟩ = some ⟨"a \"b\".svelte", ⟨4294967295, 3⟩⟩ := by
  have hwords : ∀ x ∈ repeating.mappings, ∀ o ∈ x.original, o.source < UInt32.size := by decide
  obtain ⟨n, hread, hfile, hsources, hlookup⟩ := ofV3Bytes_toV3Text repeating hwords
  refine ⟨hwords, n, hread, ?_, ?_, ?_, ?_, ?_⟩
  · rw [hfile]
    decide
  · rw [hsources]
    decide
  · rw [hlookup]
    decide
  · rw [hlookup]
    decide
  · rw [hlookup]
    decide

end ComponentBuild.PositionMap
