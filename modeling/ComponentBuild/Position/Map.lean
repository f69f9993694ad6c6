import ComponentBuild.Position.LineCol

namespace ComponentBuild

/-- A named text, with its content where that is embedded. -/
structure Source where
  name : String
  content : Option String
  deriving DecidableEq, Repr, Inhabited

/-- A place in the source with the given index. -/
structure Location where
  source : Nat
  position : LineCol
  deriving DecidableEq, Repr, Inhabited

/-- Without an original, a mapping marks generated text that came from nowhere. -/
structure Mapping where
  generated : LineCol
  original : Option Location
  deriving DecidableEq, Repr, Inhabited

/-- The mapping of a part, as the whole holds it: its generated position counts from
`generatedBase`, its original one from `originalBase`. -/
def Mapping.shift (x : Mapping) (generatedBase originalBase : LineCol) (source : Nat) :
    Checked Mapping := do
  let original ← x.original.mapM fun o => return ⟨source, ← o.position.relativeTo originalBase⟩
  return ⟨← x.generated.relativeTo generatedBase, original⟩

/-- A place in a source, by the name of the source. -/
structure Resolved where
  source : String
  position : LineCol
  deriving DecidableEq, Repr, Inhabited

/-- Puts a mapping behind all that are not later than it. -/
def insertMapping (x : Mapping) : List Mapping → List Mapping
  | [] => [x]
  | y :: ys => if y.generated ≤ x.generated then y :: insertMapping x ys else x :: y :: ys

theorem mem_insertMapping {x y : Mapping} {xs : List Mapping} :
    y ∈ insertMapping x xs ↔ y = x ∨ y ∈ xs := by
  induction xs with
  | nil => simp [insertMapping]
  | cons z zs ih =>
    simp only [insertMapping]
    split
    · simp only [List.mem_cons, ih]
      exact or_left_comm
    · simp only [List.mem_cons]

theorem insertMapping_ordered {x : Mapping} {xs : List Mapping}
    (h : xs.Pairwise fun a b => a.generated ≤ b.generated) :
    (insertMapping x xs).Pairwise fun a b => a.generated ≤ b.generated := by
  induction xs with
  | nil => exact List.pairwise_singleton _ _
  | cons y ys ih =>
    obtain ⟨hy, hys⟩ := List.pairwise_cons.1 h
    simp only [insertMapping]
    split
    next hle =>
      refine List.pairwise_cons.2 ⟨fun z hz => ?_, ih hys⟩
      rcases mem_insertMapping.1 hz with rfl | hz
      · exact hle
      · exact hy z hz
    next hgt =>
      have hlt : x.generated ≤ y.generated := LineCol.le_of_lt ((LineCol.not_le_iff _ _).1 hgt)
      refine List.pairwise_cons.2 ⟨fun z hz => ?_, h⟩
      rcases List.mem_cons.1 hz with rfl | hz
      · exact hlt
      · exact LineCol.le_trans hlt (hy z hz)

/-- What one stage knows about where its output came from. Mappings are in the order of their
generated positions, equal ones in the order they were added; no two sources share a name. -/
structure PositionMap where
  file : Option String
  sources : List Source
  mappings : List Mapping
  names : (sources.map Source.name).Nodup
  ordered : mappings.Pairwise fun x y => x.generated ≤ y.generated
  deriving DecidableEq, Repr

namespace PositionMap

def empty : PositionMap := ⟨none, [], [], .nil, .nil⟩

instance : Inhabited PositionMap := ⟨empty⟩

def ofFile (file : Option String) : PositionMap := { empty with file }

def withFile (m : PositionMap) (file : String) : PositionMap := { m with file := some file }

def sourceName? (m : PositionMap) (index : Nat) : Option String :=
  m.sources[index]?.map Source.name

def sourceContent? (m : PositionMap) (index : Nat) : Option String :=
  m.sources[index]?.bind Source.content

theorem names_append {sources : List Source} {name : String}
    (h : (sources.map Source.name).Nodup)
    (hi : sources.findIdx? (·.name == name) = none) :
    ((sources ++ [Source.mk name none]).map Source.name).Nodup := by
  rw [List.map_append, List.nodup_append]
  refine ⟨h, List.pairwise_singleton _ _, fun a ha b hb => ?_⟩
  obtain ⟨s, hs, rfl⟩ := List.mem_map.1 ha
  rw [List.map_singleton, List.mem_singleton] at hb
  simpa only [hb, beq_eq_false_iff_ne] using List.findIdx?_eq_none_iff.1 hi s hs

/-- The index of a source with this name, and the map that holds it. -/
def addSource (m : PositionMap) (name : String) : PositionMap × Nat :=
  match h : m.sources.findIdx? (·.name == name) with
  | some index => (m, index)
  | none =>
    ({ m with sources := m.sources ++ [⟨name, none⟩], names := names_append m.names h },
      m.sources.length)

theorem addSource_mappings (m : PositionMap) (name : String) :
    (m.addSource name).1.mappings = m.mappings := by
  unfold addSource
  split <;> rfl

/-- A source that is new stands behind the others. -/
theorem addSource_sources (m : PositionMap) (name : String) :
    (m.addSource name).1.sources = m.sources ∨
      (m.addSource name).1.sources = m.sources ++ [⟨name, none⟩] := by
  unfold addSource
  split
  · exact .inl rfl
  · exact .inr rfl

theorem sourceName?_addSource (m : PositionMap) (name : String) :
    (m.addSource name).1.sourceName? (m.addSource name).2 = some name := by
  unfold addSource
  split
  next index h =>
    obtain ⟨hi, hn, -⟩ := List.findIdx?_eq_some_iff_getElem.1 h
    simpa [sourceName?, List.getElem?_eq_getElem hi] using hn
  next => simp [sourceName?]

theorem names_setContent (sources : List Source) (index : Nat) (content : Option String) :
    (sources.modify index fun s => { s with content }).map Source.name =
      sources.map Source.name := by
  apply List.ext_getElem?
  intro i
  rw [List.getElem?_map, List.getElem?_map, List.getElem?_modify]
  split <;> cases sources[i]? <;> rfl

/-- Embeds the content of a source; an index that names no source changes nothing. -/
def setContent (m : PositionMap) (index : Nat) (content : String) : PositionMap :=
  { m with
    sources := m.sources.modify index fun s => { s with content := some content }
    names := by rw [names_setContent]; exact m.names }

def addMapping (m : PositionMap) (generated : LineCol) (original : Option Location) :
    PositionMap :=
  { m with
    mappings := insertMapping ⟨generated, original⟩ m.mappings
    ordered := insertMapping_ordered m.ordered }

def add (m : PositionMap) (generated : LineCol) (source : Nat) (original : LineCol) :
    PositionMap :=
  m.addMapping generated (some ⟨source, original⟩)

/-- The first of the mappings at the greatest position not behind `p`. -/
def nearest (p : LineCol) : List Mapping → Option Mapping
  | [] => none
  | x :: xs =>
    if x.generated ≤ p then
      match nearest p xs with
      | none => some x
      | some y => if x.generated < y.generated then some y else some x
    else none

/-- Where a generated position came from, by the nearest mapping on its line. -/
def lookup (m : PositionMap) (p : LineCol) : Option Resolved :=
  (nearest p m.mappings).bind fun x =>
    if x.generated.line = p.line then
      x.original.bind fun o => (m.sourceName? o.source).map (⟨·, o.position⟩)
    else none

/-- The mappings of a part, as the whole holds them. -/
def shiftMappings (part : PositionMap) (generatedBase originalBase : LineCol) (source : Nat) :
    Checked (List Mapping) :=
  part.mappings.mapM (·.shift generatedBase originalBase source)

/-- Adds the mappings of a part: its generated positions count from `generatedBase`, its original
ones from `originalBase`, and every original place belongs to `source`. -/
def extendShifted (m part : PositionMap) (generatedBase originalBase : LineCol) (source : Nat) :
    Checked PositionMap := do
  let mappings ← part.shiftMappings generatedBase originalBase source
  return mappings.foldl (fun m x => m.addMapping x.generated x.original) m

end PositionMap

end ComponentBuild
