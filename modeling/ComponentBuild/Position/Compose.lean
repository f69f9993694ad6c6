import ComponentBuild.Position.Map

namespace ComponentBuild.PositionMap

/-- Where a mapping of the later stage leads in front of the earlier one. -/
def follow (earlier : PositionMap) (x : Mapping) : Option Resolved :=
  x.original.bind fun o => earlier.lookup o.position

/-- Adds what one mapping of the later stage says about the text in front of the earlier one. -/
def composeMapping (earlier : PositionMap) (m : PositionMap) (x : Mapping) : PositionMap :=
  match earlier.follow x with
  | none => m
  | some found =>
    let (m, source) := m.addSource found.source
    m.add x.generated source found.position

/-- The map from the output of the later stage to the input of the earlier one. A mapping that
the earlier stage cannot follow is dropped; the content of the earlier stage's first source is
kept. -/
def compose (later earlier : PositionMap) : PositionMap :=
  let m := later.mappings.foldl (composeMapping earlier) (ofFile later.file)
  match earlier.sourceName? 0, earlier.sourceContent? 0 with
  | some name, some content =>
    let (m, source) := m.addSource name
    m.setContent source content
  | _, _ => m

/-- A stage without a map moved nothing. -/
def composeOptional (later earlier : Option PositionMap) : Option PositionMap :=
  match later, earlier with
  | some later, some earlier => some (compose later earlier)
  | some m, none => some m
  | none, other => other

end ComponentBuild.PositionMap
