import ComponentBuild.Text.Span

namespace ComponentBuild

inductive SectionKind where
  | script
  | style
  deriving DecidableEq, Repr, Inhabited

/-- An attribute of an opening tag. One without a value is a flag; an expression keeps its
braces. -/
structure Attribute where
  name : String
  value : Option String
  span : Span
  deriving DecidableEq, Repr, Inhabited

inductive ScriptContext where
  | perInstance
  | perModule
  deriving DecidableEq, Repr, Inhabited

/-- A script or style at the top level of a document. -/
structure Section where
  kind : SectionKind
  /-- The whole element with its tags. -/
  span : Span
  contentSpan : Span
  content : String
  attributes : List Attribute
  deriving DecidableEq, Repr, Inhabited

namespace Section

/-- The first attribute of a name. -/
def attribute? (s : Section) (name : String) : Option Attribute :=
  s.attributes.find? (·.name == name)

def attributeValue? (s : Section) (name : String) : Option String :=
  (s.attribute? name).bind Attribute.value

/-- A media type without the `text/` in front. -/
def mediaSubtype (type : String) : String :=
  if "text/".toList.isPrefixOf type.toList then String.ofList (type.toList.drop 5) else type

/-- The language a section names: its `lang`, or else its `type`. -/
def lang? (s : Section) : Option String :=
  match s.attributeValue? "lang" with
  | some lang => some lang
  | none => (s.attributeValue? "type").map mediaSubtype

def context (s : Section) : ScriptContext :=
  if s.attributeValue? "context" == some "module" || (s.attribute? "module").isSome then .perModule
  else .perInstance

end Section

/-- The sections of a component. All else in the document is markup and stays as it is. -/
structure Component where
  moduleScript : Option Section
  instanceScript : Option Section
  style : Option Section
  deriving DecidableEq, Repr, Inhabited

namespace Component

def empty : Component := ⟨none, none, none⟩

/-- Puts a section in front of all that do not start before it. -/
def insertSection (s : Section) : List Section → List Section
  | [] => [s]
  | t :: ts => if t.span.start < s.span.start then t :: insertSection s ts else s :: t :: ts

def sections (c : Component) : List Section :=
  ([c.moduleScript, c.instanceScript, c.style].filterMap id).foldr insertSection []

end Component

/-- The part of a page that plain markup goes into. -/
inductive HtmlRegion where
  | head
  | body
  deriving DecidableEq, Repr, Inhabited

def HtmlRegion.name : HtmlRegion → String
  | head => "head"
  | body => "body"

/-- The markup inside a `head` or `body`, without blanks at its ends. -/
structure HtmlPart where
  region : HtmlRegion
  data : String
  deriving DecidableEq, Repr, Inhabited

end ComponentBuild
