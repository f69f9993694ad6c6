import ComponentBuild.Document.Section
import ComponentBuild.Script.Parse

namespace ComponentBuild

inductive ScriptLanguage where
  | javascript
  | typescript
  | coffeescript
  deriving DecidableEq, Repr, Inhabited

namespace ScriptLanguage

/-- The language that a section names. A name that is not known stands for JavaScript. -/
def ofName : Option String → ScriptLanguage
  | some "ts" | some "typescript" => typescript
  | some "coffee" | some "coffeescript" => coffeescript
  | _ => javascript

def name : ScriptLanguage → String
  | javascript => "javascript"
  | typescript => "typescript"
  | coffeescript => "coffeescript"

/-- How scripts of the language are parsed, if they are. -/
def dialect? : ScriptLanguage → Option Script.Dialect
  | javascript => some .javascript
  | typescript => some .typescript
  | coffeescript => none

/-- Whether a tool has to turn the script into JavaScript. -/
def needsTool (l : ScriptLanguage) : Bool := l != javascript

end ScriptLanguage

inductive StyleLanguage where
  | css
  | postcss
  | less
  | scss
  | sass
  deriving DecidableEq, Repr, Inhabited

namespace StyleLanguage

/-- The language that a section names. A name that is not known stands for plain styles. -/
def ofName : Option String → StyleLanguage
  | some "postcss" | some "pcss" => postcss
  | some "less" => less
  | some "scss" => scss
  | some "sass" => sass
  | _ => css

def name : StyleLanguage → String
  | css => "css"
  | postcss => "postcss"
  | less => "less"
  | scss => "scss"
  | sass => "sass"

end StyleLanguage

inductive SectionLanguage where
  | script (l : ScriptLanguage)
  | style (l : StyleLanguage)
  deriving DecidableEq, Repr, Inhabited

namespace SectionLanguage

def kindName : SectionLanguage → String
  | script _ => "script"
  | style _ => "style"

def name : SectionLanguage → String
  | script l => l.name
  | style l => l.name

end SectionLanguage

end ComponentBuild
