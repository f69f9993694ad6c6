import ComponentBuild.Build.Arguments
import ComponentBuild.Text.Similar

namespace ComponentBuild

namespace Flag

def purpose : Flag → String
  | workspace => "Project root to compile"
  | outDir => "Output directory, relative to the workspace"
  | config => "Path to melte.config.json (defaults to the one in the workspace)"
  | target => "Where the compiled components run"
  | production => "Compile without dev checks"
  | hot => "Add hot-reload instrumentation to browser output"
  | hydratable => "Compile browser output for hydration of server-rendered markup"
  | noCss => "Leave component CSS out of the browser output"
  | workers => "Number of bun host processes"
  | watch => "Watch mode"
  | preserveWatchOutput => "Preserve watch output (don't clear screen)"
  | ignore => "Glob patterns to ignore"
  | verbose => "Log pipeline stages (same as RUST_LOG=debug)"
  | bunVersion => "Show bun version and installation path"
  | help => "Print help"
  | version => "Print version"

/-- The value of an option that is not given. -/
def default? : Flag → Option String
  | workspace => some "."
  | outDir => some "build"
  | target => some "browser"
  | _ => none

/-- The values an option can have, with their meanings, if they can be listed. -/
def choices : Flag → List (String × String)
  | target => [("browser", "Client-side components (default)"), ("server", "Server-side rendering")]
  | _ => []

/-- How the two forms of help point at each other. -/
def seeAlso : Flag → Bool → String
  | help, true => " (see a summary with '-h')"
  | help, false => " (see more with '--help')"
  | _, _ => ""

def spec (f : Flag) : String :=
  "  " ++ (match f.short? with
    | some c => String.ofList ['-', c, ',', ' ']
    | none => "    ") ++ f.text

end Flag

namespace Usage

def blanks (n : Nat) : String := String.ofList (List.replicate n ' ')

def choiceList (choices : List (String × String)) : String :=
  "[possible values: " ++ ", ".intercalate (choices.map Prod.fst) ++ "]"

def defaultText (value : String) : String := "[default: " ++ value ++ "]"

/-- The column in which the short help starts. -/
def helpColumn : Nat := (Flag.all.map (·.spec.length)).foldl max 0 + 2

def shortEntry (f : Flag) : String :=
  let choices := if f.choices.isEmpty then [] else [choiceList f.choices]
  let help := [f.purpose ++ f.seeAlso false] ++ (f.default?.map defaultText).toList ++ choices
  f.spec ++ blanks (helpColumn - f.spec.length) ++ " ".intercalate help ++ "\n"

/-- The margin of the long help. -/
def margin : String := blanks 10

def choiceEntries (choices : List (String × String)) : String :=
  let width := (choices.map (·.1.length)).foldl max 0
  String.join (choices.map fun (name, meaning) =>
    margin ++ "- " ++ name ++ ": " ++ blanks (width - name.length) ++ meaning ++ "\n")

def longEntry (f : Flag) : String :=
  f.spec ++ "\n" ++ margin ++ f.purpose ++ f.seeAlso true ++ "\n" ++
    (match f.default? with
      | some value => margin ++ "\n" ++ margin ++ defaultText value ++ "\n"
      | none => "") ++
    (if f.choices.isEmpty then ""
      else "\n" ++ margin ++ "Possible values:\n" ++ choiceEntries f.choices)

def line (used : List Flag) : String :=
  "Usage: melte" ++
    (if used.isEmpty then " [OPTIONS]" else String.join (used.map (" " ++ ·.text)))

def helpText (long : Bool) : String :=
  "Build tool compiling Svelte components with reactive tracking\n\n" ++ line [] ++
    "\n\nOptions:\n" ++
    (if long then "\n".intercalate (Flag.all.map longEntry)
      else String.join (Flag.all.map shortEntry))

def versionText : String := "melte 0.3.0\n"

end Usage

namespace ArgumentError

/-- The option that an argument may stand for. -/
def meant? (argument : String) : Option Flag := do
  let '-' :: '-' :: name := argument.toList | none
  let long ← Text.closest? (String.ofList name) (Flag.all.map Flag.long)
  Flag.ofLong? long.toList

/-- The value that a text may stand for. -/
def meantValue? (f : Flag) (value : String) : Option String :=
  Text.closest? value (f.choices.map Prod.fst)

def choiceLine (f : Flag) : String :=
  if f.choices.isEmpty then "" else "\n  " ++ Usage.choiceList f.choices

def tip (kind guess : String) : String :=
  "\n\n  tip: a similar " ++ kind ++ " exists: '" ++ guess ++ "'"

/-- What is wrong, in the words that follow "error: ". -/
def description : ArgumentError → String
  | missingValue f =>
    "a value is required for '" ++ f.text ++ "' but none was supplied" ++ choiceLine f
  | badValue f "" =>
    "a value is required for '" ++ f.text ++ "' but none was supplied" ++ choiceLine f
  | badValue f value =>
    "invalid value '" ++ value ++ "' for '" ++ f.text ++ "'" ++ choiceLine f ++
      ((meantValue? f value).map (tip "value")).getD ""
  | badCount f value fault =>
    "invalid value '" ++ value ++ "' for '" ++ f.text ++ "': " ++ fault.message
  | unknown argument used =>
    let meant := meant? argument
    "unexpected argument '" ++ argument ++ "' found" ++
      ((meant.map fun f => tip "argument" ("--" ++ f.long)).getD "") ++ "\n\n" ++
      Usage.line (used ++ (meant.toList.filter (!used.contains ·)))
  | repeated f =>
    "the argument '" ++ f.text ++ "' cannot be used multiple times\n\n" ++ Usage.line []
  | needlessValue f value used =>
    "unexpected value '" ++ value ++ "' for '" ++ f.text ++
      "' found; no more were expected\n\n" ++ Usage.line used
  | help long => Usage.helpText long
  | version => Usage.versionText

/-- Whether the program was only asked to tell something. -/
def isRequest : ArgumentError → Bool
  | help _ => true
  | version => true
  | _ => false

def message (e : ArgumentError) : String :=
  if e.isRequest then e.description
  else "error: " ++ e.description ++ "\n\nFor more information, try '--help'.\n"

end ArgumentError

end ComponentBuild
