import ComponentBuild.Json.Reader
import ComponentBuild.Tool.Options

namespace ComponentBuild

/-- What the program is asked to do. -/
structure Arguments where
  workspace : Path := ⟨"."⟩
  outDir : Path := ⟨"build"⟩
  config : Option Path := none
  target : Target := .browser
  production : Bool := false
  hot : Bool := false
  hydratable : Bool := false
  noCss : Bool := false
  workers : Option Nat := none
  watch : Bool := false
  preserveWatchOutput : Bool := false
  ignore : List String := []
  verbose : Bool := false
  bunVersion : Bool := false
  deriving DecidableEq, Repr, Inhabited

inductive Flag where
  | workspace
  | outDir
  | config
  | target
  | production
  | hot
  | hydratable
  | noCss
  | workers
  | watch
  | preserveWatchOutput
  | ignore
  | verbose
  | bunVersion
  | help
  | version
  deriving DecidableEq, Repr, Inhabited

namespace Flag

def all : List Flag :=
  [workspace, outDir, config, target, production, hot, hydratable, noCss, workers, watch,
    preserveWatchOutput, ignore, verbose, bunVersion, help, version]

/-- The name behind two dashes. -/
def long : Flag → String
  | workspace => "workspace"
  | outDir => "out-dir"
  | config => "config"
  | target => "target"
  | production => "production"
  | hot => "hot"
  | hydratable => "hydratable"
  | noCss => "no-css"
  | workers => "workers"
  | watch => "watch"
  | preserveWatchOutput => "preserveWatchOutput"
  | ignore => "ignore"
  | verbose => "verbose"
  | bunVersion => "bun-version"
  | help => "help"
  | version => "version"

/-- The letter behind one dash. -/
def short? : Flag → Option Char
  | verbose => some 'v'
  | help => some 'h'
  | version => some 'V'
  | _ => none

/-- The name of the value, for an option that takes one. -/
def value? : Flag → Option String
  | workspace => some "WORKSPACE"
  | outDir => some "OUT_DIR"
  | config => some "CONFIG"
  | target => some "TARGET"
  | workers => some "WORKERS"
  | ignore => some "IGNORE"
  | _ => none

def ofLong? (name : List Char) : Option Flag := all.find? (·.long.toList == name)

def ofShort? (c : Char) : Option Flag := all.find? (·.short? == some c)

/-- The option as it is written, with the name of its value. -/
def text (f : Flag) : String :=
  "--" ++ f.long ++ (match f.value? with
    | some v => " <" ++ v ++ ">"
    | none => "")

end Flag

/-- Why a text is no number of workers. -/
inductive CountFault where
  | empty
  | badDigit
  | tooLarge
  deriving DecidableEq, Repr, Inhabited

def CountFault.message : CountFault → String
  | empty => "cannot parse integer from empty string"
  | badDigit => "invalid digit found in string"
  | tooLarge => "number too large to fit in target type"

/-- Why the arguments are not run with. Help and version are asked for in this way. -/
inductive ArgumentError where
  | missingValue (f : Flag)
  | badValue (f : Flag) (value : String)
  | badCount (f : Flag) (value : String) (fault : CountFault)
  /-- An argument that is no option, and the options in front of it. -/
  | unknown (argument : String) (used : List Flag)
  | repeated (f : Flag)
  | needlessValue (f : Flag) (value : String) (used : List Flag)
  | help (long : Bool)
  | version
  deriving DecidableEq, Repr, Inhabited

namespace Arguments

/-- A number of workers; a plus sign may stand in front. -/
def parseCount (text : String) : Except CountFault Nat :=
  let digits := match text.toList with
    | '+' :: c :: cs => c :: cs
    | cs => cs
  if text.isEmpty then .error .empty
  else if !digits.all Char.isDigit then .error .badDigit
  else
    let n := Json.natOfDigits digits
    if n < 18446744073709551616 then .ok n else .error .tooLarge

/-- An option that waits for its value, or has it but was not looked at yet. -/
structure Pending where
  flag : Flag
  value : Option String
  deriving DecidableEq, Repr

structure Reading where
  arguments : Arguments
  /-- The options with their values, in the order of their first places. -/
  seen : List Flag
  pending : Option Pending
  deriving Repr

def Reading.start : Reading := ⟨{}, [], none⟩

def take (r : Reading) (f : Flag) (value : Option String) : Except ArgumentError Reading := do
  let value ←
    match f.value?, value with
    | some _, none => throw (.missingValue f)
    | _, v => pure (v.getD "")
  if f != .ignore && r.seen.contains f then throw (.repeated f)
  let a := r.arguments
  let arguments ←
    match f with
    | .workspace => pure { a with workspace := ⟨value⟩ }
    | .outDir => pure { a with outDir := ⟨value⟩ }
    | .config => pure { a with config := some ⟨value⟩ }
    | .target =>
      match [Target.browser, Target.server].find? (·.name == value) with
      | some target => pure { a with target }
      | none => throw (.badValue f value)
    | .workers =>
      match parseCount value with
      | .ok n => pure { a with workers := some n }
      | .error fault => throw (.badCount f value fault)
    | .ignore => pure { a with ignore := a.ignore ++ [value] }
    | .production => pure { a with production := true }
    | .hot => pure { a with hot := true }
    | .hydratable => pure { a with hydratable := true }
    | .noCss => pure { a with noCss := true }
    | .watch => pure { a with watch := true }
    | .preserveWatchOutput => pure { a with preserveWatchOutput := true }
    | .verbose => pure { a with verbose := true }
    | .bunVersion => pure { a with bunVersion := true }
    | .help => throw (.help true)
    | .version => throw .version
  return { r with arguments, seen := if r.seen.contains f then r.seen else r.seen ++ [f] }

/-- Looks at the option that was put off. -/
def settle (r : Reading) : Except ArgumentError Reading :=
  match r.pending with
  | none => .ok r
  | some p => take { r with pending := none } p.flag p.value

def readLong (r : Reading) (body : List Char) : Except ArgumentError Reading := do
  let name := body.takeWhile (· != '=')
  let attached :=
    if body.contains '=' then some (String.ofList (body.drop (name.length + 1))) else none
  match Flag.ofLong? name with
  | none => throw (.unknown (String.ofList ('-' :: '-' :: name)) r.seen)
  | some f =>
    match f.value?, attached with
    | none, some value => throw (.needlessValue f value r.seen)
    | none, none => take (← settle r) f none
    | some _, some value => take (← settle r) f (some value)
    | some _, none => return { (← settle r) with pending := some ⟨f, none⟩ }

def readShort (r : Reading) : List Char → Except ArgumentError Reading
  | [] => .ok r
  | c :: cs =>
    match Flag.ofShort? c with
    | none => .error (.unknown (String.ofList ['-', c]) [])
    | some .help => do
      let _ ← settle r
      throw (.help false)
    | some f => do readShort (← take (← settle r) f none) cs

/-- One argument after the other. Behind two dashes alone there is no option. -/
def readAll (r : Reading) : List String → Except ArgumentError Reading
  | [] => settle r
  | argument :: rest =>
    match argument.toList, r.pending with
    | ['-', '-'], _ =>
      match rest with
      | [] => settle r
      | next :: _ => .error (.unknown next [])
    | '-' :: '-' :: body, _ => do readAll (← readLong r body) rest
    | '-' :: c :: cs, _ => do readAll (← readShort r (c :: cs)) rest
    | _, some ⟨f, none⟩ => readAll { r with pending := some ⟨f, some argument⟩ } rest
    | _, _ => .error (.unknown argument [])

def parse (arguments : List String) : Except ArgumentError Arguments :=
  (readAll .start arguments).map Reading.arguments

end Arguments

end ComponentBuild
