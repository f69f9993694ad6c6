namespace ComponentBuild

inductive HostError where
  | notStarted (cause : String)
  /-- The process ended, with its code and what it told about its failure. -/
  | ended (code : Int) (told : String)
  | notFound
  | noScript (cause : String)
  /-- The process did not keep to the order of messages. -/
  | protocol (cause : String)
  /-- A line of the process is no message. -/
  | unreadable (cause : String)
  deriving DecidableEq, Repr, Inhabited

def HostError.message : HostError → String
  | notStarted cause => "failed to spawn bun: " ++ cause
  | ended code told => "bun exited with code " ++ toString code ++ ": " ++ told
  | notFound => "bun binary not found; install it from https://bun.sh or add it to node_modules/.bin"
  | noScript cause => "failed to prepare bun host script: " ++ cause
  | protocol cause => "bun host protocol error: " ++ cause
  | unreadable cause => "failed to parse bun response: " ++ cause

end ComponentBuild
