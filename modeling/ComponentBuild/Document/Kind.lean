import ComponentBuild.Document.Scan

namespace ComponentBuild

inductive Document where
  | component (c : Component)
  | markup (parts : List HtmlPart)
  deriving DecidableEq, Repr

/-- The text behind the last dot, if there is one. -/
def lastExtension? (name : List Char) : Option (List Char) :=
  if name.contains '.' then some (name.reverse.takeWhile (· != '.')).reverse else none

/-- Only `html` files can be plain markup, and they are if they have a `head` or a `body`. -/
def Document.detect (filename source : String) : Except ScanError Document :=
  match scan source with
  | .error e => .error e
  | .ok result =>
    if lastExtension? filename.toList = some "html".toList ∧ ¬ result.html.isEmpty then
      .ok (.markup result.html)
    else .ok (.component result.component)

end ComponentBuild
