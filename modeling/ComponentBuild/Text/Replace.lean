namespace ComponentBuild.Text

/-- Puts a text in the place of each occurrence of a pattern, from the left; `skip` characters
belong to the occurrence in front. -/
def replaceFrom (pattern replacement : List Char) (skip : Nat) : List Char → List Char
  | [] => []
  | c :: cs =>
    if skip > 0 then replaceFrom pattern replacement (skip - 1) cs
    else if pattern.isPrefixOf (c :: cs) then
      replacement ++ replaceFrom pattern replacement (pattern.length - 1) cs
    else c :: replaceFrom pattern replacement 0 cs

/-- Puts a text in the place of each occurrence of a pattern. An empty pattern occurs nowhere. -/
def replaceAll (pattern replacement text : String) : String :=
  if pattern.isEmpty then text
  else String.ofList (replaceFrom pattern.toList replacement.toList 0 text.toList)

end ComponentBuild.Text
