namespace ComponentBuild.Text

/-- The text with the ASCII letters in lower case. -/
def lowercase (cs : List Char) : List Char := cs.map Char.toLower

def isAsciiAlpha (c : Char) : Bool := c.isAlpha

def isAsciiAlphanum (c : Char) : Bool := c.isAlphanum

end ComponentBuild.Text
