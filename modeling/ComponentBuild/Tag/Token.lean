import ComponentBuild.Text.Blank
import ComponentBuild.Text.Span

namespace ComponentBuild.Tag

inductive TokenKind where
  | closeAngle
  | slashAngle
  | slash
  | equals
  | doubleQuoted
  | singleQuoted
  /-- Braces around text without braces. -/
  | expression
  | name
  | endOfText
  | invalid
  deriving DecidableEq, Repr, Inhabited

namespace TokenKind

/-- What messages call the kind. -/
def describe : TokenKind → String
  | closeAngle => "'>'"
  | slashAngle => "'/>'"
  | slash => "'/'"
  | equals => "'='"
  | doubleQuoted => "quoted value"
  | singleQuoted => "quoted value"
  | expression => "expression"
  | name => "name"
  | endOfText => "end of file"
  | invalid => "invalid token"

def closesTag (kind : TokenKind) : Bool := kind == closeAngle || kind == slashAngle

end TokenKind

structure Token where
  kind : TokenKind
  span : Span
  deriving DecidableEq, Repr

/-- Blanks are those of ASCII without the vertical tab. -/
def isBlank (c : Char) : Bool :=
  c == ' ' || c == '\t' || c == '\r' || c == '\n' || c == '\x0c'

/-- The characters of names and of values without quotes. -/
def isNameChar (c : Char) : Bool :=
  !(Text.isBlank c || c == '"' || c == '\'' || c == '<' || c == '>' || c == '/' || c == '=' ||
    c == '\x7b' || c == '\x7d')

/-- A token at the front of a text, and the text behind it. -/
structure Lexeme where
  kind : TokenKind
  text : List Char
  rest : List Char
  deriving Repr

/-- The token behind a quote: text up to the next one, or else all there is. -/
def quoted (kind : TokenKind) (q : Char) (cs : List Char) : Lexeme :=
  match cs.dropWhile (· != q) with
  | _ :: rest => ⟨kind, q :: cs.takeWhile (· != q) ++ [q], rest⟩
  | [] => ⟨.invalid, q :: cs, []⟩

def isBrace (c : Char) : Bool := c == '\x7b' || c == '\x7d'

/-- The token behind an opening brace. Another one before the closing brace makes it invalid. -/
def braced (cs : List Char) : Lexeme :=
  match cs.dropWhile (!isBrace ·) with
  | '\x7d' :: rest => ⟨.expression, '\x7b' :: cs.takeWhile (!isBrace ·) ++ ['\x7d'], rest⟩
  | rest => ⟨.invalid, '\x7b' :: cs.takeWhile (!isBrace ·), rest⟩

/-- The token that starts with `c`. -/
def lexeme (c : Char) (cs : List Char) : Lexeme :=
  if c = '>' then ⟨.closeAngle, [c], cs⟩
  else if c = '/' then
    match cs with
    | '>' :: rest => ⟨.slashAngle, [c, '>'], rest⟩
    | _ => ⟨.slash, [c], cs⟩
  else if c = '=' then ⟨.equals, [c], cs⟩
  else if c = '"' then quoted .doubleQuoted c cs
  else if c = '\'' then quoted .singleQuoted c cs
  else if c = '\x7b' then braced cs
  else if isNameChar c then ⟨.name, c :: cs.takeWhile isNameChar, cs.dropWhile isNameChar⟩
  else ⟨.invalid, [c], cs⟩

theorem quoted_append (kind : TokenKind) (q : Char) (cs : List Char) :
    (quoted kind q cs).text ++ (quoted kind q cs).rest = q :: cs := by
  have h := List.takeWhile_append_dropWhile (p := (· != q)) (l := cs)
  unfold quoted
  split
  next c rest hd =>
    have hc : c = q := by
      have := List.head?_dropWhile_not (· != q) cs
      simp only [hd, List.head?_cons] at this
      simpa using this
    subst hc
    simp only [List.cons_append, List.append_assoc, List.nil_append]
    rw [hd] at h
    rw [h]
  next => simp

theorem braced_append (cs : List Char) :
    (braced cs).text ++ (braced cs).rest = '\x7b' :: cs := by
  have h := List.takeWhile_append_dropWhile (p := (!isBrace ·)) (l := cs)
  unfold braced
  split
  next rest hd => simp only [List.cons_append, List.append_assoc, List.nil_append]; rw [← hd, h]
  next => simp only [List.cons_append]; rw [h]

theorem lexeme_append (c : Char) (cs : List Char) :
    (lexeme c cs).text ++ (lexeme c cs).rest = c :: cs := by
  unfold lexeme
  split
  · rfl
  split
  · split <;> rfl
  split
  · rfl
  split
  · exact quoted_append _ c cs
  split
  · exact quoted_append _ c cs
  split
  next h => rw [h]; exact braced_append cs
  split
  · simp
  · rfl

theorem lexeme_text_ne_nil (c : Char) (cs : List Char) : (lexeme c cs).text ≠ [] := by
  unfold lexeme quoted braced
  repeat' split
  all_goals simp

theorem lexeme_rest_length (c : Char) (cs : List Char) :
    (lexeme c cs).rest.length ≤ cs.length := by
  have h := congrArg List.length (lexeme_append c cs)
  have ht := List.length_pos_iff.2 (lexeme_text_ne_nil c cs)
  simp only [List.length_append, List.length_cons] at h
  omega

/-- The blanks in front of the next token, the token, and the text behind it. -/
def next? (cs : List Char) : Option (List Char × Lexeme) :=
  match cs.dropWhile isBlank with
  | [] => none
  | c :: rest => some (cs.takeWhile isBlank, lexeme c rest)

theorem next?_rest_length {cs blanks : List Char} {x : Lexeme} (h : next? cs = some (blanks, x)) :
    x.rest.length < cs.length := by
  unfold next? at h
  split at h
  next => contradiction
  next c rest hd =>
    simp only [Option.some.injEq, Prod.mk.injEq] at h
    rw [← h.2]
    have h1 := lexeme_rest_length c rest
    have h2 := congrArg List.length (List.takeWhile_append_dropWhile (p := isBlank) (l := cs))
    simp only [hd, List.length_append, List.length_cons] at h2
    omega

/-- The tokens of a text that starts at an offset of the document, and at last its end. -/
def tokens (offset : Nat) (cs : List Char) : List Token :=
  match _h : next? cs with
  | none =>
    let stop := offset + Text.byteLength cs
    [⟨.endOfText, ⟨stop, stop⟩⟩]
  | some (blanks, x) =>
    let start := offset + Text.byteLength blanks
    let stop := start + Text.byteLength x.text
    ⟨x.kind, ⟨start, stop⟩⟩ :: tokens stop x.rest
termination_by cs.length
decreasing_by exact next?_rest_length _h

end ComponentBuild.Tag
