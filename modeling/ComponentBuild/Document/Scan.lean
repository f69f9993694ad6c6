import ComponentBuild.Document.Section
import ComponentBuild.Tag.Token
import ComponentBuild.Text.Ascii

namespace ComponentBuild

inductive ScanErrorKind where
  | unclosedRawText (tag : String)
  | unexpectedEnd (expected : String)
  | unclosedComment
  | duplicate (what : String)
  deriving DecidableEq, Repr

def ScanErrorKind.message : ScanErrorKind → String
  | unclosedRawText tag => "unclosed tag: <" ++ tag ++ ">"
  | unexpectedEnd expected => "unexpected end of file: expected " ++ expected
  | unclosedComment => "unclosed comment"
  | duplicate what => "a component can only have one " ++ what

structure ScanError where
  kind : ScanErrorKind
  span : Span
  deriving DecidableEq, Repr

def ScanError.message (e : ScanError) : String := e.kind.message

/-- An element whose end has not been seen. -/
structure OpenElement where
  name : String
  contentStart : Nat
  deriving DecidableEq, Repr

/-- What has been found, and the open elements, the innermost first. -/
structure ScanState where
  component : Component
  html : List HtmlPart
  stack : List OpenElement
  deriving Repr

namespace Scan

def voidElements : List String :=
  ["area", "base", "br", "col", "embed", "hr", "img", "input", "link", "meta", "param", "source",
    "track", "wbr"]

/-- The text behind the brace that closes `depth` open ones. Braces in quotes do not count; inside
a quote only the same quote ends it. -/
def skipBraces (depth : Nat) (quote : Option Char) : List Char → Option (List Char)
  | [] => none
  | c :: cs =>
    match quote with
    | some q => skipBraces depth (if c = q then none else some q) cs
    | none =>
      if c = '"' ∨ c = '\'' ∨ c = '\x60' then skipBraces depth (some c) cs
      else if c = '\x7b' then skipBraces (depth + 1) none cs
      else if c = '\x7d' then
        if depth ≤ 1 then some cs else skipBraces (depth - 1) none cs
      else skipBraces depth none cs

/-- The text behind an expression whose opening brace has been read. Without its closing brace it is
text. -/
def skipExpression (cs : List Char) : List Char := (skipBraces 1 none cs).getD cs

/-- The text behind the first occurrence of a pattern. -/
def dropPast? (pattern : List Char) : List Char → Option (List Char)
  | [] => if pattern.isEmpty then some [] else none
  | c :: cs =>
    if pattern.isPrefixOf (c :: cs) then some ((c :: cs).drop pattern.length)
    else dropPast? pattern cs

/-- An opening tag behind its name. -/
structure TagEnd where
  attributes : List Attribute
  selfClosing : Bool
  stop : Nat
  rest : List Char

def TagEnd.withFirst (first : Option Attribute) (t : TagEnd) : TagEnd :=
  { t with attributes := first.toList ++ t.attributes }

def unquote (kind : Tag.TokenKind) (text : List Char) : String :=
  String.ofList (if kind = .expression then text else text.tail.dropLast)

/-- The attributes up to the end of a tag. `current` is the attribute that may still get a value,
and `wantsValue` says whether an equals sign has been read for it. -/
def readAttributes (offset : Nat) (current : Option Attribute) (wantsValue : Bool)
    (cs : List Char) : Option TagEnd :=
  match _h : Tag.next? cs with
  | none => none
  | some (blanks, x) =>
    let start := offset + Text.byteLength blanks
    let stop := start + Text.byteLength x.text
    match x.kind with
    | .closeAngle => some ⟨current.toList, false, stop, x.rest⟩
    | .slashAngle => some ⟨current.toList, true, stop, x.rest⟩
    | .equals => readAttributes stop current current.isSome x.rest
    | .name =>
      if wantsValue then
        let value := String.ofList x.text
        readAttributes stop
          (current.map fun a => { a with value := some value, span := ⟨a.span.start, stop⟩ })
          false x.rest
      else
        (readAttributes stop (some ⟨String.ofList x.text, none, ⟨start, stop⟩⟩) false x.rest).map
          (·.withFirst current)
    | .doubleQuoted | .singleQuoted | .expression =>
      if wantsValue then
        let value := unquote x.kind x.text
        readAttributes stop
          (current.map fun a => { a with value := some value, span := ⟨a.span.start, stop⟩ })
          false x.rest
      else readAttributes stop current wantsValue x.rest
    | _ => readAttributes stop current wantsValue x.rest
termination_by cs.length
decreasing_by all_goals exact Tag.next?_rest_length _h

/-- The name in a closing tag, and where the tag ends. -/
def readClosingTag (offset : Nat) (name : Option String) (cs : List Char) :
    Option (Option String × Nat × List Char) :=
  match _h : Tag.next? cs with
  | none => none
  | some (blanks, x) =>
    let stop := offset + Text.byteLength blanks + Text.byteLength x.text
    if x.kind.closesTag then some (name, stop, x.rest)
    else
      let name := if x.kind = .name then name.or (some (String.ofList (Text.lowercase x.text)))
        else name
      readClosingTag stop name x.rest
termination_by cs.length
decreasing_by exact Tag.next?_rest_length _h

/-- Whether a text starts with a name, in any case, that ends there. -/
def startsWithName (name cs : List Char) : Bool :=
  Text.lowercase (cs.take name.length) == name &&
    match cs.drop name.length with
    | [] => true
    | c :: _ => !(Text.isAsciiAlphanum c || c == '-')

/-- The text up to the closing tag of an element, and the text from it on. -/
def splitAtClosing? (name : List Char) : List Char → Option (List Char × List Char)
  | [] => none
  | c :: cs =>
    if c = '<' ∧ cs.head? = some '/' ∧ startsWithName name cs.tail then some ([], c :: cs)
    else (splitAtClosing? name cs).map fun (content, rest) => (c :: content, rest)

def ScanState.recordSection (s : ScanState) (found : Section) : Except ScanError ScanState :=
  match found.kind, found.context with
  | .style, _ =>
    if s.component.style.isSome then .error ⟨.duplicate "style", found.span⟩
    else .ok { s with component := { s.component with style := some found } }
  | .script, .perModule =>
    if s.component.moduleScript.isSome then .error ⟨.duplicate "module script", found.span⟩
    else .ok { s with component := { s.component with moduleScript := some found } }
  | .script, .perInstance =>
    if s.component.instanceScript.isSome then .error ⟨.duplicate "instance script", found.span⟩
    else .ok { s with component := { s.component with instanceScript := some found } }

/-- The html part that an element at the top level makes, if it is one of the two that do. -/
def htmlPart? (source : List Char) (e : OpenElement) (stop : Nat) : Option HtmlPart :=
  let data := String.ofList (Text.trim ((Text.slice? source e.contentStart stop).getD []))
  if e.name = "head" then some ⟨.head, data⟩
  else if e.name = "body" then some ⟨.body, data⟩
  else none

/-- Closes the innermost element of a name, and all inside it. -/
def ScanState.close (s : ScanState) (source : List Char) (name : String) (stop : Nat) :
    ScanState :=
  match s.stack.dropWhile (·.name != name) with
  | [] => s
  | [e] => { s with stack := [], html := s.html ++ (htmlPart? source e stop).toList }
  | _ :: outer => { s with stack := outer }

/-- What stands at a place of the document was read up to `offset`; `rest` is the text from there
on. -/
structure Step where
  state : ScanState
  offset : Nat
  rest : List Char

/-- A script or style whose opening tag has been read. -/
def rawElement (s : ScanState) (start : Nat) (name : String) (tag : TagEnd) :
    Except ScanError Step :=
  let kind : SectionKind := if name = "script" then .script else .style
  let record (content : List Char) (contentStop stop : Nat) (rest : List Char) :=
    let found : Section := ⟨kind, ⟨start, stop⟩, ⟨tag.stop, contentStop⟩, String.ofList content,
      tag.attributes⟩
    if s.stack.isEmpty then
      (ScanState.recordSection s found).map fun s => Step.mk s stop rest
    else .ok ⟨s, stop, rest⟩
  if tag.selfClosing then record [] tag.stop tag.stop tag.rest
  else
    match splitAtClosing? name.toList tag.rest with
    | none => .error ⟨.unclosedRawText name, ⟨start, tag.stop⟩⟩
    | some (content, closing) =>
      let contentStop := tag.stop + Text.byteLength content
      match closing.dropWhile (· != '>') with
      | [] =>
        .error ⟨.unexpectedEnd ("'>' to close </" ++ name ++ ">"),
          ⟨contentStop, contentStop + Text.byteLength closing⟩⟩
      | _ :: rest =>
        let stop := contentStop + Text.byteLength (closing.takeWhile (· != '>')) + 1
        record content contentStop stop rest

/-- An opening tag, its angle bracket at `start`, with `cs` behind that. -/
def openTag (s : ScanState) (start : Nat) (cs : List Char) : Except ScanError Step :=
  let name := cs.takeWhile Tag.isNameChar
  let afterName := start + 1 + Text.byteLength name
  match readAttributes afterName none false (cs.dropWhile Tag.isNameChar) with
  | none =>
    .error ⟨.unexpectedEnd ("'>' to close <" ++ String.ofList name ++ ">"),
      ⟨start, start + 1 + Text.byteLength cs⟩⟩
  | some tag =>
    let lowered := String.ofList (Text.lowercase name)
    if lowered = "script" ∨ lowered = "style" then rawElement s start lowered tag
    else if tag.selfClosing ∨ lowered ∈ voidElements then .ok ⟨s, tag.stop, tag.rest⟩
    else .ok ⟨{ s with stack := ⟨lowered, tag.stop⟩ :: s.stack }, tag.stop, tag.rest⟩

/-- A closing tag, its angle bracket at `start`, with `cs` behind the slash. -/
def closingTag (source : List Char) (s : ScanState) (start : Nat) (cs : List Char) :
    Except ScanError Step :=
  match readClosingTag (start + 2) none cs with
  | none =>
    .error ⟨.unexpectedEnd "'>' to close the closing tag",
      ⟨start, start + 2 + Text.byteLength cs⟩⟩
  | some (name, stop, rest) =>
    match name with
    | none => .ok ⟨s, stop, rest⟩
    | some name => .ok ⟨ScanState.close s source name start, stop, rest⟩

/-- The offset behind the characters that a text has more than its rest. -/
def advance (offset : Nat) (text rest : List Char) : Nat :=
  offset + (Text.byteLength text - Text.byteLength rest)

/-- Reads what starts with `c`, with `cs` behind it. -/
def step (source : List Char) (s : ScanState) (offset : Nat) (c : Char) (cs : List Char) :
    Except ScanError Step :=
  if c = '\x7b' then
    let rest := skipExpression cs
    .ok ⟨s, advance offset (c :: cs) rest, rest⟩
  else if c = '<' then
    match cs with
    | '!' :: '-' :: '-' :: body =>
      match dropPast? "-->".toList body with
      | none => .error ⟨.unclosedComment, ⟨offset, offset + 4⟩⟩
      | some rest => .ok ⟨s, advance offset (c :: cs) rest, rest⟩
    | '/' :: tag => closingTag source s offset tag
    | d :: _ => if Text.isAsciiAlpha d then openTag s offset cs else .ok ⟨s, offset + 1, cs⟩
    | [] => .ok ⟨s, offset + 1, cs⟩
  else .ok ⟨s, offset + c.utf8Size, cs⟩

theorem skipBraces_length {depth : Nat} {quote : Option Char} {cs rest : List Char}
    (h : skipBraces depth quote cs = some rest) : rest.length < cs.length := by
  induction cs generalizing depth quote with
  | nil => simp [skipBraces] at h
  | cons c cs ih =>
    simp only [skipBraces] at h
    have step {d q} (h : skipBraces d q cs = some rest) : rest.length < (c :: cs).length :=
      Nat.lt_succ_of_lt (ih h)
    split at h
    · exact step h
    · split at h
      · exact step h
      · split at h
        · exact step h
        · split at h
          · split at h
            · simp only [Option.some.injEq] at h
              simp [← h]
            · exact step h
          · exact step h

theorem skipExpression_length (cs : List Char) : (skipExpression cs).length ≤ cs.length := by
  unfold skipExpression
  cases h : skipBraces 1 none cs with
  | none => simp
  | some rest => exact Nat.le_of_lt (skipBraces_length h)

theorem dropPast?_length {pattern cs rest : List Char} (h : dropPast? pattern cs = some rest) :
    rest.length ≤ cs.length := by
  induction cs with
  | nil =>
    simp only [dropPast?] at h
    split at h <;> simp_all
  | cons c cs ih =>
    simp only [dropPast?] at h
    split at h
    · simp only [Option.some.injEq] at h
      simp only [← h, List.length_drop]
      omega
    · exact Nat.le_succ_of_le (ih h)

theorem readAttributes_length {offset : Nat} {current : Option Attribute} {wants : Bool}
    {cs : List Char} {t : TagEnd} (h : readAttributes offset current wants cs = some t) :
    t.rest.length ≤ cs.length := by
  fun_induction readAttributes offset current wants cs generalizing t with
  | case1 => contradiction
  | _ => grind [→ Tag.next?_rest_length, TagEnd.withFirst, Option.map_eq_some_iff]

theorem readClosingTag_length {offset : Nat} {name name' : Option String} {cs rest : List Char}
    {stop : Nat} (h : readClosingTag offset name cs = some (name', stop, rest)) :
    rest.length ≤ cs.length := by
  fun_induction readClosingTag offset name cs with
  | case1 => contradiction
  | _ => grind [→ Tag.next?_rest_length]

theorem splitAtClosing?_append {name cs content rest : List Char}
    (h : splitAtClosing? name cs = some (content, rest)) : cs = content ++ rest := by
  fun_induction splitAtClosing? name cs generalizing content with
  | case1 => contradiction
  | case2 => grind
  | case3 _ _ _ ih =>
    obtain ⟨⟨_, _⟩, hx, he⟩ := Option.map_eq_some_iff.1 h
    simp only [Prod.mk.injEq] at he
    obtain ⟨rfl, rfl⟩ := he
    rw [ih hx]
    rfl

theorem rawElement_length {s : ScanState} {start : Nat} {name : String} {tag : TagEnd} {t : Step}
    (h : rawElement s start name tag = .ok t) : t.rest.length ≤ tag.rest.length := by
  have record {content contentStop stop rest}
      (h : (if s.stack.isEmpty = true then
          (ScanState.recordSection s ⟨if name = "script" then .script else .style, ⟨start, stop⟩,
            ⟨tag.stop, contentStop⟩, content, tag.attributes⟩).map fun s => Step.mk s stop rest
        else .ok ⟨s, stop, rest⟩) = .ok t) : t.rest = rest := by
    split at h
    · cases hr : ScanState.recordSection s _ with
      | error e => rw [hr] at h; cases h
      | ok u => rw [hr] at h; cases h; rfl
    · cases h; rfl
  unfold rawElement at h
  simp only at h
  split at h
  · exact Nat.le_of_eq (congrArg List.length (record h))
  · split at h
    next => contradiction
    next content closing hs =>
      have hc := splitAtClosing?_append hs
      split at h
      next => contradiction
      next c rest hd =>
        rw [record h, hc]
        have := congrArg List.length (List.takeWhile_append_dropWhile (p := (· != '>')) (l := closing))
        simp only [hd, List.length_append, List.length_cons] at this ⊢
        omega

theorem openTag_length {s : ScanState} {start : Nat} {cs : List Char} {t : Step}
    (h : openTag s start cs = .ok t) : t.rest.length ≤ cs.length := by
  unfold openTag at h
  simp only at h
  split at h
  next => contradiction
  next tag htag =>
    have hl := readAttributes_length htag
    have := (List.dropWhile_suffix (l := cs) Tag.isNameChar).length_le
    split at h
    · exact Nat.le_trans (rawElement_length h) (by omega)
    · split at h <;> cases h <;> simp only <;> omega

theorem closingTag_length {source : List Char} {s : ScanState} {start : Nat} {cs : List Char}
    {t : Step} (h : closingTag source s start cs = .ok t) : t.rest.length ≤ cs.length := by
  unfold closingTag at h
  split at h
  next => contradiction
  next name stop rest hr =>
    have := readClosingTag_length hr
    split at h <;> cases h <;> exact this

/-- Each step leaves less to read. -/
theorem step_length {source : List Char} {s : ScanState} {offset : Nat} {c : Char}
    {cs : List Char} {t : Step} (h : step source s offset c cs = .ok t) :
    t.rest.length ≤ cs.length := by
  unfold step at h
  split at h
  · cases h
    exact skipExpression_length cs
  · split at h
    · split at h
      next body =>
        split at h
        next => contradiction
        next rest hd =>
          cases h
          have := dropPast?_length hd
          simp only [List.length_cons]
          omega
      next => exact Nat.le_succ_of_le (closingTag_length h)
      next =>
        split at h
        · exact openTag_length h
        · cases h
          exact Nat.le_refl _
      next =>
        cases h
        exact Nat.le_refl _
    · cases h
      exact Nat.le_refl _

/-- Reads the rest of a document. A `head` or `body` without an end goes on to the end of it. -/
def run (source : List Char) (s : ScanState) (offset : Nat) (cs : List Char) :
    Except ScanError ScanState :=
  match cs with
  | [] =>
    .ok { s with html := s.html ++ (s.stack.getLast?.bind (htmlPart? source · offset)).toList }
  | c :: cs =>
    match _h : step source s offset c cs with
    | .error e => .error e
    | .ok t => run source t.state t.offset t.rest
termination_by cs.length
decreasing_by exact Nat.lt_succ_of_le (step_length _h)

end Scan

/-- The sections of a document, and the parts of a page at its top level. -/
structure ScanResult where
  component : Component
  html : List HtmlPart
  deriving DecidableEq, Repr

def scan (source : String) : Except ScanError ScanResult :=
  match Scan.run source.toList ⟨.empty, [], []⟩ 0 source.toList with
  | .error e => .error e
  | .ok s => .ok ⟨s.component, s.html⟩

end ComponentBuild
