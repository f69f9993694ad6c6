import ComponentBuild.Proofs.Document.Bounds
import Mathlib.Data.List.TakeWhile

namespace ComponentBuild

open Text (StandsAt IsBoundary)

namespace Scan

variable (source : List Char)

/-- The text from an offset on. -/
def from? (offset : Nat) : Option (List Char) :=
  (Text.splitAt? source offset).map Prod.snd

theorem from?_le {offset : Nat} {cs : List Char} (h : from? source offset = some cs) :
    offset ≤ Text.byteLength source := by
  obtain ⟨⟨front, back⟩, hsplit, -⟩ := Option.map_eq_some_iff.1 h
  obtain ⟨rfl, rfl⟩ := Text.eq_of_splitAt? hsplit
  rw [Text.byteLength_append]
  exact Nat.le_add_right _ _

/-- The offset behind the brace that closes the last open one, if there is such a brace. -/
def closingBrace? (depth : Nat) (quote : Option Char) (offset : Nat) :
    List Char → Option (Option Nat)
  | [] => some none
  | c :: cs =>
    let next := offset + c.utf8Size
    match quote with
    | some q => closingBrace? depth (if c = q then none else some q) next cs
    | none =>
      if c = '"' ∨ c = '\'' ∨ c = '\x60' then closingBrace? depth (some c) next cs
      else if c = '\x7b' then closingBrace? (depth + 1) none next cs
      else if c = '\x7d' then
        if depth = 0 then none
        else if depth - 1 = 0 then some (some next)
        else closingBrace? (depth - 1) none next cs
      else closingBrace? depth none next cs

def expressionEnd? (start : Nat) : Option Nat :=
  (from? source start).bind fun cs =>
    (closingBrace? 0 none start cs).map (·.getD (start + 1))

def commentEnd? (start : Nat) : Option (Except ScanError Nat) :=
  (from? source (start + 4)).map fun cs =>
    match Text.find? "-->".toList cs with
    | none => .error ⟨.unclosedComment, ⟨start, start + 4⟩⟩
    | some n => .ok (start + 4 + n + 3)

/-- The value of a token: without its quotes, if it has some. -/
def value? (kind : Tag.TokenKind) (text : List Char) : Option String :=
  if kind = .expression then some (String.ofList text)
  else (Text.slice? text 1 (Text.byteLength text - 1)).map String.ofList

/-- The attributes in the tokens of a tag, whether it closes its element, and where it ends, if it
does. -/
def attributes? (current : Option Attribute) (wantsValue : Bool) :
    List Tag.Token → Option (Option (List Attribute × Bool × Nat))
  | [] => some none
  | token :: tokens =>
    (Text.slice? source token.span.start token.span.stop).bind fun text =>
      let given (value : String) := current.map fun a =>
        { a with value := some value, span := ⟨a.span.start, token.span.stop⟩ }
      match token.kind with
      | .closeAngle => some (some (current.toList, false, token.span.stop))
      | .slashAngle => some (some (current.toList, true, token.span.stop))
      | .endOfText => some none
      | .equals => attributes? current current.isSome tokens
      | .name =>
        if wantsValue then attributes? (given (String.ofList text)) false tokens
        else
          (attributes? (some ⟨String.ofList text, none, token.span⟩) false tokens).map
            (·.map fun (as, selfClosing, stop) => (current.toList ++ as, selfClosing, stop))
      | .doubleQuoted | .singleQuoted | .expression =>
        if wantsValue then
          (value? token.kind text).bind fun value => attributes? (given value) false tokens
        else attributes? current wantsValue tokens
      | _ => attributes? current wantsValue tokens

/-- The name in the tokens of a closing tag, and where it ends, if it does. -/
def closingName? (name : Option String) : List Tag.Token → Option (Option (Option String × Nat))
  | [] => some none
  | token :: tokens =>
    if token.kind.closesTag then some (some (name, token.span.stop))
    else if token.kind = .endOfText then some none
    else if token.kind = .name ∧ name = none then
      (Text.slice? source token.span.start token.span.stop).bind fun text =>
        closingName? (some (String.ofList (Text.lowercase text))) tokens
    else closingName? name tokens

/-- Where the first closing tag of a name begins, at an offset or behind it. -/
def closingStart? (name : List Char) (offset : Nat) : Option (Option Nat) :=
  match _h : from? source offset with
  | none => none
  | some cs =>
    match Text.find? ['<', '/'] cs with
    | none => some none
    | some n =>
      match _h' : from? source (offset + n + 2) with
      | none => none
      | some rest =>
        if startsWithName name rest then some (some (offset + n))
        else closingStart? name (offset + n + 2)
termination_by Text.byteLength source - offset
decreasing_by
  have hle := from?_le source _h'
  omega

/-- A script or style with these attributes, whose opening tag ends at `tagStop`. -/
def rawElement? (s : ScanState) (start : Nat) (name : String) (attributes : List Attribute)
    (selfClosing : Bool) (tagStop : Nat) : Option (Except ScanError (ScanState × Nat)) :=
  let kind : SectionKind := if name = "script" then .script else .style
  let record (contentStop stop : Nat) : Option (Except ScanError (ScanState × Nat)) :=
    if s.stack.isEmpty then
      (Text.slice? source tagStop contentStop).map fun content =>
        (ScanState.recordSection s ⟨kind, ⟨start, stop⟩, ⟨tagStop, contentStop⟩,
          String.ofList content, attributes⟩).map (·, stop)
    else some (.ok (s, stop))
  if selfClosing then record tagStop tagStop
  else
    (closingStart? source name.toList tagStop).bind fun
      | none => some (.error ⟨.unclosedRawText name, ⟨start, tagStop⟩⟩)
      | some close =>
        (from? source close).bind fun closing =>
          match Text.offsetOf? (· == '>') closing with
          | none =>
            some (.error ⟨.unexpectedEnd ("'>' to close </" ++ name ++ ">"),
              ⟨close, Text.byteLength source⟩⟩)
          | some n => record close (close + n + 1)

def openTag? (s : ScanState) (start : Nat) : Option (Except ScanError (ScanState × Nat)) :=
  (from? source (start + 1)).bind fun cs =>
    match Tag.tokens (start + 1) cs with
    | ⟨.name, span⟩ :: tokens =>
      (Text.slice? source span.start span.stop).bind fun name =>
        (attributes? source none false tokens).bind fun
          | none =>
            some (.error ⟨.unexpectedEnd ("'>' to close <" ++ String.ofList name ++ ">"),
              ⟨start, Text.byteLength source⟩⟩)
          | some (attributes, selfClosing, stop) =>
            let lowered := String.ofList (Text.lowercase name)
            if lowered = "script" ∨ lowered = "style" then
              rawElement? source s start lowered attributes selfClosing stop
            else if selfClosing ∨ lowered ∈ voidElements then some (.ok (s, stop))
            else some (.ok ({ s with stack := ⟨lowered, stop⟩ :: s.stack }, stop))
    | _ => some (.error ⟨.unexpectedEnd "tag name", ⟨start, start + 1⟩⟩)

/-- The html part that an element makes, if it is one of the two that do. -/
def part? (e : OpenElement) (stop : Nat) : Option (Option HtmlPart) :=
  let data := (Text.slice? source e.contentStart stop).map (String.ofList <| Text.trim ·)
  if e.name = "head" then data.map (some ⟨.head, ·⟩)
  else if e.name = "body" then data.map (some ⟨.body, ·⟩)
  else some none

def close? (s : ScanState) (name : String) (stop : Nat) : Option ScanState :=
  match s.stack.dropWhile (·.name != name) with
  | [] => some s
  | [e] => (part? source e stop).map fun part =>
      { s with stack := [], html := s.html ++ part.toList }
  | _ :: outer => some { s with stack := outer }

def closeTag? (s : ScanState) (start : Nat) : Option (Except ScanError (ScanState × Nat)) :=
  (from? source (start + 2)).bind fun cs =>
    (closingName? source none (Tag.tokens (start + 2) cs)).bind fun
      | none =>
        some (.error ⟨.unexpectedEnd "'>' to close the closing tag",
          ⟨start, Text.byteLength source⟩⟩)
      | some (none, stop) => some (.ok (s, stop))
      | some (some name, stop) => (close? source s name start).map fun s => .ok (s, stop)

/-- Reads what an angle bracket or an opening brace starts. -/
def element? (s : ScanState) (start : Nat) : Option (Except ScanError (ScanState × Nat)) :=
  (from? source start).bind fun cs =>
    if ['\x7b'].isPrefixOf cs then (expressionEnd? source start).map fun n => .ok (s, n)
    else if "<!--".toList.isPrefixOf cs then (commentEnd? source start).map (·.map (s, ·))
    else if "</".toList.isPrefixOf cs then closeTag? source s start
    else
      (from? cs 1).bind fun rest =>
        if rest.head?.any Text.isAsciiAlpha then openTag? source s start
        else some (.ok (s, start + 1))

def startsElement (c : Char) : Bool := c == '<' || c == '\x7b'

/-- Reads from an offset on. -/
def loop? (s : ScanState) (offset : Nat) : Option (Except ScanError ScanState) :=
  match _h : from? source offset with
  | none => none
  | some cs =>
    match Text.offsetOf? startsElement cs with
    | none =>
      match s.stack.getLast? with
      | none => some (.ok s)
      | some e => (part? source e (Text.byteLength source)).map fun part =>
          .ok { s with html := s.html ++ part.toList }
    | some n =>
      (element? source s (offset + n)).bind fun
        | .error e => some (.error e)
        | .ok (t, next) => if _h' : offset + n < next then loop? t next else none
termination_by Text.byteLength source + 1 - offset
decreasing_by
  have hle := from?_le source _h
  omega

/-- The checked scan of a document. -/
def scan? (source : String) : Option (Except ScanError ScanResult) :=
  (loop? source.toList ⟨.empty, [], []⟩ 0).map (·.map fun s => ⟨s.component, s.html⟩)

variable {source} {s : ScanState} {offset start : Nat}

theorem from?_of_standsAt {cs : List Char} (h : StandsAt source offset cs) :
    from? source offset = some cs := by
  obtain ⟨front, rfl, rfl⟩ := h
  rw [from?, Text.splitAt?_byteLength]
  rfl

theorem byteLength_of_standsAt {cs : List Char} (h : StandsAt source offset cs) :
    Text.byteLength source = offset + Text.byteLength cs := by
  obtain ⟨front, rfl, rfl⟩ := h
  exact Text.byteLength_append _ _

theorem advance_cons {c : Char} {cs rest : List Char} (h : rest <:+ cs) :
    advance offset (c :: cs) rest = advance (offset + c.utf8Size) cs rest := by
  obtain ⟨front, rfl⟩ := h
  rw [← List.cons_append, advance_append, advance_append, Text.byteLength_cons, Nat.add_assoc]

theorem closingBrace?_eq (depth : Nat) (quote : Option Char) (cs : List Char) :
    closingBrace? (depth + 1) quote offset cs =
      some ((skipBraces (depth + 1) quote cs).map (advance offset cs)) := by
  induction cs generalizing depth quote offset with
  | nil => rfl
  | cons c cs ih =>
    have hnext (depth : Nat) (quote : Option Char) :
        closingBrace? (depth + 1) quote (offset + c.utf8Size) cs =
          some ((skipBraces (depth + 1) quote cs).map (advance offset (c :: cs))) := by
      rw [ih]
      refine congrArg some (Option.map_congr fun rest hrest => ?_)
      exact (advance_cons (skipBraces_suffix hrest)).symm
    simp only [closingBrace?, skipBraces]
    cases quote with
    | some q => exact hnext depth _
    | none =>
      dsimp only
      split
      · exact hnext depth _
      split
      · exact hnext (depth + 1) none
      split
      next =>
        cases depth with
        | zero =>
          simp only [Nat.zero_add, Nat.sub_self, if_true, Nat.le_refl, Option.map_some]
          rw [if_neg Nat.one_ne_zero, advance_cons List.suffix_rfl, advance, Nat.sub_self,
            Nat.add_zero]
        | succ depth =>
          simp only [Nat.add_sub_cancel, show ¬ depth + 1 + 1 = 0 by omega,
            show ¬ depth + 1 = 0 by omega, show ¬ depth + 1 + 1 ≤ 1 by omega, if_false]
          exact hnext depth none
      · exact hnext depth none

theorem expressionEnd?_eq {cs : List Char} (h : StandsAt source start ('\x7b' :: cs)) :
    expressionEnd? source start = some (advance start ('\x7b' :: cs) (skipExpression cs)) := by
  have hopen : closingBrace? 0 none start ('\x7b' :: cs) = closingBrace? 1 none (start + 1) cs := by
    simp only [closingBrace?, Char.reduceEq, or_self, if_false, if_true]
    rfl
  rw [expressionEnd?, from?_of_standsAt h, Option.bind_some, hopen, closingBrace?_eq]
  refine congrArg some ?_
  unfold skipExpression
  cases hs : skipBraces 1 none cs with
  | none =>
    simp [advance]
    rfl
  | some rest =>
    simp only [Option.map_some, Option.getD_some]
    exact (advance_cons (c := '\x7b') (skipBraces_suffix hs)).symm

theorem find?_eq_none {pattern cs : List Char} (h : dropPast? pattern cs = none) :
    Text.find? pattern cs = none := by
  induction cs with
  | nil =>
    simp only [dropPast?] at h
    simp only [Text.find?]
    split at h
    · cases h
    next hne => rw [if_neg hne]
  | cons c cs ih =>
    simp only [dropPast?] at h
    simp only [Text.find?]
    split at h
    · cases h
    next hne => rw [if_neg hne, ih h, Option.map_none]

theorem find?_eq_some {pattern cs rest : List Char} (h : dropPast? pattern cs = some rest) :
    ∃ front, cs = front ++ (pattern ++ rest) ∧
      Text.find? pattern cs = some (Text.byteLength front) := by
  induction cs with
  | nil =>
    simp only [dropPast?] at h
    split at h
    next hp =>
      cases h
      rw [List.isEmpty_iff.1 hp]
      exact ⟨[], rfl, rfl⟩
    next => cases h
  | cons c cs ih =>
    simp only [dropPast?] at h
    simp only [Text.find?]
    split at h
    next hp =>
      cases h
      obtain ⟨rest, hrest⟩ := List.isPrefixOf_iff_prefix.1 hp
      refine ⟨[], ?_, if_pos hp⟩
      rw [List.nil_append, ← hrest, List.drop_left]
    next hne =>
      obtain ⟨front, hcs, hfind⟩ := ih h
      exact ⟨c :: front, by rw [hcs, List.cons_append], by rw [if_neg hne, hfind]; rfl⟩

theorem commentEnd?_eq {body : List Char}
    (h : StandsAt source start ('<' :: '!' :: '-' :: '-' :: body)) :
    commentEnd? source start = some (match dropPast? "-->".toList body with
      | none => .error ⟨.unclosedComment, ⟨start, start + 4⟩⟩
      | some rest => .ok (advance start ('<' :: '!' :: '-' :: '-' :: body) rest)) := by
  have hbody : StandsAt source (start + 4) body := h.drop ['<', '!', '-', '-']
  rw [commentEnd?, from?_of_standsAt hbody, Option.map_some]
  refine congrArg some ?_
  cases hd : dropPast? "-->".toList body with
  | none => rw [find?_eq_none hd]
  | some rest =>
    obtain ⟨front, hbody, hfind⟩ := find?_eq_some hd
    have htext : '<' :: '!' :: '-' :: '-' :: body =
        (['<', '!', '-', '-'] ++ (front ++ "-->".toList)) ++ rest := by
      rw [hbody]
      simp
    rw [hfind, htext]
    dsimp only
    rw [advance_append, Text.byteLength_append, Text.byteLength_append]
    have hopen : Text.byteLength ['<', '!', '-', '-'] = 4 := rfl
    have hclose : Text.byteLength "-->".toList = 3 := rfl
    simp only [hopen, hclose, Except.ok.injEq]
    omega

theorem tokens_of_none {cs : List Char} (h : Tag.next? cs = none) :
    Tag.tokens offset cs = [⟨.endOfText, ⟨offset + Text.byteLength cs, offset + Text.byteLength cs⟩⟩] := by
  rw [Tag.tokens]
  split
  next => rfl
  next h' => cases h.symm.trans h'

theorem tokens_of_next {cs blanks : List Char} {x : Tag.Lexeme}
    (h : Tag.next? cs = some (blanks, x)) :
    Tag.tokens offset cs =
      let start := offset + Text.byteLength blanks
      let stop := start + Text.byteLength x.text
      ⟨x.kind, ⟨start, stop⟩⟩ :: Tag.tokens stop x.rest := by
  rw [Tag.tokens]
  split
  next h' => cases h.symm.trans h'
  next h' =>
    cases h.symm.trans h'
    rfl

theorem lexeme_kind_ne (c : Char) (cs : List Char) : (Tag.lexeme c cs).kind ≠ .endOfText := by
  unfold Tag.lexeme
  split
  · simp
  split
  · split <;> simp
  split
  · simp
  split
  · rcases Tag.quoted_kind .doubleQuoted c cs with hk | hk <;> simp [hk]
  split
  · rcases Tag.quoted_kind .singleQuoted c cs with hk | hk <;> simp [hk]
  split
  · rcases Tag.braced_kind cs with hk | hk <;> simp [hk]
  split <;> simp

/-- A token in quotes has one at each end. -/
theorem lexeme_quoted {c : Char} {cs : List Char} :
    (Tag.lexeme c cs).kind = .doubleQuoted ∨ (Tag.lexeme c cs).kind = .singleQuoted →
      ∃ inner, (Tag.lexeme c cs).text = c :: (inner ++ [c]) ∧ c.utf8Size = 1 := by
  have hquoted (kind : Tag.TokenKind) (hc : c.utf8Size = 1) :
      (Tag.quoted kind c cs).kind = .doubleQuoted ∨ (Tag.quoted kind c cs).kind = .singleQuoted →
        ∃ inner, (Tag.quoted kind c cs).text = c :: (inner ++ [c]) ∧ c.utf8Size = 1 := by
    unfold Tag.quoted
    split
    · exact fun _ => ⟨_, rfl, hc⟩
    · simp
  unfold Tag.lexeme
  split
  · simp
  split
  · split <;> simp
  split
  · simp
  split
  next hc => exact hquoted _ (by rw [hc]; rfl)
  split
  next hc => exact hquoted _ (by rw [hc]; rfl)
  split
  · rcases Tag.braced_kind cs with hk | hk <;> simp [hk]
  split <;> simp

/-- The value of a quoted token is cut between its quotes. -/
theorem value?_lexeme {c : Char} {cs : List Char}
    (h : (Tag.lexeme c cs).kind = .doubleQuoted ∨ (Tag.lexeme c cs).kind = .singleQuoted ∨
      (Tag.lexeme c cs).kind = .expression) :
    value? (Tag.lexeme c cs).kind (Tag.lexeme c cs).text =
      some (unquote (Tag.lexeme c cs).kind (Tag.lexeme c cs).text) := by
  by_cases hexpression : (Tag.lexeme c cs).kind = .expression
  · simp only [value?, unquote, hexpression, if_true]
  · obtain ⟨inner, htext, hc⟩ := lexeme_quoted (h.imp_right fun h => h.resolve_right hexpression)
    have hslice := Text.slice?_byteLength [c] inner [c]
    have hone : Text.byteLength [c] = 1 := by simp [hc]
    rw [hone] at hslice
    have hlast : Text.byteLength (Tag.lexeme c cs).text - 1 = 1 + Text.byteLength inner := by
      rw [htext, Text.byteLength_cons, Text.byteLength_append, hone, hc]
      omega
    simp only [value?, unquote, hexpression, if_false]
    rw [hlast, htext]
    change (Text.slice? ([c] ++ (inner ++ [c])) _ _).map _ = _
    rw [hslice, List.tail_cons, List.dropLast_concat]
    rfl

theorem next?_lexeme {cs blanks : List Char} {x : Tag.Lexeme}
    (h : Tag.next? cs = some (blanks, x)) : ∃ c rest, x = Tag.lexeme c rest := by
  unfold Tag.next? at h
  split at h
  next => contradiction
  next c rest _ =>
    simp only [Option.some.injEq, Prod.mk.injEq] at h
    exact ⟨c, rest, h.2.symm⟩

/-- What a tag gives, without the text behind it. -/
def TagEnd.parts (t : TagEnd) : List Attribute × Bool × Nat := (t.attributes, t.selfClosing, t.stop)

theorem attributes?_eq {cs : List Char} (h : StandsAt source offset cs)
    (current : Option Attribute) (wants : Bool) :
    attributes? source current wants (Tag.tokens offset cs) =
      some ((readAttributes offset current wants cs).map TagEnd.parts) := by
  induction cs using Tag.tokenInduction generalizing offset current wants with
  | ends cs hnext =>
    rw [tokens_of_none hnext, readAttributes_of_none hnext]
    have hstop : StandsAt source (offset + Text.byteLength cs) [] :=
      StandsAt.drop cs (by rwa [List.append_nil])
    have hslice : Text.slice? source (offset + Text.byteLength cs) (offset + Text.byteLength cs) =
        some [] := hstop.slice? []
    simp only [attributes?, hslice, Option.bind_some, Option.map_none]
  | token cs blanks x hnext ih =>
    have hcs := Tag.next?_append hnext
    have hstands := (hcs ▸ h).drop blanks
    have again := ih (hstands.drop x.text)
    obtain ⟨c, rest, hx⟩ := next?_lexeme hnext
    rw [tokens_of_next hnext, readAttributes_of_next hnext]
    simp only [attributes?, hstands.slice? x.text, Option.bind_some, again]
    cases hkind : x.kind with
    | closeAngle => rfl
    | slashAngle => rfl
    | equals => rfl
    | name =>
      dsimp only
      split
      · rfl
      · cases readAttributes _ _ _ x.rest <;> rfl
    | doubleQuoted | singleQuoted | expression =>
      have hvalue : value? x.kind x.text = some (unquote x.kind x.text) := by
        subst hx
        exact value?_lexeme (by simp [hkind])
      rw [hkind] at hvalue
      simp only [hvalue, Option.bind_some]
      split <;> rfl
    | slash | invalid => rfl
    | endOfText => exact absurd (hx ▸ hkind) (lexeme_kind_ne c rest)

theorem closingName?_eq {cs : List Char} (h : StandsAt source offset cs) (name : Option String) :
    closingName? source name (Tag.tokens offset cs) =
      some ((readClosingTag offset name cs).map fun (name, stop, _) => (name, stop)) := by
  induction cs using Tag.tokenInduction generalizing offset name with
  | ends cs hnext =>
    rw [tokens_of_none hnext, readClosingTag_of_none hnext]
    rfl
  | token cs blanks x hnext ih =>
    have hcs := Tag.next?_append hnext
    have hstands := (hcs ▸ h).drop blanks
    have again := ih (hstands.drop x.text)
    obtain ⟨c, rest, hx⟩ := next?_lexeme hnext
    have hend : x.kind ≠ .endOfText := hx ▸ lexeme_kind_ne c rest
    rw [tokens_of_next hnext, readClosingTag_of_next hnext]
    simp only [closingName?, hstands.slice? x.text, Option.bind_some, again, hend, if_false]
    split
    · rfl
    · by_cases hname : x.kind = .name
      · cases name <;> simp [hname]
      · simp [hname]

theorem opensClosing_iff {c : Char} {cs : List Char} :
    ['<', '/'].isPrefixOf (c :: cs) = true ↔ c = '<' ∧ cs.head? = some '/' := by
  rw [List.isPrefixOf_iff_prefix, List.cons_prefix_cons, eq_comm (a := '<')]
  cases cs with
  | nil => simp
  | cons d cs => simp [List.cons_prefix_cons, eq_comm (a := '/')]

theorem splitAtClosing?_eq_none (name : List Char) {cs : List Char}
    (h : Text.find? ['<', '/'] cs = none) : splitAtClosing? name cs = none := by
  induction cs with
  | nil => rfl
  | cons c cs ih =>
    rw [Text.find?] at h
    split at h
    · cases h
    next hno =>
      have hno' : ¬ (c = '<' ∧ cs.head? = some '/' ∧ startsWithName name cs.tail = true) :=
        fun hmatch => hno (opensClosing_iff.2 ⟨hmatch.1, hmatch.2.1⟩)
      rw [splitAtClosing?, if_neg hno', ih (Option.map_eq_none_iff.1 h), Option.map_none]

/-- The first place where a closing tag may begin: it ends the raw text, or that goes on behind. -/
theorem splitAtClosing?_find (name : List Char) {cs : List Char} {n : Nat}
    (h : Text.find? ['<', '/'] cs = some n) :
    ∃ front rest, cs = front ++ ('<' :: '/' :: rest) ∧ n = Text.byteLength front ∧
      splitAtClosing? name cs =
        if startsWithName name rest then some (front, '<' :: '/' :: rest)
        else (splitAtClosing? name rest).map fun (content, closing) =>
          (front ++ '<' :: '/' :: content, closing) := by
  induction cs generalizing n with
  | nil => cases h
  | cons c cs ih =>
    rw [Text.find?] at h
    split at h
    next hopens =>
      cases h
      obtain ⟨rfl, hslash⟩ := opensClosing_iff.1 hopens
      obtain ⟨rest, rfl⟩ := List.head?_eq_some_iff.1 hslash
      refine ⟨[], rest, rfl, rfl, ?_⟩
      have hslash : splitAtClosing? name ('/' :: rest) =
          (splitAtClosing? name rest).map fun (content, closing) => ('/' :: content, closing) := by
        rw [splitAtClosing?, if_neg (by simp)]
      rw [splitAtClosing?]
      simp only [List.head?_cons, List.tail_cons, true_and, hslash, Option.map_map]
      rfl
    next hno =>
      have hno' : ¬ (c = '<' ∧ cs.head? = some '/' ∧ startsWithName name cs.tail = true) :=
        fun hmatch => hno (opensClosing_iff.2 ⟨hmatch.1, hmatch.2.1⟩)
      obtain ⟨m, hm, rfl⟩ := Option.map_eq_some_iff.1 h
      obtain ⟨front, rest, rfl, rfl, hsplit⟩ := ih hm
      refine ⟨c :: front, rest, rfl, rfl, ?_⟩
      rw [splitAtClosing?, if_neg hno', hsplit]
      split
      · rfl
      · rw [Option.map_map]
        rfl

theorem closingStart?_eq (name : List Char) {cs : List Char} (h : StandsAt source offset cs) :
    closingStart? source name offset =
      some ((splitAtClosing? name cs).map fun (content, _) => offset + Text.byteLength content) := by
  induction hn : cs.length using Nat.strongRecOn generalizing offset cs with
  | ind n ih =>
    rw [closingStart?]
    split
    next hfrom => cases (from?_of_standsAt h).symm.trans hfrom
    next cs' hfrom =>
      cases (from?_of_standsAt h).symm.trans hfrom
      cases hfind : Text.find? ['<', '/'] cs with
      | none =>
        dsimp only
        rw [splitAtClosing?_eq_none name hfind]
        rfl
      | some m =>
        obtain ⟨front, rest, rfl, rfl, hsplit⟩ := splitAtClosing?_find name hfind
        have hrest : StandsAt source (offset + Text.byteLength front + 2) rest :=
          (h.drop front).drop ['<', '/']
        have hlen : rest.length < n := by
          rw [← hn, List.length_append, List.length_cons, List.length_cons]
          omega
        dsimp only
        split
        next hfrom => cases (from?_of_standsAt hrest).symm.trans hfrom
        next rest' hfrom =>
          cases (from?_of_standsAt hrest).symm.trans hfrom
          rw [hsplit]
          split
          · rfl
          · rw [ih _ hlen hrest rfl, Option.map_map]
            refine congrArg some (Option.map_congr fun found _ => ?_)
            simp only [Function.comp_apply, Text.byteLength_append, Text.byteLength_cons,
              show '<'.utf8Size = 1 from rfl, show '/'.utf8Size = 1 from rfl]
            omega

/-- What a step gives, without the text behind it. -/
def Step.place (t : Step) : ScanState × Nat := (t.state, t.offset)

theorem offsetOf?_eq_none {p : Char → Bool} {cs : List Char} (h : cs.dropWhile (!p ·) = []) :
    Text.offsetOf? p cs = none := by
  induction cs with
  | nil => rfl
  | cons c cs ih =>
    by_cases hc : p c
    · simp [hc] at h
    · rw [List.dropWhile_cons_of_pos (by simp [hc])] at h
      rw [Text.offsetOf?, if_neg hc, ih h, Option.map_none]

theorem offsetOf?_eq_some {p : Char → Bool} {cs rest : List Char} {c : Char}
    (h : cs.dropWhile (!p ·) = c :: rest) :
    Text.offsetOf? p cs = some (Text.byteLength (cs.takeWhile (!p ·))) := by
  induction cs with
  | nil => cases h
  | cons d cs ih =>
    by_cases hd : p d
    · rw [Text.offsetOf?, if_pos hd, List.takeWhile_cons_of_neg (by simp [hd])]
      rfl
    · rw [List.dropWhile_cons_of_pos (by simp [hd])] at h
      rw [Text.offsetOf?, if_neg hd, ih h, List.takeWhile_cons_of_pos (by simp [hd])]
      rfl

theorem rawElement?_eq {tag : TagEnd} (h : StandsAt source tag.stop tag.rest) (name : String) :
    rawElement? source s start name tag.attributes tag.selfClosing tag.stop =
      some ((rawElement s start name tag).map Step.place) := by
  have hrecord {content : List Char} {contentStop : Nat} (stop : Nat) (rest : List Char)
      (hslice : Text.slice? source tag.stop contentStop = some content) :
      (if s.stack.isEmpty then
        (Text.slice? source tag.stop contentStop).map fun content =>
          (ScanState.recordSection s ⟨if name = "script" then .script else .style, ⟨start, stop⟩,
            ⟨tag.stop, contentStop⟩, String.ofList content, tag.attributes⟩).map (·, stop)
      else some (.ok (s, stop))) =
        some (((recordAtTop s (rawSection name start tag content contentStop stop)).map
          (Step.mk · stop rest)).map Step.place) := by
    rw [hslice, Option.map_some]
    unfold recordAtTop
    split
    · change some ((ScanState.recordSection s (rawSection name start tag content contentStop
        stop)).map _) = _
      cases ScanState.recordSection s (rawSection name start tag content contentStop stop) <;> rfl
    · rfl
  unfold rawElement?
  rw [rawElement_eq]
  cases hself : tag.selfClosing with
  | true => exact hrecord tag.stop tag.rest (StandsAt.slice? [] h)
  | false =>
    simp only [Bool.false_eq_true, if_false, closingStart?_eq name.toList h]
    cases hsplit : splitAtClosing? name.toList tag.rest with
    | none => rfl
    | some found =>
      obtain ⟨content, closing⟩ := found
      have hstands := splitAtClosing?_append hsplit ▸ h
      have hclosing := hstands.drop content
      simp only [Option.map_some, Option.bind_some, from?_of_standsAt hclosing]
      cases hd : closing.dropWhile (· != '>') with
      | nil =>
        rw [offsetOf?_eq_none hd]
        simp only [byteLength_of_standsAt hclosing]
        rfl
      | cons c rest =>
        rw [offsetOf?_eq_some hd]
        exact hrecord _ rest (hstands.slice? content)

theorem part?_eq (hs : s.Bounded source offset) (hoffset : IsBoundary source offset)
    {e : OpenElement} (he : e ∈ s.stack) :
    part? source e offset = some (htmlPart? source e offset) := by
  obtain ⟨hstart, hle⟩ := hs.stack e he
  unfold part? htmlPart?
  rw [Text.slice?_between hstart hoffset hle]
  dsimp only
  split
  · rfl
  split <;> rfl

theorem close?_eq (hs : s.Bounded source offset) (hoffset : IsBoundary source offset)
    (name : String) :
    close? source s name offset = some (ScanState.close s source name offset) := by
  unfold close? ScanState.close
  rcases hd : s.stack.dropWhile (·.name != name) with _ | ⟨e, _ | ⟨e', outer⟩⟩
  · simp only [hd]
  · have he : e ∈ s.stack :=
      (List.dropWhile_suffix _).subset (hd ▸ List.mem_singleton_self e)
    simp only [hd, part?_eq hs hoffset he, Option.map_some]
  · simp only [hd]

theorem closeTag?_eq {cs : List Char} (h : StandsAt source start ('<' :: '/' :: cs))
    (hs : s.Bounded source start) :
    closeTag? source s start = some ((closingTag source s start cs).map Step.place) := by
  have hcs : StandsAt source (start + 2) cs := h.drop ['<', '/']
  unfold closeTag? closingTag
  rw [from?_of_standsAt hcs, Option.bind_some, closingName?_eq hcs, Option.bind_some]
  cases readClosingTag (start + 2) none cs with
  | none =>
    simp only [Option.map_none, byteLength_of_standsAt hcs]
    rfl
  | some found =>
    obtain ⟨name, stop, rest⟩ := found
    cases name with
    | none => rfl
    | some name =>
      simp only [Option.map_some, close?_eq hs h.isBoundary]
      rfl

/-- A name that starts with a letter is the first token of its tag. -/
theorem next?_letter {c : Char} {cs : List Char} (hc : Text.isAsciiAlpha c = true) :
    Tag.next? (c :: cs) =
      some ([], ⟨.name, (c :: cs).takeWhile Tag.isNameChar, (c :: cs).dropWhile Tag.isNameChar⟩) := by
  have hname := Tag.isNameChar_of_isAlpha hc
  have hsplit := List.takeWhile_append_dropWhile (p := Tag.isNameChar) (l := c :: cs)
  have hne : (c :: cs).takeWhile Tag.isNameChar ≠ [] := by simp [hname]
  have hrest : ∀ d ∈ ((c :: cs).dropWhile Tag.isNameChar).head?, Tag.isNameChar d = false := by
    intro d hd
    have hhead := List.head?_dropWhile_not Tag.isNameChar (c :: cs)
    rw [hd] at hhead
    simpa using hhead
  have hnext := @Tag.next?_name [] _ _ (fun _ hb => nomatch hb)
    (fun d hd => List.mem_takeWhile_imp hd) hne hrest
  rwa [List.nil_append, hsplit] at hnext

theorem openTag?_eq {c : Char} {cs : List Char} (hc : Text.isAsciiAlpha c = true)
    (h : StandsAt source start ('<' :: c :: cs)) :
    openTag? source s start = some ((openTag s start (c :: cs)).map Step.place) := by
  have hcs : StandsAt source (start + 1) (c :: cs) := h.drop ['<']
  have hsplit := List.takeWhile_append_dropWhile (p := Tag.isNameChar) (l := c :: cs)
  have hname := hcs
  rw [← hsplit] at hname
  have hbehind := hname.drop _
  unfold openTag? openTag
  rw [from?_of_standsAt hcs, Option.bind_some, tokens_of_next (next?_letter hc)]
  simp only [Text.byteLength_nil, Nat.add_zero, hname.slice?, Option.bind_some,
    attributes?_eq hbehind]
  cases hread : readAttributes (start + 1 + Text.byteLength ((c :: cs).takeWhile Tag.isNameChar))
      none false ((c :: cs).dropWhile Tag.isNameChar) with
  | none =>
    simp only [Option.map_none, byteLength_of_standsAt hcs]
    rfl
  | some tag =>
    have hopens := opens_of_readAttributes hcs hread
    simp only [Option.map_some, TagEnd.parts]
    split
    · exact rawElement?_eq hopens.standsAt _
    · split <;> rfl

/-- An angle bracket that starts no comment and no closing tag. -/
theorem step_angle {cs : List Char} (hcomment : ¬ "<!--".toList.isPrefixOf ('<' :: cs) = true)
    (hslash : ¬ "</".toList.isPrefixOf ('<' :: cs) = true) :
    step source s start '<' cs =
      if cs.head?.any Text.isAsciiAlpha then openTag s start cs else .ok ⟨s, start + 1, cs⟩ := by
  unfold step
  rw [if_neg (by decide), if_pos rfl]
  split
  next body => exact absurd (by simp) hcomment
  next tag => exact absurd (by simp) hslash
  next d rest _ _ => rfl
  next => rfl

theorem element?_eq {c : Char} {cs : List Char} (hc : startsElement c = true)
    (h : StandsAt source start (c :: cs)) (hs : s.Bounded source start) :
    element? source s start = some ((step source s start c cs).map Step.place) := by
  unfold element?
  rw [from?_of_standsAt h, Option.bind_some]
  by_cases hbrace : c = '\x7b'
  · subst hbrace
    rw [step_expression, expressionEnd?_eq h]
    simp
    rfl
  · obtain rfl : c = '<' := by simpa [startsElement, hbrace] using hc
    rw [if_neg (by simp)]
    by_cases hcomment : "<!--".toList.isPrefixOf ('<' :: cs) = true
    · obtain ⟨body, hbody⟩ := List.isPrefixOf_iff_prefix.1 hcomment
      obtain rfl : '!' :: '-' :: '-' :: body = cs := List.tail_eq_of_cons_eq hbody
      rw [if_pos hcomment, commentEnd?_eq h, Option.map_some, step, if_neg (by decide), if_pos rfl]
      cases dropPast? "-->".toList body <;> rfl
    by_cases hslash : "</".toList.isPrefixOf ('<' :: cs) = true
    · obtain ⟨tag, htag⟩ := List.isPrefixOf_iff_prefix.1 hslash
      obtain rfl : '/' :: tag = cs := List.tail_eq_of_cons_eq htag
      rw [if_neg hcomment, if_pos hslash, closeTag?_eq h hs]
      rfl
    have hbehind : from? ('<' :: cs) 1 = some cs :=
      from?_of_standsAt ((StandsAt.zero ('<' :: cs)).drop ['<'])
    rw [if_neg hcomment, if_neg hslash, hbehind, Option.bind_some, step_angle hcomment hslash]
    cases cs with
    | nil => rfl
    | cons d rest =>
      by_cases hletter : (d :: rest).head?.any Text.isAsciiAlpha = true
      · rw [if_pos hletter, if_pos hletter]
        exact openTag?_eq hletter h
      · rw [if_neg hletter, if_neg hletter]
        rfl

/-- The text in front of the next element is passed at once. -/
theorem run_behindText (cs : List Char) :
    run source s offset cs = run source s
      (offset + Text.byteLength (cs.takeWhile (!startsElement ·))) (cs.dropWhile (!startsElement ·)) := by
  have htext : ∀ c ∈ cs.takeWhile (!startsElement ·), c ≠ '<' ∧ c ≠ '\x7b' := by
    intro c hc
    simpa [startsElement] using List.mem_takeWhile_imp hc
  conv_lhs => rw [← List.takeWhile_append_dropWhile (p := (!startsElement ·)) (l := cs)]
  exact run_text htext _

theorem startsElement_of_dropWhile {c : Char} {cs rest : List Char}
    (h : cs.dropWhile (!startsElement ·) = c :: rest) : startsElement c = true := by
  have hhead := List.head?_dropWhile_not (!startsElement ·) cs
  rw [h] at hhead
  simpa using hhead

theorem loop?_eq {cs : List Char} (h : StandsAt source offset cs)
    (hs : s.Bounded source offset) : loop? source s offset = some (run source s offset cs) := by
  induction hn : cs.length using Nat.strongRecOn generalizing offset s cs with
  | ind n ih =>
    rw [loop?]
    split
    next hfrom => cases (from?_of_standsAt h).symm.trans hfrom
    next cs' hfrom =>
      cases (from?_of_standsAt h).symm.trans hfrom
      have hsplit := List.takeWhile_append_dropWhile (p := (!startsElement ·)) (l := cs)
      rw [run_behindText]
      cases hd : cs.dropWhile (!startsElement ·) with
      | nil =>
        rw [hd, List.append_nil] at hsplit
        have hend : StandsAt source (Text.byteLength source) [] :=
          ⟨source, (List.append_nil _).symm, rfl⟩
        rw [offsetOf?_eq_none hd, hsplit, ← byteLength_of_standsAt h, run]
        dsimp only
        cases hlast : s.stack.getLast? with
        | none => simp
        | some e =>
          have hbounded := hs.mono h.isBoundary.le
          simp only [part?_eq hbounded hend.isBoundary (List.mem_of_getLast? hlast)]
          rfl
      | cons c rest =>
        rw [hd] at hsplit
        have hstands := (hsplit ▸ h).drop (cs.takeWhile (!startsElement ·))
        have hbounded := hs.mono (Nat.le_add_right offset
          (Text.byteLength (cs.takeWhile (!startsElement ·))))
        have hlen : rest.length < n := by
          rw [← hn, ← hsplit, List.length_append, List.length_cons]
          omega
        rw [offsetOf?_eq_some hd]
        dsimp only
        rw [element?_eq (startsElement_of_dropWhile hd) hstands hbounded, run_cons,
          Option.bind_some]
        cases hstep : step source s (offset + Text.byteLength (cs.takeWhile (!startsElement ·))) c
            rest with
        | error e => rfl
        | ok t =>
          obtain ⟨hnext, ht⟩ := step_bounded hstep hbounded hstands
          have hagain := ih t.rest.length
            (Nat.lt_of_le_of_lt (step_length hstep) hlen) (step_follows hstep hstands).standsAt ht rfl
          simp only [Except.map, Step.place, hnext, dif_pos, hagain]
          rfl

/-- A checked scan never fails a check, and finds what scanning finds. -/
theorem scan?_eq (source : String) : scan? source = some (ComponentBuild.scan source) := by
  rw [scan?, loop?_eq (StandsAt.zero _) (bounded_empty _), ComponentBuild.scan]
  cases run source.toList ⟨.empty, [], []⟩ 0 source.toList <;> rfl

end Scan

end ComponentBuild
