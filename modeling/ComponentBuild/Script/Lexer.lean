import ComponentBuild.Script.Token
import ComponentBuild.Text.Identifier
import ComponentBuild.Text.Offset

namespace ComponentBuild.Script

open Text

/-- Characters that end a line. -/
def isLineEnd (c : Char) : Bool :=
  c == '\n' || c == '\r' || c == '\u2028' || c == '\u2029'

/-- Characters between tokens that do not end a line. -/
def isSpace (c : Char) : Bool :=
  c == ' ' || c == '\t' || c == '\x0b' || c == '\x0c' || c == '\u00a0' || c == '\ufeff' ||
    c == '\u1680' || ('\u2000' ≤ c && c ≤ '\u200a') || c == '\u202f' || c == '\u205f' ||
    c == '\u3000'

/-- What the reader is inside of, between two tokens. -/
inductive Gap where
  | blank
  | line
  | block
  deriving DecidableEq, Repr

/-- The text from the next token on. -/
structure Gapped where
  pos : Nat
  rest : List Char
  afterBreak : Bool
  faults : List SyntaxError

/-- Skips white space and comments. A comment as in HTML is skipped too, and is a fault. -/
def skipGap : Gap → Bool → Nat → List Char → Gapped
  | .blank, broken, pos, '/' :: '/' :: cs => skipGap .line broken (pos + 2) cs
  | .blank, broken, pos, '/' :: '*' :: cs => skipGap .block broken (pos + 2) cs
  | .blank, broken, pos, '<' :: '!' :: '-' :: '-' :: cs =>
    let gap := skipGap .line broken (pos + 4) cs
    { gap with faults := ⟨.legacyComment, pos⟩ :: gap.faults }
  | .blank, true, pos, '-' :: '-' :: '>' :: cs =>
    let gap := skipGap .line true (pos + 3) cs
    { gap with faults := ⟨.legacyComment, pos⟩ :: gap.faults }
  | .blank, broken, pos, c :: cs =>
    if isLineEnd c then skipGap .blank true (pos + c.utf8Size) cs
    else if isSpace c then skipGap .blank broken (pos + c.utf8Size) cs
    else ⟨pos, c :: cs, broken, []⟩
  | .line, broken, pos, c :: cs =>
    if isLineEnd c then skipGap .blank true (pos + c.utf8Size) cs
    else skipGap .line broken (pos + c.utf8Size) cs
  | .block, broken, pos, '*' :: '/' :: cs => skipGap .blank broken (pos + 2) cs
  | .block, broken, pos, c :: cs => skipGap .block (broken || isLineEnd c) (pos + c.utf8Size) cs
  | .block, broken, pos, [] => ⟨pos, [], broken, [⟨.unterminatedComment, pos⟩]⟩
  | _, broken, pos, [] => ⟨pos, [], broken, []⟩

/-- The value of a digit of a base up to sixteen. -/
def digit? (radix : Nat) (c : Char) : Option Nat :=
  let value :=
    if c.isDigit then c.toNat - '0'.toNat
    else if 'a' ≤ c && c ≤ 'f' then c.toNat - 'a'.toNat + 10
    else if 'A' ≤ c && c ≤ 'F' then c.toNat - 'A'.toNat + 10
    else radix
  if value < radix then some value else none

def isDigitOf (radix : Nat) (c : Char) : Bool := (digit? radix c).isSome

def valueOf (radix : Nat) (digits : List Char) : Nat :=
  digits.foldl (fun n c => n * radix + (digit? radix c).getD 0) 0

/-- What an escape stands for, and how many characters behind the backslash it takes. -/
structure Escape where
  size : Nat
  value : Option Char
  faults : List SyntaxError

/-- The escape of a code point behind its `u`. The size counts the `u`. -/
def unicodeEscape (start : Nat) : List Char → Except SyntaxError Escape
  | '\x7b' :: cs =>
    let digits := cs.takeWhile (isDigitOf 16)
    if digits.isEmpty then .error ⟨.badEscape "1-6 hex characters", start⟩
    else if valueOf 16 digits > 0x10ffff then
      .error ⟨.badEscape "1-6 hex characters in the range 0 to 10FFFF.", start⟩
    else if cs[digits.length]? != some '\x7d' then .error ⟨.invalidUnicodeEscape, start⟩
    else .ok ⟨digits.length + 3, some (Char.ofNat (valueOf 16 digits)), []⟩
  | cs =>
    let digits := cs.take 4
    if digits.length = 4 && digits.all (isDigitOf 16) then
      .ok ⟨5, some (Char.ofNat (valueOf 16 digits)), []⟩
    else .error ⟨.badEscape "4 hex characters", start⟩

/-- The escape behind a backslash at `start`. -/
def escape (inTemplate : Bool) (start : Nat) : List Char → Except SyntaxError Escape
  | [] => .error ⟨.stringEscape, start⟩
  | 'u' :: cs => unicodeEscape start cs
  | 'x' :: cs =>
    let digits := cs.take 2
    if digits.length = 2 && digits.all (isDigitOf 16) then
      .ok ⟨3, some (Char.ofNat (valueOf 16 digits)), []⟩
    else .error ⟨.badEscape "2 hex characters", start⟩
  | '\r' :: '\n' :: _ => .ok ⟨2, none, []⟩
  | c :: cs =>
    if isLineEnd c then .ok ⟨1, none, []⟩
    else if isDigitOf 8 c && !(c == '0' && !cs.head?.any (isDigitOf 8)) then
      if inTemplate then .error ⟨.legacyOctal, start⟩
      else
        let most := if c < '4' then 2 else 1
        .ok ⟨1 + ((cs.take most).takeWhile (isDigitOf 8)).length, none, [⟨.legacyOctal, start⟩]⟩
    else .ok ⟨1, some c, []⟩

/-- An identifier without its escapes. -/
structure WordText where
  name : List Char
  stop : Nat
  rest : List Char
  escaped : Bool
  faults : List SyntaxError

/-- Reads an identifier on; `skip` characters belong to an escape that is read already. -/
def wordText (first : Bool) (skip : Nat) (pos : Nat) : List Char → Except SyntaxError WordText
  | [] => .ok ⟨[], pos, [], false, []⟩
  | c :: cs =>
    match skip with
    | n + 1 => wordText false n (pos + c.utf8Size) cs
    | 0 =>
      if c == '\\' then
        if cs.head? != some 'u' then .error ⟨.expectedUnicodeEscape, pos⟩
        else
          match unicodeEscape pos (cs.drop 1) with
          | .error e => .error e
          | .ok e =>
            let value := e.value.getD c
            match wordText false e.size (pos + 1) cs with
            | .error e => .error e
            | .ok word =>
              let valid := if first then isIdentifierStart value else isIdentifierPart value
              .ok { word with
                name := value :: word.name
                escaped := true
                faults := if valid then word.faults else ⟨.invalidIdentChar, pos⟩ :: word.faults }
      else if isIdentifierPart c then
        match wordText false 0 (pos + c.utf8Size) cs with
        | .error e => .error e
        | .ok word => .ok { word with name := c :: word.name }
      else .ok ⟨[], pos, c :: cs, false, []⟩

/-- A run of digits, separators included. -/
structure Digits where
  digits : List Char
  stop : Nat
  rest : List Char
  /-- A separator stands where there is no digit beside it. -/
  misplaced : Bool

/-- Whether a separator cannot stand beside the character. -/
def repelsSeparator (radix : Nat) (c : Char) : Bool :=
  if radix = 16 then c == '.' || c == 'X' || c == '_' || c == 'x'
  else ['.', 'B', 'E', 'O', '_', 'b', 'e', 'o'].contains c

def digitsFrom (radix : Nat) (before : Char) (pos : Nat) : List Char → Digits
  | [] => ⟨[], pos, [], false⟩
  | c :: cs =>
    if c == '_' then
      let run := digitsFrom radix c (pos + 1) cs
      let placed := cs.head?.any (isDigitOf radix) && !repelsSeparator radix before &&
        !cs.head?.any (repelsSeparator radix)
      { run with misplaced := run.misplaced || !placed }
    else if isDigitOf radix c then
      let run := digitsFrom radix c (pos + 1) cs
      { run with digits := c :: run.digits }
    else ⟨[], pos, c :: cs, false⟩

/-- What was read for one token. -/
structure Scanned where
  kind : TokenKind
  stop : Nat
  rest : List Char
  faults : List SyntaxError

def Scanned.invalid (e : SyntaxError) (stop : Nat) (rest : List Char) : Scanned :=
  ⟨.invalid e, stop, rest, []⟩

/-- No identifier starts right behind a number. -/
def Scanned.numberEnd (kind : TokenKind) (stop : Nat) (rest : List Char) (faults : List SyntaxError) :
    Scanned :=
  if rest.head?.any (fun c => isIdentifierStart c) then
    { Scanned.invalid ⟨.identAfterNumber, stop⟩ stop rest with faults }
  else ⟨kind, stop, rest, faults⟩

def separatorFault (run : Digits) (start : Nat) : List SyntaxError :=
  if run.misplaced then [⟨.numericSeparator, start⟩] else []

/-- An integer with the base named in front: `0x`, `0o` or `0b`. -/
def radixNumber (radix : Nat) (name : String) (mark : Char) (start : Nat) (cs : List Char) : Scanned :=
  let run := digitsFrom radix mark (start + 2) (cs.drop 2)
  let faults := separatorFault run (start + 2)
  if run.digits.isEmpty then
    { Scanned.invalid ⟨.expectedDigit name, start + 2⟩ run.stop run.rest with faults }
  else if run.rest.head? == some 'n' then
    Scanned.numberEnd .bigint (run.stop + 1) (run.rest.drop 1) faults
  else Scanned.numberEnd .number run.stop run.rest faults

/-- The exponent of a number, if there is one. -/
def exponent (pos : Nat) (cs : List Char) (faults : List SyntaxError) : Scanned :=
  if cs.head? == some 'e' || cs.head? == some 'E' then
    let signed := cs[1]? == some '+' || cs[1]? == some '-'
    let digitsAt := if signed then pos + 2 else pos + 1
    if cs.length = 1 then Scanned.invalid ⟨.exponentDigits, pos + 1⟩ (pos + 1) []
    else
      let run := digitsFrom 10 'e' digitsAt (cs.drop (digitsAt - pos))
      let faults := faults ++ separatorFault run digitsAt
      if run.digits.isEmpty then
        { Scanned.invalid ⟨.expectedDigit "a decimal", digitsAt⟩ run.stop run.rest with faults }
      else Scanned.numberEnd .number run.stop run.rest faults
  else Scanned.numberEnd .number pos cs faults

/-- The part of a number behind its integer. -/
def fraction (pos : Nat) (cs : List Char) (faults : List SyntaxError) : Scanned :=
  if cs.head? == some '.' then
    let run := digitsFrom 10 '.' (pos + 1) (cs.drop 1)
    exponent run.stop run.rest (faults ++ separatorFault run (pos + 1))
  else exponent pos cs faults

/-- A decimal number. One with a zero in front is octal if it can be, and a fault in any case. -/
def decimalNumber (typescript : Bool) (start : Nat) (cs : List Char) : Scanned :=
  let run := digitsFrom 10 ' ' start cs
  let faults := separatorFault run start
  if run.rest.head? == some 'n' then ⟨.bigint, run.stop + 1, run.rest.drop 1, faults⟩
  else if run.digits.head? == some '0' && 1 < run.digits.length then
    if run.digits.all (isDigitOf 8) then
      let octal := if typescript then [⟨.octalLiteral, start⟩] else []
      Scanned.numberEnd .number run.stop run.rest (faults ++ octal ++ [⟨.legacyOctal, start⟩])
    else fraction run.stop run.rest (faults ++ [⟨.legacyDecimal, start⟩])
  else fraction run.stop run.rest faults

def number (typescript : Bool) (start : Nat) (cs : List Char) : Scanned :=
  match cs with
  | '0' :: c :: _ =>
    if c == 'x' || c == 'X' then radixNumber 16 "a hexadecimal" c start cs
    else if c == 'o' || c == 'O' then radixNumber 8 "an octal" c start cs
    else if c == 'b' || c == 'B' then radixNumber 2 "a binary" c start cs
    else decimalNumber typescript start cs
  | '.' :: _ => fraction start cs []
  | _ => decimalNumber typescript start cs

/-- A string behind its opening quote. One that is not closed ends with its line. -/
def stringRest (quote : Char) (start : Nat) (skip : Nat) (pos : Nat) : List Char → Scanned
  | [] => ⟨.string, pos, [], [⟨.unterminatedString, start⟩]⟩
  | c :: cs =>
    match skip with
    | n + 1 => stringRest quote start n (pos + c.utf8Size) cs
    | 0 =>
      if c == quote then ⟨.string, pos + 1, cs, []⟩
      else if c == '\\' then
        match escape false pos cs with
        | .error e => Scanned.invalid e (pos + 1) cs
        | .ok e =>
          let piece := stringRest quote start e.size (pos + 1) cs
          { piece with faults := e.faults ++ piece.faults }
      else if c == '\n' || c == '\r' then ⟨.string, pos, c :: cs, [⟨.unterminatedString, start⟩]⟩
      else stringRest quote start 0 (pos + c.utf8Size) cs

/-- The text of a template up to its end or its next hole. The last bad escape is kept. -/
def templateRest (start : Nat) (bad : Option SyntaxError) (skip : Nat) (pos : Nat) :
    List Char → Scanned
  | [] => Scanned.invalid ⟨.unterminatedTemplate, start⟩ pos []
  | '$' :: '\x7b' :: cs =>
    match skip with
    | n + 1 => templateRest start bad n (pos + 1) ('\x7b' :: cs)
    | 0 => ⟨.template false bad, pos + 2, cs, []⟩
  | c :: cs =>
    match skip with
    | n + 1 => templateRest start bad n (pos + c.utf8Size) cs
    | 0 =>
      if c == '\x60' then ⟨.template true bad, pos + 1, cs, []⟩
      else if c == '\\' then
        match escape true pos cs with
        | .error e => templateRest start (some e) 0 (pos + 1) cs
        | .ok e => templateRest start bad e.size (pos + 1) cs
      else templateRest start bad 0 (pos + c.utf8Size) cs

/-- The body of a regular expression behind its slash, up to the slash that closes it or the end
of the line that leaves it open: whether it is closed, and the offset and the text behind. -/
def regexpBody (escaped inClass : Bool) (pos : Nat) : List Char → Bool × Nat × List Char
  | [] => (false, pos, [])
  | c :: cs =>
    if isLineEnd c then (false, pos, c :: cs)
    else if escaped then regexpBody false inClass (pos + c.utf8Size) cs
    else if c == '/' && !inClass then (true, pos + 1, cs)
    else regexpBody (c == '\\') ((inClass || c == '[') && c != ']') (pos + c.utf8Size) cs

/-- The first flag that stands twice. -/
def repeated? : List Char → Option Char
  | [] => none
  | c :: cs => if cs.contains c then some c else repeated? cs

/-- Flags are letters that mean something, each at most once. -/
def flagFaults (start : Nat) (flags : List Char) : List SyntaxError :=
  let known := ['d', 'g', 'i', 'm', 's', 'u', 'v', 'y']
  (if flags.all known.contains then [] else [⟨.unknownRegexpFlags, start⟩]) ++
    ((repeated? (flags.filter known.contains)).map
      fun flag => (⟨.duplicateRegexpFlag flag, start⟩ : SyntaxError)).toList

/-- A regular expression: where it stops, the text behind it, and whether that is one. -/
structure Regexp where
  stop : Nat
  rest : List Char
  outcome : Except SyntaxError (List SyntaxError)

/-- The regular expression whose slash stands at `start`, from the text behind that slash. -/
def regexp (start : Nat) (cs : List Char) : Regexp :=
  match regexpBody false false (start + 1) cs with
  | (false, pos, cs) => ⟨pos, cs, .error ⟨.unterminatedRegexp, start⟩⟩
  | (true, pos, cs) =>
    if cs.head?.any isIdentifierStart then
      match wordText true 0 pos cs with
      | .error e => ⟨pos, cs, .error e⟩
      | .ok flags =>
        ⟨flags.stop, flags.rest, .ok (flags.faults ++ flagFaults start flags.name)⟩
    else ⟨pos, cs, .ok []⟩

/-- A token and the text behind it. -/
structure Lexed where
  token : Token
  rest : List Char
  faults : List SyntaxError

def Lexed.ofScanned (gap : Gapped) (piece : Scanned) : Lexed where
  token :=
    { kind := piece.kind, start := gap.pos, stop := piece.stop, afterBreak := gap.afterBreak
      text := gap.rest.take (gap.rest.length - piece.rest.length) }
  rest := piece.rest
  faults := gap.faults ++ piece.faults

def wordPiece (start : Nat) (cs : List Char) : Scanned × List Char :=
  match wordText true 0 start cs with
  | .error e => (Scanned.invalid e (start + 1) (cs.drop 1), [])
  | .ok word =>
    let kind :=
      match Word.ofChars? word.name with
      | none => .ident
      | some w =>
        if word.escaped && w.isReserved then .invalid ⟨.escapeInWord w.text, start⟩ else .word w
    (⟨kind, word.stop, word.rest, word.faults⟩, word.name)

/-- The mark at the front. A question mark and a dot in front of a digit are two tokens. -/
def markPiece (start : Nat) (cs : List Char) : Scanned :=
  match cs with
  | '?' :: '.' :: d :: _ =>
    if d.isDigit then ⟨.mark .question, start + 1, cs.drop 1, []⟩
    else ⟨.mark .questionDot, start + 2, cs.drop 2, []⟩
  | _ =>
    match Mark.ofPrefix? cs with
    | some m => ⟨.mark m, start + m.chars.length, cs.drop m.chars.length, []⟩
    | none =>
      match cs with
      | [] => ⟨.endOfText, start, [], []⟩
      | c :: cs => Scanned.invalid ⟨.unexpectedChar c, start⟩ (start + c.utf8Size) cs

/-- The token at the front of the text at `pos`. -/
def nextToken (typescript : Bool) (first : Bool) (pos : Nat) (cs : List Char) : Lexed :=
  let gap := skipGap .blank first pos cs
  match gap.rest with
  | [] => Lexed.ofScanned gap ⟨.endOfText, gap.pos, [], []⟩
  | c :: tail =>
    if isIdentifierStart c || c == '\\' then
      let (piece, name) := wordPiece gap.pos gap.rest
      let lexed := Lexed.ofScanned gap piece
      { lexed with token.text := name }
    else if c.isDigit || (c == '.' && tail.head?.any Char.isDigit) then
      Lexed.ofScanned gap (number typescript gap.pos gap.rest)
    else if c == '\x22' || c == '\x27' then
      Lexed.ofScanned gap (stringRest c gap.pos 0 (gap.pos + 1) tail)
    else if c == '\x60' then
      Lexed.ofScanned gap (templateRest gap.pos none 0 (gap.pos + 1) tail)
    else Lexed.ofScanned gap (markPiece gap.pos gap.rest)

end ComponentBuild.Script
