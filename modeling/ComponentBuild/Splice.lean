import ComponentBuild.Position.LineIndex
import ComponentBuild.Position.Map
import ComponentBuild.Search
import ComponentBuild.Text.Span

namespace ComponentBuild

/-- A piece of a new text. -/
inductive Piece where
  /-- Text as it stands in the original from `start` on. -/
  | copied (start : Nat) (text : String)
  /-- Text with no counterpart in the original. -/
  | generated (text : String)
  /-- Text whose own map is added elsewhere. -/
  | external (text : String)
  /-- Text in the place of a span of the original. -/
  | replaced (original : Span) (text : String)
  deriving DecidableEq, Repr

def Piece.text : Piece → String
  | .copied _ text => text
  | .generated text => text
  | .external text => text
  | .replaced _ text => text

/-- A span of the new text and the span of the original it stands for. -/
structure Link where
  generated : Span
  original : Span
  deriving DecidableEq, Repr

/-- Spans of one length are taken to hold the same text. -/
def Link.isVerbatim (link : Link) : Bool := link.generated.length == link.original.length

/-- The offset of the original that an offset in the span of the new text stands for. -/
def Link.originalOffset? (link : Link) (offset : Nat) : Option Nat :=
  if link.generated.contains offset then
    some (if link.isVerbatim then link.original.start + (offset - link.generated.start)
      else link.original.start)
  else none

namespace Splice

def codeChars (pieces : List Piece) : List Char := pieces.flatMap (·.text.toList)

def code (pieces : List Piece) : String := String.ofList (codeChars pieces)

/-- The offset behind the pieces. -/
def size (pieces : List Piece) : Nat := Text.byteLength (codeChars pieces)

/-- The links of pieces that start at an offset of the new text. -/
def linksFrom (offset : Nat) : List Piece → List Link
  | [] => []
  | piece :: pieces =>
    let next := offset + Text.byteLength piece.text.toList
    match piece with
    | .copied start _ =>
      if next = offset then linksFrom next pieces
      else ⟨⟨offset, next⟩, ⟨start, start + (next - offset)⟩⟩ :: linksFrom next pieces
    | .replaced original _ => ⟨⟨offset, next⟩, original⟩ :: linksFrom next pieces
    | _ => linksFrom next pieces

def links (pieces : List Piece) : List Link := linksFrom 0 pieces

/-- The spans without counterpart of pieces that start at an offset of the new text. -/
def syntheticFrom (offset : Nat) : List Piece → List Span
  | [] => []
  | piece :: pieces =>
    let next := offset + Text.byteLength piece.text.toList
    match piece with
    | .generated _ =>
      if next = offset then syntheticFrom next pieces
      else ⟨offset, next⟩ :: syntheticFrom next pieces
    | _ => syntheticFrom next pieces

def synthetic (pieces : List Piece) : List Span := syntheticFrom 0 pieces

/-- The link that a search stops at: one that starts at the offset, or else the last in front. -/
def linkAt? (search : BinarySearch) (pieces : List Piece) (offset : Nat) : Option Link :=
  match search.find ((links pieces).map (·.generated.start)) offset with
  | .ok i => (links pieces)[i]?
  | .error 0 => none
  | .error (i + 1) => (links pieces)[i]?

/-- The offset of the original that an offset of the new text stands for. Inside text that was
replaced this is the start of what it replaced. -/
def originalOffset? (search : BinarySearch) (pieces : List Piece) (offset : Nat) : Option Nat :=
  (linkAt? search pieces offset).bind (·.originalOffset? offset)

inductive CharClass where
  | word
  | space
  | punctuation
  deriving DecidableEq, Repr

/-- Words take letters, digits, `_`, `$` and all that is not ASCII. -/
def classify (c : Char) : CharClass :=
  if c.isAlphanum || c == '_' || c == '$' || 128 ≤ c.val then .word
  else if c == ' ' || ('\t' ≤ c && c ≤ '\r') then .space
  else .punctuation

/-- Whether a token starts at `c` behind `previous`. -/
def startsToken (previous : Option Char) (c : Char) : Bool :=
  match previous with
  | none => true
  | some p => p == '\n' || classify c != classify p || classify c == .punctuation

/-- The offsets at which tokens start. -/
def tokenStarts (offset : Nat) (previous : Option Char) : List Char → List Nat
  | [] => []
  | c :: cs =>
    let rest := tokenStarts (offset + c.utf8Size) (some c) cs
    if startsToken previous c then offset :: rest else rest

/-- How far into a link its mappings are: at each token of verbatim text, else at its start. -/
def anchors (original : List Char) (link : Link) : List Nat :=
  match Text.slice? original link.original.start link.original.stop with
  | some text => if link.isVerbatim then tokenStarts 0 none text else [0]
  | none => [0]

/-- The map of the new text, whose one source is the original. Text without counterpart has a
mapping to nowhere, so that what stands in front of it does not speak for it. -/
def toPositionMap (pieces : List Piece) (generated original source : String) : PositionMap :=
  let generated := generated.toList
  let original := original.toList
  let generatedIndex := LineIndex.ofChars generated
  let originalIndex := LineIndex.ofChars original
  let (m, source) := PositionMap.empty.addSource source
  let m := (synthetic pieces).foldl (fun m span =>
    match generatedIndex.unitLineCol? generated span.start with
    | some start => m.addMapping start none
    | none => m) m
  (links pieces).foldl (fun m link =>
    (anchors original link).foldl (fun m delta =>
      match generatedIndex.unitLineCol? generated (link.generated.start + delta),
          originalIndex.unitLineCol? original (link.original.start + delta) with
      | some p, some q => m.add p source q
      | _, _ => m) m) m

end Splice

end ComponentBuild
