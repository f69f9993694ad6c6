import ComponentBuild.Document.Scan
import ComponentBuild.Proofs.Text.Offset

namespace ComponentBuild

/-- What an attribute is written with behind its equals sign. -/
inductive WrittenValue where
  | doubleQuoted (text : List Char) (plain : '"' ∉ text)
  | singleQuoted (text : List Char) (plain : '\'' ∉ text)
  | braced (text : List Char) (plain : ∀ c ∈ text, Tag.isBrace c = false)

namespace WrittenValue

def kind : WrittenValue → Tag.TokenKind
  | doubleQuoted _ _ => .doubleQuoted
  | singleQuoted _ _ => .singleQuoted
  | braced _ _ => .expression

def render : WrittenValue → List Char
  | doubleQuoted text _ => '"' :: text ++ ['"']
  | singleQuoted text _ => '\'' :: text ++ ['\'']
  | braced text _ => '\x7b' :: text ++ ['\x7d']

/-- The value without its quotes. Braces are part of a value. -/
def value : WrittenValue → String
  | doubleQuoted text _ => String.ofList text
  | singleQuoted text _ => String.ofList text
  | braced text _ => String.ofList ('\x7b' :: text ++ ['\x7d'])

end WrittenValue

/-- An attribute with the blanks in front of it. One without a value is a flag. -/
structure WrittenAttribute where
  blanks : List Char
  name : List Char
  value : Option WrittenValue
  blanks_blank : ∀ c ∈ blanks, Tag.isBlank c = true
  blanks_ne_nil : blanks ≠ []
  name_char : ∀ c ∈ name, Tag.isNameChar c = true
  name_ne_nil : name ≠ []

namespace WrittenAttribute

def renderValue (a : WrittenAttribute) : List Char :=
  match a.value with
  | none => []
  | some v => '=' :: v.render

def render (a : WrittenAttribute) : List Char := a.blanks ++ (a.name ++ a.renderValue)

/-- The attribute, where its blanks start at an offset. -/
def toAttribute (a : WrittenAttribute) (offset : Nat) : Attribute :=
  let start := offset + Text.byteLength a.blanks
  ⟨String.ofList a.name, a.value.map WrittenValue.value,
    ⟨start, start + Text.byteLength (a.name ++ a.renderValue)⟩⟩

end WrittenAttribute

def renderAttributes : List WrittenAttribute → List Char
  | [] => []
  | a :: as => a.render ++ renderAttributes as

def attributesAt (offset : Nat) : List WrittenAttribute → List Attribute
  | [] => []
  | a :: as => a.toAttribute offset :: attributesAt (offset + Text.byteLength a.render) as

/-- What any attribute may have behind its equals sign. -/
inductive PrintedValue where
  | enclosed (v : WrittenValue)
  | bare (text : List Char) (plain : ∀ c ∈ text, Tag.isNameChar c = true) (ne_nil : text ≠ [])

namespace PrintedValue

def print : PrintedValue → List Char
  | enclosed v => v.render
  | bare text _ _ => text

def value : PrintedValue → String
  | enclosed v => v.value
  | bare text _ _ => String.ofList text

end PrintedValue

/-- An attribute of any form with the blanks in front of it. -/
structure PrintedAttribute where
  blanks : List Char
  name : List Char
  value : Option PrintedValue
  blanks_blank : ∀ c ∈ blanks, Tag.isBlank c = true
  blanks_ne_nil : blanks ≠ []
  name_char : ∀ c ∈ name, Tag.isNameChar c = true
  name_ne_nil : name ≠ []

namespace PrintedAttribute

def printValue (a : PrintedAttribute) : List Char :=
  match a.value with
  | none => []
  | some v => '=' :: v.print

/-- The attribute without the blanks. -/
def text (a : PrintedAttribute) : List Char := a.name ++ a.printValue

def print (a : PrintedAttribute) : List Char := a.blanks ++ a.text

/-- The attribute, where its blanks start at an offset. -/
def toAttribute (a : PrintedAttribute) (offset : Nat) : Attribute :=
  let start := offset + Text.byteLength a.blanks
  ⟨String.ofList a.name, a.value.map PrintedValue.value, ⟨start, start + Text.byteLength a.text⟩⟩

end PrintedAttribute

def printAttributes : List PrintedAttribute → List Char
  | [] => []
  | a :: as => a.print ++ printAttributes as

def printedAt (offset : Nat) : List PrintedAttribute → List Attribute
  | [] => []
  | a :: as => a.toAttribute offset :: printedAt (offset + Text.byteLength a.print) as

namespace WrittenAttribute

def toPrinted (a : WrittenAttribute) : PrintedAttribute where
  blanks := a.blanks
  name := a.name
  value := a.value.map .enclosed
  blanks_blank := a.blanks_blank
  blanks_ne_nil := a.blanks_ne_nil
  name_char := a.name_char
  name_ne_nil := a.name_ne_nil

theorem toPrinted_print (a : WrittenAttribute) : a.toPrinted.print = a.render := by
  obtain ⟨blanks, name, value, -, -, -, -⟩ := a
  cases value <;> rfl

theorem toPrinted_toAttribute (a : WrittenAttribute) (offset : Nat) :
    a.toPrinted.toAttribute offset = a.toAttribute offset := by
  obtain ⟨blanks, name, value, -, -, -, -⟩ := a
  cases value <;> rfl

end WrittenAttribute

theorem printAttributes_map (as : List WrittenAttribute) :
    printAttributes (as.map WrittenAttribute.toPrinted) = renderAttributes as := by
  induction as with
  | nil => rfl
  | cons a as ih =>
    rw [List.map_cons, printAttributes, ih, a.toPrinted_print]
    rfl

theorem printedAt_map (offset : Nat) (as : List WrittenAttribute) :
    printedAt offset (as.map WrittenAttribute.toPrinted) = attributesAt offset as := by
  induction as generalizing offset with
  | nil => rfl
  | cons a as ih =>
    rw [List.map_cons, printedAt, ih, a.toPrinted_toAttribute, a.toPrinted_print]
    rfl

/-- The end of an opening tag. -/
def tagEnd (selfClosing : Bool) : List Char := if selfClosing then ['/', '>'] else ['>']

theorem takeWhile_front {p : Char → Bool} {front : List Char} (rest : List Char)
    (h : ∀ c ∈ front, p c = true) (hrest : ∀ c ∈ rest.head?, p c = false) :
    (front ++ rest).takeWhile p = front ∧ (front ++ rest).dropWhile p = rest := by
  rw [List.takeWhile_append_of_pos h, List.dropWhile_append_of_pos h]
  cases rest with
  | nil => simp
  | cons c cs => simp [hrest c rfl]

namespace Tag

theorem isNameChar_of_isBlank {c : Char} (h : isBlank c = true) : isNameChar c = false := by
  simp only [isBlank, Bool.or_eq_true, beq_iff_eq] at h
  rcases h with (((rfl | rfl) | rfl) | rfl) | rfl <;> decide

theorem isBlank_of_isNameChar {c : Char} (h : isNameChar c = true) : isBlank c = false := by
  cases hb : isBlank c with
  | false => rfl
  | true =>
    rw [isNameChar_of_isBlank hb] at h
    contradiction

/-- Induction over the tokens of a text. -/
theorem tokenInduction {motive : List Char → Prop}
    (ends : ∀ cs, next? cs = none → motive cs)
    (token : ∀ cs blanks x, next? cs = some (blanks, x) → motive x.rest → motive cs)
    (cs : List Char) : motive cs := by
  induction hn : cs.length using Nat.strongRecOn generalizing cs with
  | ind n ih =>
    cases hnext : next? cs with
    | none => exact ends cs hnext
    | some found =>
      obtain ⟨blanks, x⟩ := found
      exact token cs blanks x hnext (ih x.rest.length (hn ▸ next?_rest_length hnext) x.rest rfl)

theorem next?_front {blanks : List Char} {c : Char} {cs : List Char}
    (h : ∀ b ∈ blanks, isBlank b = true) (hc : isBlank c = false) :
    next? (blanks ++ c :: cs) = some (blanks, lexeme c cs) := by
  have hfront := takeWhile_front (c :: cs) h (by simp [hc])
  rw [next?, hfront.1, hfront.2]

theorem next?_cons {c : Char} {cs : List Char} (hc : isBlank c = false) :
    next? (c :: cs) = some ([], lexeme c cs) :=
  @next?_front [] c cs (fun _ h => nomatch h) hc

theorem lexeme_name {c : Char} {cs rest : List Char} (h : ∀ d ∈ c :: cs, isNameChar d = true)
    (hrest : ∀ d ∈ rest.head?, isNameChar d = false) :
    lexeme c (cs ++ rest) = ⟨.name, c :: cs, rest⟩ := by
  have hc := h c (List.mem_cons_self ..)
  have hne : ∀ d, isNameChar d = false → c ≠ d := by
    rintro d hd rfl
    rw [hd] at hc
    contradiction
  have hcs := takeWhile_front rest (fun d hd => h d (List.mem_cons_of_mem _ hd)) hrest
  unfold lexeme
  rw [if_neg (hne '>' rfl), if_neg (hne '/' rfl), if_neg (hne '=' rfl),
    if_neg (hne '"' rfl), if_neg (hne '\'' rfl), if_neg (hne '\x7b' rfl), if_pos hc, hcs.1, hcs.2]

theorem next?_name {blanks name rest : List Char} (hb : ∀ b ∈ blanks, isBlank b = true)
    (hname : ∀ d ∈ name, isNameChar d = true) (hne : name ≠ [])
    (hrest : ∀ d ∈ rest.head?, isNameChar d = false) :
    next? (blanks ++ (name ++ rest)) = some (blanks, ⟨.name, name, rest⟩) := by
  cases name with
  | nil => exact absurd rfl hne
  | cons c cs =>
    have hc := isBlank_of_isNameChar (hname c (List.mem_cons_self ..))
    rw [List.cons_append, next?_front hb hc, lexeme_name hname hrest]

theorem quoted_front {q : Char} {text rest : List Char} (kind : TokenKind) (h : q ∉ text) :
    quoted kind q (text ++ q :: rest) = ⟨kind, q :: text ++ [q], rest⟩ := by
  have hp : ∀ c ∈ text, (c != q) = true := by
    intro c hc
    rw [bne_iff_ne]
    exact fun he => h (he ▸ hc)
  have hfront := takeWhile_front (q :: rest) hp (by simp)
  rw [quoted, hfront.1, hfront.2]

theorem braced_front {text rest : List Char} (h : ∀ c ∈ text, isBrace c = false) :
    braced (text ++ '\x7d' :: rest) = ⟨.expression, '\x7b' :: text ++ ['\x7d'], rest⟩ := by
  have hp : ∀ c ∈ text, (!isBrace c) = true := by simpa using h
  have hfront := takeWhile_front ('\x7d' :: rest) hp (by simp [isBrace])
  unfold braced
  simp only [hfront.1, hfront.2]

theorem next?_value (v : WrittenValue) (rest : List Char) :
    next? (v.render ++ rest) = some ([], ⟨v.kind, v.render, rest⟩) := by
  cases v with
  | doubleQuoted text plain =>
    simp only [WrittenValue.render, List.cons_append, List.append_assoc, List.nil_append]
    rw [next?_cons (by decide)]
    exact congrArg (fun x => some ([], x)) (quoted_front .doubleQuoted plain)
  | singleQuoted text plain =>
    simp only [WrittenValue.render, List.cons_append, List.append_assoc, List.nil_append]
    rw [next?_cons (by decide)]
    exact congrArg (fun x => some ([], x)) (quoted_front .singleQuoted plain)
  | braced text plain =>
    simp only [WrittenValue.render, List.cons_append, List.append_assoc, List.nil_append]
    rw [next?_cons (by decide)]
    exact congrArg (fun x => some ([], x)) (braced_front plain)

end Tag

namespace Scan

variable {offset : Nat} {current : Option Attribute} {wants : Bool} {cs blanks : List Char}
  {x : Tag.Lexeme}

theorem readAttributes_of_none (h : Tag.next? cs = none) :
    readAttributes offset current wants cs = none := by
  rw [readAttributes]
  split
  next => rfl
  next h' =>
    rw [h] at h'
    contradiction

/-- A tag is read token by token. -/
theorem readAttributes_of_next (h : Tag.next? cs = some (blanks, x)) :
    readAttributes offset current wants cs =
      let start := offset + Text.byteLength blanks
      let stop := start + Text.byteLength x.text
      let given (value : String) := current.map fun a =>
        { a with value := some value, span := ⟨a.span.start, stop⟩ }
      match x.kind with
      | .closeAngle => some ⟨current.toList, false, stop, x.rest⟩
      | .slashAngle => some ⟨current.toList, true, stop, x.rest⟩
      | .equals => readAttributes stop current current.isSome x.rest
      | .name =>
        if wants then readAttributes stop (given (String.ofList x.text)) false x.rest
        else
          (readAttributes stop (some ⟨String.ofList x.text, none, ⟨start, stop⟩⟩) false x.rest).map
            (·.withFirst current)
      | .doubleQuoted | .singleQuoted | .expression =>
        if wants then readAttributes stop (given (unquote x.kind x.text)) false x.rest
        else readAttributes stop current wants x.rest
      | _ => readAttributes stop current wants x.rest := by
  rw [readAttributes]
  split
  next h' =>
    rw [h] at h'
    contradiction
  next h' =>
    cases h.symm.trans h'
    rfl

theorem readAttributes_name (h : Tag.next? cs = some (blanks, x)) (hx : x.kind = .name) :
    readAttributes offset current false cs =
      (readAttributes (offset + Text.byteLength blanks + Text.byteLength x.text)
        (some ⟨String.ofList x.text, none, ⟨offset + Text.byteLength blanks,
          offset + Text.byteLength blanks + Text.byteLength x.text⟩⟩) false x.rest).map
        (·.withFirst current) := by
  rw [readAttributes_of_next h]
  simp only [hx, Bool.false_eq_true, if_false]

theorem readAttributes_equals {a : Attribute} (h : Tag.next? cs = some (blanks, x))
    (hx : x.kind = .equals) :
    readAttributes offset (some a) false cs =
      readAttributes (offset + Text.byteLength blanks + Text.byteLength x.text) (some a) true
        x.rest := by
  rw [readAttributes_of_next h]
  simp only [hx, Option.isSome_some]

theorem readAttributes_value {a : Attribute} (v : WrittenValue)
    (h : Tag.next? cs = some (blanks, x)) (hx : x.kind = v.kind) (htext : x.text = v.render) :
    readAttributes offset (some a) true cs =
      readAttributes (offset + Text.byteLength blanks + Text.byteLength v.render)
        (some { a with
          value := some v.value
          span := ⟨a.span.start, offset + Text.byteLength blanks + Text.byteLength v.render⟩ })
        false x.rest := by
  rw [readAttributes_of_next h]
  cases v <;> simp [hx, htext, WrittenValue.kind, WrittenValue.render, WrittenValue.value, unquote]

theorem readAttributes_bare {a : Attribute} (h : Tag.next? cs = some (blanks, x))
    (hx : x.kind = .name) :
    readAttributes offset (some a) true cs =
      readAttributes (offset + Text.byteLength blanks + Text.byteLength x.text)
        (some { a with
          value := some (String.ofList x.text)
          span := ⟨a.span.start, offset + Text.byteLength blanks + Text.byteLength x.text⟩ })
        false x.rest := by
  rw [readAttributes_of_next h]
  simp only [hx, if_true, Option.map_some]

theorem readAttributes_end (selfClosing : Bool) (rest : List Char)
    (hb : ∀ b ∈ blanks, Tag.isBlank b = true) :
    readAttributes offset current wants (blanks ++ (tagEnd selfClosing ++ rest)) =
      some ⟨current.toList, selfClosing, offset + Text.byteLength (blanks ++ tagEnd selfClosing),
        rest⟩ := by
  have h : Tag.next? (blanks ++ (tagEnd selfClosing ++ rest)) =
      some (blanks, ⟨if selfClosing then .slashAngle else .closeAngle, tagEnd selfClosing, rest⟩) := by
    cases selfClosing <;> exact Tag.next?_front hb rfl
  rw [readAttributes_of_next h, Text.byteLength_append, ← Nat.add_assoc]
  cases selfClosing <;> rfl

theorem head_blanks (hb : ∀ b ∈ blanks, Tag.isBlank b = true) (hne : blanks ≠ [])
    (text : List Char) : ∀ c ∈ (blanks ++ text).head?, Tag.isBlank c = true := by
  cases blanks with
  | nil => exact absurd rfl hne
  | cons b blanks =>
    intro c hc
    cases hc
    exact hb _ (List.mem_cons_self ..)

/-- What attributes are printed with ends a name or a word in front of them. -/
theorem head_printAttributes (as : List PrintedAttribute) {text : List Char}
    (htext : ∀ c ∈ text.head?, Tag.isNameChar c = false) :
    ∀ c ∈ (printAttributes as ++ text).head?, Tag.isNameChar c = false := by
  cases as with
  | nil => exact htext
  | cons a as =>
    intro c hc
    rw [printAttributes, PrintedAttribute.print] at hc
    simp only [List.append_assoc] at hc
    exact Tag.isNameChar_of_isBlank (head_blanks a.blanks_blank a.blanks_ne_nil _ c hc)

/-- What stands behind the name of a tag or of a flag, or behind a value without quotes, ends it. -/
theorem head_printed (as : List PrintedAttribute) (selfClosing : Bool) (rest : List Char)
    (hb : ∀ b ∈ blanks, Tag.isBlank b = true) :
    ∀ d ∈ (printAttributes as ++ (blanks ++ (tagEnd selfClosing ++ rest))).head?,
      Tag.isNameChar d = false := by
  refine head_printAttributes as fun d hd => ?_
  cases blanks with
  | nil => cases selfClosing <;> cases hd <;> decide
  | cons b bs =>
    cases hd
    exact Tag.isNameChar_of_isBlank (hb d (List.mem_cons_self ..))

theorem head_attributes (as : List WrittenAttribute) (selfClosing : Bool) (rest : List Char)
    (hb : ∀ b ∈ blanks, Tag.isBlank b = true) :
    ∀ d ∈ (renderAttributes as ++ (blanks ++ (tagEnd selfClosing ++ rest))).head?,
      Tag.isNameChar d = false := by
  rw [← printAttributes_map]
  exact head_printed _ selfClosing rest hb

/-- An attribute gets the value that is written behind it, in the place of one that it has. -/
theorem readAttributes_printValue (a : PrintedAttribute) (name : String) (given : Option String)
    (start : Nat) {tail : List Char} (htail : ∀ d ∈ tail.head?, Tag.isNameChar d = false) :
    readAttributes offset (some ⟨name, given, ⟨start, offset⟩⟩) false (a.printValue ++ tail) =
      readAttributes (offset + Text.byteLength a.printValue)
        (some ⟨name, (a.value.map PrintedValue.value).or given,
          ⟨start, offset + Text.byteLength a.printValue⟩⟩) false tail := by
  unfold PrintedAttribute.printValue
  cases a.value with
  | none => rfl
  | some v =>
    have hequals : Tag.next? ('=' :: v.print ++ tail) =
        some ([], ⟨.equals, ['='], v.print ++ tail⟩) := Tag.next?_cons rfl
    rw [readAttributes_equals hequals rfl]
    cases v with
    | enclosed v =>
      rw [PrintedValue.print, readAttributes_value v (Tag.next?_value v tail) rfl rfl]
      simp only [Text.byteLength_nil, Text.byteLength_cons, Nat.add_zero, Nat.add_assoc]
      rfl
    | bare text plain ne_nil =>
      have hbare : Tag.next? (text ++ tail) = some ([], ⟨.name, text, tail⟩) :=
        @Tag.next?_name [] text tail (fun _ h => nomatch h) plain ne_nil htail
      rw [PrintedValue.print, readAttributes_bare hbare rfl]
      simp only [Text.byteLength_nil, Text.byteLength_cons, Nat.add_zero, Nat.add_assoc]
      rfl

/-- Reading a tag gives the attributes that are printed in it. -/
theorem readAttributes_print (as : List PrintedAttribute) (selfClosing : Bool) (rest : List Char)
    (hb : ∀ b ∈ blanks, Tag.isBlank b = true) :
    readAttributes offset current false
        (printAttributes as ++ (blanks ++ (tagEnd selfClosing ++ rest))) =
      some ⟨current.toList ++ printedAt offset as, selfClosing,
        offset + Text.byteLength (printAttributes as ++ (blanks ++ tagEnd selfClosing)), rest⟩ := by
  -- An attribute is held back in `current` until the next one or the end of the tag is seen.
  induction as generalizing offset current with
  | nil =>
    rw [printedAt, List.append_nil]
    exact readAttributes_end selfClosing rest hb
  | cons a as ih =>
    let tail := printAttributes as ++ (blanks ++ (tagEnd selfClosing ++ rest))
    have hbehind : ∀ d ∈ tail.head?, Tag.isNameChar d = false :=
      head_printed as selfClosing rest hb
    have htail : ∀ d ∈ (a.printValue ++ tail).head?, Tag.isNameChar d = false := by
      intro d hd
      unfold PrintedAttribute.printValue at hd
      cases hv : a.value with
      | none =>
        rw [hv] at hd
        exact hbehind d hd
      | some v =>
        rw [hv] at hd
        cases hd
        decide
    have hname := Tag.next?_name a.blanks_blank a.name_char a.name_ne_nil htail
    have hprint : printAttributes (a :: as) ++ (blanks ++ (tagEnd selfClosing ++ rest)) =
        a.blanks ++ (a.name ++ (a.printValue ++ tail)) := by
      simp only [printAttributes, PrintedAttribute.print, PrintedAttribute.text,
        List.append_assoc, tail]
    rw [hprint, readAttributes_name hname rfl, readAttributes_printValue a _ none _ hbehind, ih]
    simp only [Option.or_none, Option.map_some, TagEnd.withFirst, printedAt, printAttributes,
      PrintedAttribute.toAttribute, PrintedAttribute.print, PrintedAttribute.text,
      Text.byteLength_append, Option.toList_some, List.cons_append, List.nil_append, Nat.add_assoc]

/-- Reading a tag gives the attributes that are written in it. -/
theorem readAttributes_render (as : List WrittenAttribute) (selfClosing : Bool) (rest : List Char)
    (hb : ∀ b ∈ blanks, Tag.isBlank b = true) :
    readAttributes offset current false
        (renderAttributes as ++ (blanks ++ (tagEnd selfClosing ++ rest))) =
      some ⟨current.toList ++ attributesAt offset as, selfClosing,
        offset + Text.byteLength (renderAttributes as ++ (blanks ++ tagEnd selfClosing)), rest⟩ := by
  rw [← printAttributes_map, ← printedAt_map]
  exact readAttributes_print _ selfClosing rest hb

end Scan

/-- A name that elements can have: a letter, and behind it letters, digits and all else that can
stand in names. -/
structure ElementName where
  first : Char
  others : List Char
  first_alpha : Text.isAsciiAlpha first = true
  others_char : ∀ c ∈ others, Tag.isNameChar c = true

namespace ElementName

def chars (n : ElementName) : List Char := n.first :: n.others

/-- The name as documents are searched for it. -/
def lowered (n : ElementName) : String := String.ofList (Text.lowercase n.chars)

/-- The tag that closes an element of the name. -/
def closingTag (n : ElementName) : List Char := '<' :: '/' :: (n.chars ++ ['>'])

theorem closingTag_append (n : ElementName) (rest : List Char) :
    n.closingTag ++ rest = '<' :: '/' :: (n.chars ++ '>' :: rest) := by
  simp only [closingTag, List.cons_append, List.append_assoc, List.nil_append]

/-- Whether elements of the name are scripts or styles. -/
def IsSection (n : ElementName) : Prop := n.lowered = "script" ∨ n.lowered = "style"

instance (n : ElementName) : Decidable n.IsSection := inferInstanceAs (Decidable (_ ∨ _))

end ElementName

theorem toNat_lt_of_isAlpha {c : Char} (h : c.isAlpha = true) : c.toNat < 128 := by
  rcases Bool.or_eq_true_iff.1 h with hupper | hlower
  · have hle : c.val ≤ 'Z'.val := (of_decide_eq_true hupper).2
    exact Nat.lt_of_le_of_lt (UInt32.le_iff_toNat_le.1 hle) (by decide)
  · have hle : c.val ≤ 'z'.val := of_decide_eq_true (Bool.and_eq_true_iff.1 hlower).2
    exact Nat.lt_of_le_of_lt (UInt32.le_iff_toNat_le.1 hle) (by decide)

theorem Tag.isNameChar_of_isAlpha {c : Char} (h : c.isAlpha = true) : isNameChar c = true := by
  have hascii : ∀ n < 128, (Char.ofNat n).isAlpha = true → isNameChar (Char.ofNat n) = true := by
    decide
  rw [← Char.ofNat_toNat c] at h ⊢
  exact hascii _ (toNat_lt_of_isAlpha (Char.ofNat_toNat c ▸ h)) h

theorem ElementName.chars_nameChar (n : ElementName) :
    ∀ c ∈ n.chars, Tag.isNameChar c = true := by
  intro c hc
  rcases List.mem_cons.1 hc with rfl | hc
  · exact Tag.isNameChar_of_isAlpha n.first_alpha
  · exact n.others_char c hc

/-- An opening tag up to its end. -/
structure OpeningTag where
  name : ElementName
  attributes : List WrittenAttribute
  blanks : List Char
  blanks_blank : ∀ c ∈ blanks, Tag.isBlank c = true

namespace OpeningTag

def render (t : OpeningTag) (selfClosing : Bool) : List Char :=
  '<' :: (t.name.chars ++ (renderAttributes t.attributes ++ (t.blanks ++ tagEnd selfClosing)))

/-- The attributes of a tag that starts at an offset. -/
def attributesFrom (t : OpeningTag) (offset : Nat) : List Attribute :=
  attributesAt (offset + 1 + Text.byteLength t.name.chars) t.attributes

end OpeningTag

namespace Scan

variable {source : List Char} {s : ScanState} {offset : Nat}

/-- Behind its name a tag is read as far as its attributes go. -/
theorem openTag_of_readAttributes (n : ElementName) {cs : List Char} {tag : TagEnd}
    (hcs : ∀ d ∈ cs.head?, Tag.isNameChar d = false)
    (h : readAttributes (offset + 1 + Text.byteLength n.chars) none false cs = some tag) :
    openTag s offset (n.chars ++ cs) =
      if n.IsSection then rawElement s offset n.lowered tag
      else if tag.selfClosing = true ∨ n.lowered ∈ voidElements then .ok ⟨s, tag.stop, tag.rest⟩
      else .ok ⟨{ s with stack := ⟨n.lowered, tag.stop⟩ :: s.stack }, tag.stop, tag.rest⟩ := by
  have hname := takeWhile_front cs n.chars_nameChar hcs
  unfold openTag
  simp only [hname.1, hname.2]
  rw [h]
  rfl

theorem openTag_render (t : OpeningTag) (selfClosing : Bool) (rest : List Char) :
    openTag s offset ((t.render selfClosing).tail ++ rest) =
      if t.name.IsSection then
        rawElement s offset t.name.lowered ⟨t.attributesFrom offset, selfClosing,
          offset + Text.byteLength (t.render selfClosing), rest⟩
      else if selfClosing = true ∨ t.name.lowered ∈ voidElements then
        .ok ⟨s, offset + Text.byteLength (t.render selfClosing), rest⟩
      else
        .ok ⟨{ s with
          stack := ⟨t.name.lowered, offset + Text.byteLength (t.render selfClosing)⟩ :: s.stack },
          offset + Text.byteLength (t.render selfClosing), rest⟩ := by
  have htext : (t.render selfClosing).tail ++ rest = t.name.chars ++
      (renderAttributes t.attributes ++ (t.blanks ++ (tagEnd selfClosing ++ rest))) := by
    simp only [OpeningTag.render, List.tail_cons, List.append_assoc]
  have hstop : offset + 1 + Text.byteLength t.name.chars + Text.byteLength
      (renderAttributes t.attributes ++ (t.blanks ++ tagEnd selfClosing)) =
      offset + Text.byteLength (t.render selfClosing) := by
    rw [OpeningTag.render, Text.byteLength_cons, Text.byteLength_append t.name.chars]
    simp only [Nat.add_assoc]
    rfl
  rw [htext, openTag_of_readAttributes t.name
    (head_attributes t.attributes selfClosing rest t.blanks_blank)
    (readAttributes_render t.attributes selfClosing rest t.blanks_blank), hstop]
  rfl

/-- Behind an angle bracket a name makes a tag. -/
theorem step_name (n : ElementName) (rest : List Char) :
    step source s offset '<' (n.chars ++ rest) = openTag s offset (n.chars ++ rest) := by
  obtain ⟨first, others, halpha, _⟩ := n
  simp only [ElementName.chars, List.cons_append]
  unfold step
  rw [if_neg (by decide), if_pos rfl]
  split
  next h =>
    obtain ⟨rfl, _⟩ := List.cons.inj h
    exact absurd halpha (by decide)
  next h =>
    obtain ⟨rfl, _⟩ := List.cons.inj h
    exact absurd halpha (by decide)
  next h =>
    obtain ⟨rfl, _⟩ := List.cons.inj h
    rw [if_pos halpha]
  next h => contradiction

theorem step_tag {t : OpeningTag} {selfClosing : Bool} {rest : List Char} :
    step source s offset '<' ((t.render selfClosing).tail ++ rest) =
      openTag s offset ((t.render selfClosing).tail ++ rest) := by
  rw [OpeningTag.render, List.tail_cons, List.append_assoc]
  exact step_name t.name _

theorem readClosingTag_of_none {name : Option String} {cs : List Char} (h : Tag.next? cs = none) :
    readClosingTag offset name cs = none := by
  rw [readClosingTag]
  split
  next => rfl
  next h' =>
    rw [h] at h'
    contradiction

theorem readClosingTag_of_next {name : Option String} {cs blanks : List Char} {x : Tag.Lexeme}
    (h : Tag.next? cs = some (blanks, x)) :
    readClosingTag offset name cs =
      let stop := offset + Text.byteLength blanks + Text.byteLength x.text
      if x.kind.closesTag then some (name, stop, x.rest)
      else
        readClosingTag stop
          (if x.kind = .name then name.or (some (String.ofList (Text.lowercase x.text))) else name)
          x.rest := by
  rw [readClosingTag]
  split
  next h' =>
    rw [h] at h'
    contradiction
  next h' =>
    cases h.symm.trans h'
    rfl

theorem readClosingTag_render (n : ElementName) (rest : List Char) :
    readClosingTag offset none (n.chars ++ '>' :: rest) =
      some (some n.lowered, offset + Text.byteLength (n.chars ++ ['>']), rest) := by
  have hname : Tag.next? (n.chars ++ '>' :: rest) = some ([], ⟨.name, n.chars, '>' :: rest⟩) :=
    @Tag.next?_name [] n.chars ('>' :: rest) (fun _ h => nomatch h) n.chars_nameChar
      (List.cons_ne_nil _ _) (fun d h => by cases h; decide)
  have hclose : Tag.next? ('>' :: rest) = some ([], ⟨.closeAngle, ['>'], rest⟩) :=
    Tag.next?_cons rfl
  rw [readClosingTag_of_next hname, if_neg (show ¬ Tag.TokenKind.name.closesTag = true by decide),
    if_pos rfl, readClosingTag_of_next hclose,
    if_pos (show Tag.TokenKind.closeAngle.closesTag = true by decide), Text.byteLength_append]
  simp only [Text.byteLength_nil, Nat.add_zero, Nat.add_assoc]
  rfl

theorem step_closingTag (n : ElementName) (rest : List Char) :
    step source s offset '<' (n.closingTag.tail ++ rest) =
      .ok ⟨ScanState.close s source n.lowered offset, offset + Text.byteLength n.closingTag,
        rest⟩ := by
  have htext : n.closingTag.tail ++ rest = '/' :: (n.chars ++ '>' :: rest) :=
    congrArg List.tail (n.closingTag_append rest)
  rw [htext]
  unfold step
  rw [if_neg (by decide), if_pos rfl]
  change closingTag source s offset (n.chars ++ '>' :: rest) = _
  rw [closingTag, readClosingTag_render]
  simp only [ElementName.closingTag, Text.byteLength_cons, ← Nat.add_assoc]
  rfl

end Scan

end ComponentBuild
