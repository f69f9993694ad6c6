import ComponentBuild.Proofs.Document.Shift

namespace ComponentBuild

namespace Tag

theorem next?_blank {c : Char} (h : isBlank c = true) (cs : List Char) :
    next? (c :: cs) = (next? cs).map fun found => (c :: found.1, found.2) := by
  unfold next?
  rw [List.dropWhile_cons_of_pos h, List.takeWhile_cons_of_pos h]
  cases cs.dropWhile isBlank <;> rfl

theorem braced_open {text rest : List Char} (h : ∀ c ∈ text, isBrace c = false) :
    braced (text ++ '\x7b' :: rest) = ⟨.invalid, '\x7b' :: text, '\x7b' :: rest⟩ := by
  have hp : ∀ c ∈ text, (!isBrace c) = true := by simpa using h
  have hfront := takeWhile_front ('\x7b' :: rest) hp (by simp [isBrace])
  unfold braced
  simp only [hfront.1, hfront.2]
  rfl

/-- A character that starts neither a name, a quoted value, an expression nor the end of a tag is a
token of its own. -/
theorem lexeme_single {c : Char} {cs : List Char} (hangle : c ≠ '>')
    (hquote : c ≠ '"' ∧ c ≠ '\'') (hopen : c ≠ '\x7b') (hslash : c = '/' → cs.head? ≠ some '>')
    (hname : isNameChar c = false) :
    ∃ kind : TokenKind, kind.closesTag = false ∧ lexeme c cs = ⟨kind, [c], cs⟩ := by
  unfold lexeme
  simp only [hangle, hquote.1, hquote.2, hopen, hname, Bool.false_eq_true, if_false]
  by_cases hc : c = '/'
  · rw [if_pos hc]
    refine ⟨.slash, rfl, ?_⟩
    split
    next => exact absurd rfl (hslash hc)
    next => rfl
  · rw [if_neg hc]
    by_cases he : c = '='
    · exact ⟨.equals, rfl, by rw [if_pos he]⟩
    · exact ⟨.invalid, rfl, by rw [if_neg he]⟩

end Tag

namespace Scan

/-- Whether the tag that is being read closes its element, where it ends, and the text behind it. -/
def endOfTag (offset : Nat) (cs : List Char) : Option (Bool × Nat × List Char) :=
  match _h : Tag.next? cs with
  | none => none
  | some (blanks, x) =>
    let stop := offset + Text.byteLength blanks + Text.byteLength x.text
    if x.kind.closesTag then some (x.kind == .slashAngle, stop, x.rest) else endOfTag stop x.rest
termination_by cs.length
decreasing_by exact Tag.next?_rest_length _h

variable {offset : Nat} {c : Char} {text cs rest blanks : List Char} {x : Tag.Lexeme}

theorem endOfTag_of_none (h : Tag.next? cs = none) : endOfTag offset cs = none := by
  rw [endOfTag]
  split
  next => rfl
  next h' =>
    rw [h] at h'
    contradiction

theorem endOfTag_of_next (h : Tag.next? cs = some (blanks, x)) :
    endOfTag offset cs =
      let stop := offset + Text.byteLength blanks + Text.byteLength x.text
      if x.kind.closesTag then some (x.kind == .slashAngle, stop, x.rest)
      else endOfTag stop x.rest := by
  rw [endOfTag]
  split
  next h' =>
    rw [h] at h'
    contradiction
  next h' =>
    cases h.symm.trans h'
    rfl

/-- The attributes have no part in where a tag ends. -/
theorem readAttributes_endOfTag (offset : Nat) (current : Option Attribute) (wants : Bool)
    (cs : List Char) :
    (readAttributes offset current wants cs).map (fun t => (t.selfClosing, t.stop, t.rest)) =
      endOfTag offset cs := by
  induction cs using Tag.tokenInduction generalizing offset current wants with
  | ends cs hnext => rw [readAttributes_of_none hnext, endOfTag_of_none hnext, Option.map_none]
  | token cs blanks x hnext hrest =>
    rw [readAttributes_of_next hnext, endOfTag_of_next hnext]
    cases x.kind with
    | closeAngle | slashAngle => rfl
    | equals | slash | endOfText | invalid => exact hrest _ _ _
    | name =>
      simp only []
      split
      · exact hrest _ _ _
      · rw [Option.map_map]
        exact hrest _ _ _
    | doubleQuoted | singleQuoted | expression =>
      simp only []
      split <;> exact hrest _ _ _

theorem endOfTag_blank (h : Tag.isBlank c = true) :
    endOfTag offset (c :: cs) = endOfTag (offset + c.utf8Size) cs := by
  have hblank := Tag.next?_blank h cs
  cases hnext : Tag.next? cs with
  | none =>
    rw [hnext, Option.map_none] at hblank
    rw [endOfTag_of_none hblank, endOfTag_of_none hnext]
  | some found =>
    rw [hnext, Option.map_some] at hblank
    rw [endOfTag_of_next hblank, endOfTag_of_next hnext]
    simp only [Text.byteLength_cons, Nat.add_assoc]

/-- A name is read to its end from any of its characters. -/
theorem endOfTag_nameChar (h : Tag.isNameChar c = true) :
    endOfTag offset (c :: cs) = endOfTag (offset + c.utf8Size) cs := by
  let name := cs.takeWhile Tag.isNameChar
  let back := cs.dropWhile Tag.isNameChar
  have hcs : cs = name ++ back := List.takeWhile_append_dropWhile.symm
  have hname : ∀ d ∈ name, Tag.isNameChar d = true := List.all_eq_true.1 List.all_takeWhile
  have hback : ∀ d ∈ back.head?, Tag.isNameChar d = false := by
    intro d hd
    have := List.head?_dropWhile_not Tag.isNameChar cs
    rw [show (cs.dropWhile Tag.isNameChar).head? = some d from hd] at this
    simpa using this
  have hcons : ∀ d ∈ c :: name, Tag.isNameChar d = true := by
    intro d hd
    rcases List.mem_cons.1 hd with rfl | hd
    · exact h
    · exact hname d hd
  have hwhole : Tag.next? (c :: cs) = some ([], ⟨.name, c :: name, back⟩) := by
    rw [Tag.next?_cons (Tag.isBlank_of_isNameChar h), hcs, Tag.lexeme_name hcons hback]
  rw [endOfTag_of_next hwhole]
  by_cases hne : name = []
  · have : cs = back := by rw [hcs, hne, List.nil_append]
    rw [this, hne]
    rfl
  · have htail : Tag.next? cs = some ([], ⟨.name, name, back⟩) := by
      rw [hcs]
      exact @Tag.next?_name [] name back (fun _ hb => nomatch hb) hname hne hback
    rw [endOfTag_of_next htail]
    simp only [Text.byteLength_cons, Text.byteLength_nil, Nat.add_zero, Nat.add_assoc]

/-- All but quotes, opening braces and what ends a tag can be read character by character. -/
theorem endOfTag_cons (hangle : c ≠ '>') (hquote : c ≠ '"' ∧ c ≠ '\'') (hopen : c ≠ '\x7b')
    (hslash : c = '/' → cs.head? ≠ some '>') :
    endOfTag offset (c :: cs) = endOfTag (offset + c.utf8Size) cs := by
  by_cases hblank : Tag.isBlank c = true
  · exact endOfTag_blank hblank
  · by_cases hname : Tag.isNameChar c = true
    · exact endOfTag_nameChar hname
    · rw [Bool.not_eq_true] at hblank hname
      obtain ⟨kind, hkind, hlexeme⟩ := Tag.lexeme_single hangle hquote hopen hslash hname
      have hnext := @Tag.next?_cons c cs hblank
      rw [hlexeme] at hnext
      rw [endOfTag_of_next hnext]
      simp only [hkind, Bool.false_eq_true, if_false, Text.byteLength_cons, Text.byteLength_nil,
        Nat.add_zero]

theorem endOfTag_close : endOfTag offset ('\x7d' :: cs) = endOfTag (offset + 1) cs :=
  endOfTag_cons (by decide) (by decide) (by decide) fun h => absurd h (by decide)

theorem endOfTag_angle : endOfTag offset ('>' :: cs) = some (false, offset + 1, cs) :=
  endOfTag_of_next (Tag.next?_cons (by decide))

theorem endOfTag_slashAngle : endOfTag offset ('/' :: '>' :: cs) = some (true, offset + 2, cs) :=
  endOfTag_of_next (Tag.next?_cons (by decide))

theorem endOfTag_name (h : ∀ c ∈ text, Tag.isNameChar c = true) :
    endOfTag offset (text ++ rest) = endOfTag (offset + Text.byteLength text) rest := by
  induction text generalizing offset with
  | nil => rfl
  | cons c text ih =>
    rw [List.cons_append, endOfTag_nameChar (h c (List.mem_cons_self ..)),
      ih fun d hd => h d (List.mem_cons_of_mem _ hd), Text.byteLength_cons, Nat.add_assoc]

theorem endOfTag_group (h : ∀ c ∈ text, Tag.isBrace c = false) :
    endOfTag offset ('\x7b' :: (text ++ '\x7d' :: rest)) =
      endOfTag (offset + Text.byteLength ('\x7b' :: (text ++ ['\x7d']))) rest := by
  have hnext : Tag.next? ('\x7b' :: (text ++ '\x7d' :: rest)) =
      some ([], ⟨.expression, '\x7b' :: text ++ ['\x7d'], rest⟩) := by
    rw [Tag.next?_cons (by decide)]
    exact congrArg (fun x => some ([], x)) (Tag.braced_front h)
  rw [endOfTag_of_next hnext]
  rfl

theorem endOfTag_nested (h : ∀ c ∈ text, Tag.isBrace c = false) :
    endOfTag offset ('\x7b' :: (text ++ '\x7b' :: rest)) =
      endOfTag (offset + Text.byteLength ('\x7b' :: text)) ('\x7b' :: rest) := by
  have hnext : Tag.next? ('\x7b' :: (text ++ '\x7b' :: rest)) =
      some ([], ⟨.invalid, '\x7b' :: text, '\x7b' :: rest⟩) := by
    rw [Tag.next?_cons (by decide)]
    exact congrArg (fun x => some ([], x)) (Tag.braced_open h)
  rw [endOfTag_of_next hnext]
  rfl

end Scan

/-- An angle bracket stands behind a closing brace, with no brace between the two. -/
def Exposed (e : List Char) : Prop :=
  ∃ front between back, e = front ++ '\x7d' :: (between ++ '>' :: back) ∧
    ∀ c ∈ between, Tag.isBrace c = false

section

variable {c : Char} {e : List Char}

theorem not_exposed_nil : ¬ Exposed [] := by
  rintro ⟨front, between, back, he, _⟩
  simp at he

theorem not_exposed_close : ¬ Exposed ['\x7d'] := by
  rintro ⟨_ | ⟨d, _ | ⟨d', front⟩⟩, between, back, he, _⟩ <;> simp at he

theorem exposed_angle : Exposed ('\x7d' :: '>' :: e) :=
  ⟨[], [], e, rfl, fun _ h => nomatch h⟩

theorem Exposed.cons (h : Exposed e) : Exposed (c :: e) := by
  obtain ⟨front, between, back, rfl, hbetween⟩ := h
  exact ⟨c :: front, between, back, rfl, hbetween⟩

theorem exposed_cons (hc : c ≠ '\x7d') : Exposed (c :: e) ↔ Exposed e := by
  constructor
  · rintro ⟨_ | ⟨d, front⟩, between, back, he, hbetween⟩
    · exact absurd (List.cons.inj he).1 hc
    · exact ⟨front, between, back, (List.cons.inj he).2, hbetween⟩
  · exact Exposed.cons

/-- What stands between a closing brace and the next one, if it is no angle bracket, has no part in
it. -/
theorem exposed_behind (hc : Tag.isBrace c = false) (hangle : c ≠ '>') :
    Exposed ('\x7d' :: c :: e) ↔ Exposed ('\x7d' :: e) := by
  have hclose : c ≠ '\x7d' := by
    rintro rfl
    contradiction
  constructor
  · rintro ⟨_ | ⟨d, front⟩, between, back, he, hbetween⟩
    · cases between with
      | nil => exact absurd (List.cons.inj (List.cons.inj he).2).1 hangle
      | cons d between =>
        refine ⟨[], between, back, ?_, fun d hd => hbetween d (List.mem_cons_of_mem _ hd)⟩
        rw [(List.cons.inj (List.cons.inj he).2).2]
        rfl
    · have hrest : Exposed (c :: e) := ⟨front, between, back, (List.cons.inj he).2, hbetween⟩
      exact ((exposed_cons hclose).1 hrest).cons
  · rintro ⟨_ | ⟨d, front⟩, between, back, he, hbetween⟩
    · refine ⟨[], c :: between, back, ?_, ?_⟩
      · rw [(List.cons.inj he).2]
        rfl
      · intro d hd
        rcases List.mem_cons.1 hd with rfl | hd
        · exact hc
        · exact hbetween d hd
    · have hrest : Exposed e := ⟨front, between, back, (List.cons.inj he).2, hbetween⟩
      exact hrest.cons.cons

theorem exposed_brace (hc : Tag.isBrace c = true) :
    Exposed ('\x7d' :: c :: e) ↔ Exposed (c :: e) := by
  constructor
  · rintro ⟨_ | ⟨d, front⟩, between, back, he, hbetween⟩
    · -- The brace would have to stand in between, or be the angle bracket.
      cases between with
      | nil =>
        rw [(List.cons.inj (List.cons.inj he).2).1] at hc
        contradiction
      | cons d between =>
        rw [(List.cons.inj (List.cons.inj he).2).1, hbetween d (List.mem_cons_self ..)] at hc
        contradiction
    · exact ⟨front, between, back, (List.cons.inj he).2, hbetween⟩
  · exact Exposed.cons

/-- Whether an angle bracket is exposed in a text, or in a text that stands behind a closing
brace. -/
def exposes (behind : Bool) : List Char → Bool
  | [] => false
  | c :: e =>
    if Tag.isBrace c then exposes (c == '\x7d') e
    else (behind && c == '>') || exposes behind e

theorem exposes_iff (e : List Char) :
    (exposes false e = true ↔ Exposed e) ∧ (exposes true e = true ↔ Exposed ('\x7d' :: e)) := by
  induction e with
  | nil => simp [exposes, not_exposed_nil, not_exposed_close]
  | cons c e ih =>
    cases hbrace : Tag.isBrace c with
    | true =>
      rw [exposed_brace hbrace]
      obtain rfl | rfl : c = '\x7b' ∨ c = '\x7d' := by
        simpa [Tag.isBrace] using hbrace
      · rw [exposed_cons (by decide)]
        exact ⟨ih.1, ih.1⟩
      · exact ⟨ih.2, ih.2⟩
    | false =>
      have hclose : c ≠ '\x7d' := by
        rintro rfl
        contradiction
      simp only [exposes, hbrace, Bool.false_eq_true, if_false, Bool.false_and, Bool.false_or,
        Bool.true_and, Bool.or_eq_true, beq_iff_eq]
      refine ⟨ih.1.trans (exposed_cons hclose).symm, ?_⟩
      by_cases hangle : c = '>'
      · rw [hangle]
        exact iff_of_true (.inl rfl) exposed_angle
      · rw [exposed_behind hbrace hangle, ← ih.2, or_iff_right hangle]

instance (e : List Char) : Decidable (Exposed e) := decidable_of_iff _ (exposes_iff e).1

end

namespace Scan

/-- How a text with a closing brace at its end is read in a tag: as a whole, or, with an angle
bracket exposed in it, no further than up to that. -/
structure Reads (exposed : Prop) (text rest : List Char) : Prop where
  whole : ¬ exposed → ∀ offset,
    endOfTag offset (text ++ rest) = endOfTag (offset + Text.byteLength text) rest
  part : exposed → ∀ offset, ∃ closing stop back,
    endOfTag offset (text ++ rest) = some (closing, stop, back ++ '\x7d' :: rest)

variable {exposed exposed' : Prop} {offset : Nat} {text e rest : List Char}

theorem Reads.of_iff (h : exposed' ↔ exposed) (hreads : Reads exposed text rest) :
    Reads exposed' text rest :=
  ⟨fun hx => hreads.whole fun hx' => hx (h.2 hx'), fun hx => hreads.part (h.1 hx)⟩

theorem Reads.prepend (front : List Char) (h : Reads exposed text rest)
    (hread : ∀ offset, endOfTag offset (front ++ (text ++ rest)) =
      endOfTag (offset + Text.byteLength front) (text ++ rest)) :
    Reads exposed (front ++ text) rest := by
  refine ⟨fun hx offset => ?_, fun hx offset => ?_⟩
  · rw [List.append_assoc, hread, h.whole hx, Text.byteLength_append, Nat.add_assoc]
  · rw [List.append_assoc, hread]
    exact h.part hx _

/-- An expression is read behind a closing brace, and behind an opening one with text between. -/
theorem reads_expression (hquote : ∀ c ∈ e, c ≠ '"' ∧ c ≠ '\'') (rest : List Char) :
    Reads (Exposed ('\x7d' :: e)) (e ++ ['\x7d']) rest ∧
      ∀ text, (∀ c ∈ text, Tag.isBrace c = false) →
        Reads (Exposed e) ('\x7b' :: text ++ (e ++ ['\x7d'])) rest := by
  induction e with
  | nil =>
    constructor
    · exact ⟨fun _ offset => endOfTag_close, fun h => absurd h not_exposed_close⟩
    · intro text htext
      refine ⟨fun _ offset => ?_, fun h => absurd h not_exposed_nil⟩
      have hgroup := @endOfTag_group offset text rest htext
      simpa using hgroup
  | cons c e ih =>
    obtain ⟨hbehind, hwithin⟩ := ih fun d hd => hquote d (List.mem_cons_of_mem _ hd)
    have hc := hquote c (List.mem_cons_self ..)
    cases hbrace : Tag.isBrace c with
    | true =>
      obtain rfl | rfl : c = '\x7b' ∨ c = '\x7d' := by
        simpa [Tag.isBrace] using hbrace
      · -- An opening brace starts anew, whatever stands in front of it.
        have hopen := hwithin [] (List.forall_mem_nil _)
        have hexposed : Exposed ('\x7b' :: e) ↔ Exposed e := exposed_cons (by decide)
        refine ⟨hopen.of_iff ((exposed_brace hbrace).trans hexposed), fun text htext => ?_⟩
        exact (hopen.of_iff hexposed).prepend ('\x7b' :: text) fun offset => endOfTag_nested htext
      · -- A closing brace ends the expression that is open, or is a token of its own.
        constructor
        · have hexposed : Exposed ('\x7d' :: '\x7d' :: e) ↔ Exposed ('\x7d' :: e) :=
            exposed_brace hbrace
          exact (hbehind.of_iff hexposed).prepend ['\x7d'] fun offset => endOfTag_close
        · intro text htext
          have hgroup (offset : Nat) :
              endOfTag offset ('\x7b' :: (text ++ ['\x7d']) ++ (e ++ ['\x7d'] ++ rest)) =
                endOfTag (offset + Text.byteLength ('\x7b' :: (text ++ ['\x7d'])))
                  (e ++ ['\x7d'] ++ rest) := by
            rw [List.cons_append, List.append_assoc]
            exact endOfTag_group htext
          simpa using hbehind.prepend _ hgroup
    | false =>
      have hbraces : c ≠ '\x7b' ∧ c ≠ '\x7d' := by
        simpa [Tag.isBrace] using hbrace
      constructor
      · by_cases hangle : c = '>'
        · subst hangle
          refine ⟨fun h => absurd exposed_angle h, fun _ offset => ⟨false, offset + 1, e, ?_⟩⟩
          rw [← List.append_cons]
          exact endOfTag_angle
        · have hexposed := exposed_behind (e := e) hbrace hangle
          by_cases hslash : c = '/' ∧ e.head? = some '>'
          · obtain ⟨rfl, he⟩ := hslash
            obtain ⟨e, rfl⟩ := List.head?_eq_some_iff.1 he
            refine ⟨fun h => absurd (hexposed.2 exposed_angle) h, fun _ offset => ?_⟩
            refine ⟨true, offset + 2, e, ?_⟩
            rw [← List.append_cons]
            exact endOfTag_slashAngle
          · refine (hbehind.of_iff hexposed).prepend [c] fun offset => ?_
            refine endOfTag_cons hangle hc hbraces.1 fun hcslash hhead => hslash ⟨hcslash, ?_⟩
            cases e with
            | nil => cases hhead
            | cons d e => exact hhead
      · intro text htext
        have htext' : ∀ d ∈ text ++ [c], Tag.isBrace d = false := by
          intro d hd
          rcases List.mem_append.1 hd with hd | hd
          · exact htext d hd
          · rw [List.mem_singleton.1 hd]
            exact hbrace
        have hread := (hwithin (text ++ [c]) htext').of_iff (exposed_cons hbraces.2)
        simpa using hread

end Scan

/-- A tag that closes its element and has one attribute, an expression. -/
structure ExpressionTag where
  name : ElementName
  attributeName : List Char
  expression : List Char
  attributeName_char : ∀ c ∈ attributeName, Tag.isNameChar c = true
  attributeName_ne_nil : attributeName ≠ []
  balanced : Balanced expression

namespace ExpressionTag

def attributeText (t : ExpressionTag) : List Char :=
  ' ' :: (t.attributeName ++ '=' :: '\x7b' :: (t.expression ++ ['\x7d']))

/-- The tag behind its name. -/
def behindName (t : ExpressionTag) : List Char := t.attributeText ++ " />".toList

def render (t : ExpressionTag) : List Char := '<' :: (t.name.chars ++ t.behindName)

end ExpressionTag

theorem Balanced.no_quote {e : List Char} (h : Balanced e) : ∀ c ∈ e, c ≠ '"' ∧ c ≠ '\'' := by
  induction h with
  | nil => exact fun c hc => nomatch hc
  | plain _ quote _ ih =>
    intro c hc
    rcases List.mem_cons.1 hc with rfl | hc
    · exact ⟨quote.1, quote.2.1⟩
    · exact ih c hc
  | group _ _ ih ih' =>
    intro c hc
    rcases List.mem_cons.1 hc with rfl | hc
    · decide
    rcases List.mem_append.1 hc with hc | hc
    · exact ih c hc
    rcases List.mem_cons.1 hc with rfl | hc
    · decide
    · exact ih' c hc

namespace Scan

variable {source : List Char} {s : ScanState} {offset : Nat}

/-- The attribute is read as its expression is. -/
theorem reads_attributeText (t : ExpressionTag) (rest : List Char) :
    Reads (Exposed t.expression) t.attributeText rest := by
  have hexpression := (reads_expression t.balanced.no_quote rest).2 [] (List.forall_mem_nil _)
  have hequals := hexpression.prepend ['='] fun offset =>
    endOfTag_cons (by decide) (by decide) (by decide) fun h => absurd h (by decide)
  have hname := hequals.prepend t.attributeName fun offset => endOfTag_name t.attributeName_char
  exact hname.prepend [' '] fun offset => endOfTag_blank (by decide)

theorem endOfTag_behindName (t : ExpressionTag) (h : ¬ Exposed t.expression) (offset : Nat)
    (rest : List Char) :
    endOfTag offset (t.behindName ++ rest) =
      some (true, offset + Text.byteLength t.behindName, rest) := by
  have hread := (reads_attributeText t (" />".toList ++ rest)).whole h offset
  rw [ExpressionTag.behindName, List.append_assoc, hread]
  change endOfTag _ (' ' :: '/' :: '>' :: rest) = _
  rw [endOfTag_blank (by decide), endOfTag_slashAngle, Text.byteLength_append]
  rfl

/-- With an angle bracket exposed in its expression, a tag is cut short. -/
theorem endOfTag_behindName_exposed (t : ExpressionTag) (h : Exposed t.expression) (offset : Nat)
    (rest : List Char) :
    ∃ closing stop more, endOfTag offset (t.behindName ++ rest) = some (closing, stop, more) ∧
      rest.length < more.length := by
  obtain ⟨closing, stop, back, hread⟩ := (reads_attributeText t (" />".toList ++ rest)).part h offset
  rw [ExpressionTag.behindName, List.append_assoc]
  refine ⟨closing, stop, _, hread, ?_⟩
  simp only [List.length_append, List.length_cons]
  omega

/-- What a tag makes depends on its name and on where it ends. -/
theorem openTag_of_endOfTag {n : ElementName} {cs rest : List Char} {closing : Bool} {stop : Nat}
    (hcs : ∀ d ∈ cs.head?, Tag.isNameChar d = false)
    (h : endOfTag (offset + 1 + Text.byteLength n.chars) cs = some (closing, stop, rest)) :
    ∃ attributes, openTag s offset (n.chars ++ cs) =
      if n.IsSection then rawElement s offset n.lowered ⟨attributes, closing, stop, rest⟩
      else if closing = true ∨ n.lowered ∈ voidElements then .ok ⟨s, stop, rest⟩
      else .ok ⟨{ s with stack := ⟨n.lowered, stop⟩ :: s.stack }, stop, rest⟩ := by
  have hname := takeWhile_front cs n.chars_nameChar hcs
  rw [← readAttributes_endOfTag _ none false] at h
  obtain ⟨tag, hread, htag⟩ := Option.map_eq_some_iff.1 h
  obtain ⟨attributes, selfClosing, tagStop, tagRest⟩ := tag
  simp only [Prod.mk.injEq] at htag
  obtain ⟨rfl, rfl, rfl⟩ := htag
  refine ⟨attributes, ?_⟩
  unfold openTag
  simp only [hname.1, hname.2, hread]
  rfl

theorem step_render (source : List Char) (s : ScanState) {t : ExpressionTag}
    {rest more : List Char} {closing : Bool} {stop : Nat}
    (h : endOfTag (offset + 1 + Text.byteLength t.name.chars) (t.behindName ++ rest) =
      some (closing, stop, more)) :
    ∃ attributes, step source s offset '<' (t.render.tail ++ rest) =
      if t.name.IsSection then
        rawElement s offset t.name.lowered ⟨attributes, closing, stop, more⟩
      else if closing = true ∨ t.name.lowered ∈ voidElements then .ok ⟨s, stop, more⟩
      else .ok ⟨{ s with stack := ⟨t.name.lowered, stop⟩ :: s.stack }, stop, more⟩ := by
  have hhead : ∀ d ∈ (t.behindName ++ rest).head?, Tag.isNameChar d = false := by
    intro d hd
    cases hd
    decide
  obtain ⟨attributes, hopen⟩ := openTag_of_endOfTag (s := s) hhead h
  refine ⟨attributes, ?_⟩
  rw [← hopen, ExpressionTag.render, List.tail_cons, List.append_assoc, step_name]

theorem byteLength_render (t : ExpressionTag) (offset : Nat) :
    offset + 1 + Text.byteLength t.name.chars + Text.byteLength t.behindName =
      offset + Text.byteLength t.render := by
  rw [ExpressionTag.render, Text.byteLength_cons, Text.byteLength_append]
  simp only [Nat.add_assoc]
  rfl

/-- A tag other than a script's or style's is read past exactly where no angle bracket is
exposed. -/
theorem step_render_iff {t : ExpressionTag} (hname : ¬ t.name.IsSection) (rest : List Char) :
    step source s offset '<' (t.render.tail ++ rest) =
        .ok ⟨s, offset + Text.byteLength t.render, rest⟩ ↔
      ¬ Exposed t.expression := by
  constructor
  · intro hstep hexposed
    obtain ⟨closing, stop, more, hend, hlength⟩ := endOfTag_behindName_exposed t hexposed _ rest
    obtain ⟨attributes, h⟩ := step_render source s hend
    rw [h, if_neg hname] at hstep
    have hrest : more = rest := by
      split at hstep <;> exact congrArg Step.rest (Except.ok.inj hstep)
    rw [hrest] at hlength
    omega
  · intro hexposed
    obtain ⟨attributes, h⟩ := step_render source s (endOfTag_behindName t hexposed
      (offset + 1 + Text.byteLength t.name.chars) rest)
    rw [h, if_neg hname, if_pos (.inl rfl), byteLength_render]

theorem step_render_section {t : ExpressionTag} (hname : t.name.IsSection)
    (hexposed : ¬ Exposed t.expression) (rest : List Char) :
    ∃ attributes,
      let stop := offset + Text.byteLength t.render
      step source s offset '<' (t.render.tail ++ rest) =
        (recordAtTop s (rawSection t.name.lowered offset ⟨attributes, true, stop, rest⟩ [] stop
          stop)).map (Step.mk · stop rest) := by
  obtain ⟨attributes, h⟩ := step_render source s (endOfTag_behindName t hexposed
    (offset + 1 + Text.byteLength t.name.chars) rest)
  refine ⟨attributes, ?_⟩
  rw [h, if_pos hname, rawElement_eq, if_pos rfl, byteLength_render]

end Scan

/-- A tag with an expression in front of a document, where no angle bracket is exposed in the
expression. It is read up to its own end and closes its element: the document is found as it would
be alone, moved by the length of the tag, and in any other place the tag is passed over too. The tag
of a script or style is an empty section itself. -/
theorem scan_expressionTag {t : ExpressionTag} (h : ¬ Exposed t.expression) :
    let length := Text.byteLength t.render
    (¬ t.name.IsSection →
      (∀ source s offset rest, Scan.step source s offset '<' (t.render.tail ++ rest) =
        .ok ⟨s, offset + length, rest⟩) ∧
      ∀ rest, scan (String.ofList (t.render ++ rest)) =
        moved length ScanResult.shift (scan (String.ofList rest))) ∧
    (t.name.IsSection → ∀ source s offset rest, ∃ attributes,
      Scan.step source s offset '<' (t.render.tail ++ rest) =
        (Scan.recordAtTop s (Scan.rawSection t.name.lowered offset
          ⟨attributes, true, offset + length, rest⟩ [] (offset + length) (offset + length))).map
          (Scan.Step.mk · (offset + length) rest)) := by
  refine ⟨fun hname => ⟨fun source s offset rest => (Scan.step_render_iff hname rest).2 h, ?_⟩,
    fun hname source s offset rest => Scan.step_render_section hname h rest⟩
  intro rest
  refine scan_of_front rest fun source => ?_
  have hrun := Scan.run_cons source ⟨.empty, [], []⟩ 0 '<' (t.render.tail ++ rest)
  rw [(Scan.step_render_iff hname rest).2 h, Nat.zero_add] at hrun
  exact hrun

/-- Text without braces and quotes. -/
def IsPlain (text : List Char) : Prop :=
  ∀ c ∈ text, Tag.isBrace c = false ∧ c ≠ '"' ∧ c ≠ '\'' ∧ c ≠ '\x60'

instance (text : List Char) : Decidable (IsPlain text) :=
  List.decidableBAll _ text

theorem Balanced.prepend {e : List Char} (front : List Char) (hfront : IsPlain front)
    (he : Balanced e) : Balanced (front ++ e) := by
  induction front with
  | nil => exact he
  | cons c front ih =>
    obtain ⟨hbrace, hquote⟩ := hfront c (List.mem_cons_self ..)
    exact .plain hbrace hquote (ih fun d hd => hfront d (List.mem_cons_of_mem _ hd))

theorem Balanced.of_plain {text : List Char} (h : IsPlain text) : Balanced text := by
  have htext := Balanced.prepend text h .nil
  rwa [List.append_nil] at htext

namespace ExpressionTag

/-- A block in a block, and angle brackets behind the opening brace of each. -/
def blocks : ExpressionTag where
  name := ⟨'F', ['o', 'o'], by decide, List.all_eq_true.1 (by decide)⟩
  attributeName := ['a']
  expression := "() => ".toList ++ '\x7b' ::
    ((" if (n > 1) ".toList ++ '\x7b' :: (" f(n > 2) ".toList ++ ['\x7d'])) ++ ['\x7d'])
  attributeName_char := List.all_eq_true.1 (by decide)
  attributeName_ne_nil := by decide
  balanced :=
    .prepend _ (by decide) (.group (.prepend _ (by decide) (.group (.of_plain (by decide)) .nil)) .nil)

/-- An object that is compared with something. -/
def comparison : ExpressionTag where
  name := ⟨'F', ['o', 'o'], by decide, List.all_eq_true.1 (by decide)⟩
  attributeName := ['a']
  expression := '\x7b' :: ("b:1".toList ++ '\x7d' :: " > c".toList)
  attributeName_char := List.all_eq_true.1 (by decide)
  attributeName_ne_nil := by decide
  balanced := .group (.of_plain (by decide)) (.of_plain (by decide))

/-- The tag of a style, which names have in any case. -/
def style : ExpressionTag where
  name := ⟨'S', "tyle".toList, by decide, List.all_eq_true.1 (by decide)⟩
  attributeName := ['a']
  expression := ['b']
  attributeName_char := List.all_eq_true.1 (by decide)
  attributeName_ne_nil := by decide
  balanced := .of_plain (by decide)

end ExpressionTag

/-- Braces cover every angle bracket of the blocks, so the script behind their tag is found. -/
theorem scan_expressionTag_blocks :
    ¬ Exposed ExpressionTag.blocks.expression ∧ ¬ ExpressionTag.blocks.name.IsSection ∧
      scan (String.ofList (ExpressionTag.blocks.render ++ "<script>let x;</script>".toList)) =
        moved (Text.byteLength ExpressionTag.blocks.render) ScanResult.shift
          (scan "<script>let x;</script>") := by
  have hexposed : ¬ Exposed ExpressionTag.blocks.expression := by decide
  have hname : ¬ ExpressionTag.blocks.name.IsSection := by decide
  refine ⟨hexposed, hname, ?_⟩
  have h := ((scan_expressionTag hexposed).1 hname).2 "<script>let x;</script>".toList
  rwa [String.ofList_toList] at h

/-- The angle bracket of a comparison ends a tag that it is exposed in, and the script behind the
tag is one inside an open element; and the tag of a style is a section, with nothing behind it.
Neither name is that of a void element. -/
theorem expressionTag_not_passed :
    (ExpressionTag.comparison.name.lowered ∉ Scan.voidElements ∧
      scan (String.ofList (ExpressionTag.comparison.render ++ "<script>let x;</script>".toList)) ≠
        moved (Text.byteLength ExpressionTag.comparison.render) ScanResult.shift
          (scan "<script>let x;</script>")) ∧
    (ExpressionTag.style.name.lowered ∉ Scan.voidElements ∧
      scan (String.ofList (ExpressionTag.style.render ++ [])) ≠
        moved (Text.byteLength ExpressionTag.style.render) ScanResult.shift (scan "")) := by
  refine ⟨⟨by decide, ?_⟩, ⟨by decide, ?_⟩⟩
  · have hfound : scan (String.ofList (ExpressionTag.comparison.render ++
        "<script>let x;</script>".toList)) = .ok ⟨.empty, []⟩ := by decide +kernel
    rw [hfound]
    decide +kernel
  · decide +kernel

end ComponentBuild
