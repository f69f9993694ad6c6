import ComponentBuild.Document.Scan
import ComponentBuild.Proofs.Text.Offset

namespace ComponentBuild

/-- Text without quotes whose braces match. -/
inductive Balanced : List Char → Prop where
  | nil : Balanced []
  | plain {c : Char} {cs : List Char} (brace : Tag.isBrace c = false)
      (quote : c ≠ '"' ∧ c ≠ '\'' ∧ c ≠ '\x60') (rest : Balanced cs) : Balanced (c :: cs)
  | group {inner cs : List Char} (inner_balanced : Balanced inner) (rest : Balanced cs) :
      Balanced ('\x7b' :: (inner ++ '\x7d' :: cs))

/-- The characters that a string literal starts and ends with. -/
def IsQuote (c : Char) : Prop := c = '"' ∨ c = '\'' ∨ c = '\x60'

/-- Text whose braces match outside of its string literals. What a literal in quotes `q` holds is
left to `literal q`. -/
inductive Code (literal : Char → List Char → Prop) : List Char → Prop where
  | nil : Code literal []
  | plain {c : Char} {cs : List Char} (brace : Tag.isBrace c = false) (quote : ¬ IsQuote c)
      (rest : Code literal cs) : Code literal (c :: cs)
  | group {inner cs : List Char} (inside : Code literal inner) (rest : Code literal cs) :
      Code literal ('\x7b' :: (inner ++ '\x7d' :: cs))
  | string {q : Char} {text cs : List Char} (quote : IsQuote q) (holds : literal q text)
      (rest : Code literal cs) : Code literal (q :: (text ++ q :: cs))

/-- What a literal holds where nothing escapes a quote. -/
def Unescaped (q : Char) (text : List Char) : Prop := q ∉ text

theorem Code.append {literal : Char → List Char → Prop} {a b : List Char} (ha : Code literal a)
    (hb : Code literal b) : Code literal (a ++ b) := by
  induction ha with
  | nil => exact hb
  | plain brace quote _ ih => exact .plain brace quote ih
  | group inside _ _ ih =>
    rw [List.cons_append, List.append_assoc, List.cons_append]
    exact .group inside ih
  | string quote holds _ ih =>
    rw [List.cons_append, List.append_assoc, List.cons_append]
    exact .string quote holds ih

theorem Code.mono {literal literal' : Char → List Char → Prop}
    (himp : ∀ q text, literal q text → literal' q text) {e : List Char} (h : Code literal e) :
    Code literal' e := by
  induction h with
  | nil => exact .nil
  | plain brace quote _ ih => exact .plain brace quote ih
  | group _ _ ih ih' => exact .group ih ih'
  | string quote holds _ ih => exact .string quote (himp _ _ holds) ih

theorem Balanced.code {literal : Char → List Char → Prop} {e : List Char} (h : Balanced e) :
    Code literal e := by
  induction h with
  | nil => exact .nil
  | plain brace quote _ ih =>
    exact .plain brace (by rintro (h | h | h) <;> simp [h] at quote) ih
  | group _ _ ih ih' => exact .group ih ih'

namespace Scan

variable {source : List Char} {s : ScanState} {offset : Nat}

theorem run_cons (source : List Char) (s : ScanState) (offset : Nat) (c : Char) (cs : List Char) :
    run source s offset (c :: cs) =
      (step source s offset c cs).bind fun t => run source t.state t.offset t.rest := by
  rw [run]
  split
  next h =>
    rw [h]
    rfl
  next h =>
    rw [h]
    rfl

theorem advance_append (offset : Nat) (front rest : List Char) :
    advance offset (front ++ rest) rest = offset + Text.byteLength front := by
  rw [advance, Text.byteLength_append, Nat.add_sub_cancel]

theorem run_text {text : List Char} (h : ∀ c ∈ text, c ≠ '<' ∧ c ≠ '\x7b') (rest : List Char) :
    run source s offset (text ++ rest) = run source s (offset + Text.byteLength text) rest := by
  induction text generalizing offset with
  | nil => rfl
  | cons c text ih =>
    obtain ⟨hangle, hbrace⟩ := h c (List.mem_cons_self ..)
    have hstep : step source s offset c (text ++ rest) =
        .ok ⟨s, offset + c.utf8Size, text ++ rest⟩ := by
      unfold step
      rw [if_neg hbrace, if_neg hangle]
    rw [List.cons_append, run_cons, hstep]
    change run source s (offset + c.utf8Size) (text ++ rest) = _
    rw [ih fun d hd => h d (List.mem_cons_of_mem _ hd), Text.byteLength_cons, Nat.add_assoc]

theorem skipBraces_string {q : Char} {text : List Char} (h : q ∉ text) (depth : Nat)
    (rest : List Char) :
    skipBraces depth (some q) (text ++ q :: rest) = skipBraces depth none rest := by
  induction text with
  | nil => rw [List.nil_append, skipBraces, if_pos rfl]
  | cons c text ih =>
    obtain ⟨hc, htext⟩ := not_or.1 (fun hm => h (List.mem_cons.2 hm))
    rw [List.cons_append, skipBraces, if_neg (Ne.symm hc)]
    exact ih htext

theorem skipBraces_quote {q : Char} (hq : IsQuote q) (depth : Nat) (cs : List Char) :
    skipBraces depth none (q :: cs) = skipBraces depth (some q) cs := by
  rw [skipBraces]
  exact if_pos hq

theorem skipBraces_plain {c : Char} (hbrace : Tag.isBrace c = false) (hquote : ¬ IsQuote c)
    (depth : Nat) (cs : List Char) :
    skipBraces depth none (c :: cs) = skipBraces depth none cs := by
  simp only [Tag.isBrace, Bool.or_eq_false_iff, beq_eq_false_iff_ne] at hbrace
  rw [skipBraces]
  simp only [hbrace, if_false]
  exact if_neg hquote

theorem skipBraces_open (depth : Nat) (cs : List Char) :
    skipBraces depth none ('\x7b' :: cs) = skipBraces (depth + 1) none cs := by
  simp only [skipBraces, Char.reduceEq, or_self, if_false, if_true]

theorem skipBraces_close (depth : Nat) (cs : List Char) :
    skipBraces (depth + 2) none ('\x7d' :: cs) = skipBraces (depth + 1) none cs := by
  simp only [skipBraces, Char.reduceEq, or_self, if_false, if_true]
  rw [if_neg (by omega)]
  rfl

theorem skipBraces_last (cs : List Char) : skipBraces 1 none ('\x7d' :: cs) = some cs := by
  simp only [skipBraces, Char.reduceEq, or_self, if_false, if_true, Nat.le_refl]

theorem skipBraces_code {e : List Char} (h : Code Unescaped e) (depth : Nat) (rest : List Char) :
    skipBraces (depth + 1) none (e ++ rest) = skipBraces (depth + 1) none rest := by
  induction h generalizing depth rest with
  | nil => rfl
  | plain brace quote _ ih =>
    rw [List.cons_append, skipBraces_plain brace quote]
    exact ih depth rest
  | group _ _ ih ih' =>
    rw [List.cons_append, List.append_assoc, List.cons_append, skipBraces_open, ih,
      skipBraces_close]
    exact ih' depth rest
  | string quote holds _ ih =>
    rw [List.cons_append, List.append_assoc, List.cons_append, skipBraces_quote quote,
      skipBraces_string holds]
    exact ih depth rest

theorem skipExpression_code {e : List Char} (h : Code Unescaped e) (rest : List Char) :
    skipExpression (e ++ '\x7d' :: rest) = rest := by
  rw [skipExpression, skipBraces_code h, skipBraces_last, Option.getD_some]

theorem step_expression (cs : List Char) :
    step source s offset '\x7b' cs =
      .ok ⟨s, advance offset ('\x7b' :: cs) (skipExpression cs), skipExpression cs⟩ := by
  unfold step
  rw [if_pos rfl]

theorem run_expression {e : List Char} (h : Code Unescaped e) (rest : List Char) :
    run source s offset ('\x7b' :: e ++ ['\x7d'] ++ rest) =
      run source s (offset + Text.byteLength ('\x7b' :: e ++ ['\x7d'])) rest := by
  have htext : '\x7b' :: e ++ ['\x7d'] ++ rest = '\x7b' :: (e ++ '\x7d' :: rest) := by
    simp only [List.cons_append, List.append_assoc, List.nil_append]
  have hoffset : advance offset ('\x7b' :: (e ++ '\x7d' :: rest)) rest =
      offset + Text.byteLength ('\x7b' :: e ++ ['\x7d']) := by
    rw [← htext, advance_append]
  rw [htext, run_cons, step_expression, skipExpression_code h, hoffset]
  rfl

theorem dropPast?_comment {body : List Char} (h : ¬ "-->".toList <:+: body) (rest : List Char) :
    dropPast? "-->".toList (body ++ ("-->".toList ++ rest)) = some rest := by
  induction body with
  | nil => rfl
  | cons c body ih =>
    have hbody : ¬ "-->".toList <:+: body := fun hi => h (hi.trans (List.suffix_cons _ _).isInfix)
    -- The mark cannot start in the body and end behind it: there its third character is a hyphen.
    have hc : ¬ "-->".toList <+: c :: body ++ ("-->".toList ++ rest) := by
      intro hp
      rcases body with _ | ⟨d, _ | ⟨e, body⟩⟩
      · simp at hp
      · simp at hp
      · have hp' : "-->".toList <+: c :: d :: e :: body :=
          List.prefix_of_prefix_length_le hp (List.prefix_append _ _) (by simp)
        exact h hp'.isInfix
    rw [List.cons_append, dropPast?, if_neg]
    · exact ih hbody
    · rwa [List.isPrefixOf_iff_prefix]

theorem run_comment {body : List Char} (h : ¬ "-->".toList <:+: body) (rest : List Char) :
    run source s offset ("<!--".toList ++ (body ++ "-->".toList) ++ rest) =
      run source s (offset + Text.byteLength ("<!--".toList ++ (body ++ "-->".toList))) rest := by
  have htext : "<!--".toList ++ (body ++ "-->".toList) ++ rest =
      '<' :: '!' :: '-' :: '-' :: (body ++ ("-->".toList ++ rest)) := by
    simp
  have hstep : step source s offset '<' ('!' :: '-' :: '-' :: (body ++ ("-->".toList ++ rest))) =
      .ok ⟨s, offset + Text.byteLength ("<!--".toList ++ (body ++ "-->".toList)), rest⟩ := by
    unfold step
    rw [if_neg (by decide), if_pos rfl]
    simp only [dropPast?_comment h]
    rw [← htext, advance_append]
  rw [htext, run_cons, hstep]
  rfl

/-- A closing tag of a name begins in a text: the name, in any case, stands behind the start of a
closing tag, and what follows is no letter, digit or hyphen. -/
def EndsRaw (name text : List Char) : Prop :=
  ∃ front written back, text = front ++ '<' :: '/' :: (written ++ back) ∧
    Text.lowercase written = name ∧
    ∀ c ∈ back.head?, (Text.isAsciiAlphanum c || c == '-') = false

theorem startsWithName_iff {name cs : List Char} :
    startsWithName name cs = true ↔
      ∃ written back, cs = written ++ back ∧ Text.lowercase written = name ∧
        ∀ c ∈ back.head?, (Text.isAsciiAlphanum c || c == '-') = false := by
  constructor
  · intro h
    rw [startsWithName, Bool.and_eq_true, beq_iff_eq] at h
    refine ⟨cs.take name.length, cs.drop name.length, (List.take_append_drop _ _).symm, h.1, ?_⟩
    intro c hc
    cases hd : cs.drop name.length with
    | nil =>
      rw [hd] at hc
      contradiction
    | cons d ds =>
      rw [hd] at h hc
      cases hc
      simpa using h.2
  · rintro ⟨written, back, rfl, rfl, hback⟩
    have hlength : (Text.lowercase written).length = written.length := List.length_map _
    rw [startsWithName, hlength, List.take_left, List.drop_left, Bool.and_eq_true, beq_iff_eq]
    refine ⟨rfl, ?_⟩
    cases back with
    | nil => rfl
    | cons c back => simpa using hback c rfl

theorem endsRaw_of_startsWithName {name cs : List Char} (front : List Char)
    (h : startsWithName name cs = true) : EndsRaw name (front ++ '<' :: '/' :: cs) := by
  obtain ⟨written, back, rfl, hname, hback⟩ := startsWithName_iff.1 h
  exact ⟨front, written, back, rfl, hname, hback⟩

/-- A name does not go on past an angle bracket. -/
theorem startsWithName_append {name cs : List Char} (hname : '<' ∉ name) (rest : List Char)
    (h : startsWithName name (cs ++ '<' :: rest) = true) : startsWithName name cs = true := by
  obtain ⟨written, back, happend, rfl, hback⟩ := startsWithName_iff.1 h
  have hwritten : '<' ∉ written := fun hm => hname (List.mem_map_of_mem hm)
  rcases List.append_eq_append_iff.1 happend with ⟨m, rfl, hm⟩ | ⟨m, rfl, hm⟩
  · cases m with
    | nil => exact startsWithName_iff.2 ⟨cs, [], (List.append_nil cs).symm, by simp, by simp⟩
    | cons c m =>
      obtain ⟨rfl, _⟩ := List.cons.inj hm
      exact absurd (List.mem_append_right _ (List.mem_cons_self ..)) hwritten
  · refine startsWithName_iff.2 ⟨written, m, rfl, rfl, ?_⟩
    intro c hc
    refine hback c ?_
    rw [hm]
    cases m with
    | nil => contradiction
    | cons d m => exact hc

theorem splitAtClosing?_front {name content closing : List Char} (hname : '<' ∉ name)
    (hcontent : ¬ EndsRaw name content) (hclosing : startsWithName name closing = true) :
    splitAtClosing? name (content ++ '<' :: '/' :: closing) =
      some (content, '<' :: '/' :: closing) := by
  induction content with
  | nil =>
    rw [List.nil_append, splitAtClosing?, if_pos ⟨rfl, rfl, hclosing⟩]
  | cons c content ih =>
    have hrest : ¬ EndsRaw name content := fun ⟨front, written, back, he, h⟩ =>
      hcontent ⟨c :: front, written, back, by rw [he, List.cons_append], h⟩
    -- A closing tag at `c` would have its name in the content, for names stop at angle brackets.
    have hc : ¬ (c = '<' ∧ (content ++ '<' :: '/' :: closing).head? = some '/' ∧
        startsWithName name (content ++ '<' :: '/' :: closing).tail = true) := by
      rintro ⟨rfl, hslash, hstarts⟩
      cases content with
      | nil => cases hslash
      | cons d content =>
        cases hslash
        exact hcontent (endsRaw_of_startsWithName [] (startsWithName_append hname _ hstarts))
    rw [List.cons_append, splitAtClosing?, if_neg hc, ih hrest]
    rfl

/-- Text in which a closing tag begins is cut there, or before. -/
theorem splitAtClosing?_cut {name content : List Char} (hcontent : EndsRaw name content)
    (rest : List Char) :
    ∃ front back, splitAtClosing? name (content ++ '<' :: rest) = some (front, back) ∧
      front.length < content.length := by
  obtain ⟨front, written, back, rfl, hname, hback⟩ := hcontent
  have hstarts : startsWithName name (written ++ (back ++ '<' :: rest)) = true := by
    refine startsWithName_iff.2 ⟨written, back ++ '<' :: rest, rfl, hname, fun c hc => ?_⟩
    cases back with
    | nil =>
      cases hc
      decide
    | cons d back => exact hback c hc
  induction front with
  | nil =>
    refine ⟨[], '<' :: '/' :: (written ++ (back ++ '<' :: rest)), ?_, Nat.succ_pos _⟩
    simp only [List.nil_append, List.cons_append, List.append_assoc]
    rw [splitAtClosing?, if_pos ⟨rfl, rfl, hstarts⟩]
  | cons c front ih =>
    obtain ⟨x, y, hsplit, hlength⟩ := ih
    rw [List.cons_append, List.cons_append, splitAtClosing?]
    split
    · exact ⟨[], _, rfl, Nat.succ_pos _⟩
    · rw [hsplit]
      exact ⟨c :: x, y, rfl, Nat.succ_lt_succ hlength⟩

end Scan

end ComponentBuild
