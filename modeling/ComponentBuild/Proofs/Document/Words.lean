import ComponentBuild.Proofs.Document.Attributes

namespace ComponentBuild

/-- What an attribute says, wherever it stands. -/
def Attribute.meaning (a : Attribute) : String × Option String := (a.name, a.value)

namespace Section

variable {s t : Section}

def meanings (s : Section) : List (String × Option String) := s.attributes.map Attribute.meaning

theorem lookup_meanings (s : Section) (name : String) :
    s.meanings.lookup name = (s.attribute? name).map Attribute.value := by
  unfold meanings attribute?
  induction s.attributes with
  | nil => rfl
  | cons a attributes ih =>
    rw [List.map_cons, Attribute.meaning, List.lookup_cons, List.find?_cons, ih, Bool.beq_comm]
    cases a.name == name <;> rfl

theorem attributeValue?_eq (s : Section) (name : String) :
    s.attributeValue? name = (s.meanings.lookup name).join := by
  rw [lookup_meanings, attributeValue?]
  cases s.attribute? name <;> rfl

theorem lang?_congr (h : s.meanings = t.meanings) : s.lang? = t.lang? := by
  unfold lang?
  rw [attributeValue?_eq, attributeValue?_eq, attributeValue?_eq t, attributeValue?_eq t, h]

theorem context_congr (h : s.meanings = t.meanings) : s.context = t.context := by
  have hmodule : (s.attribute? "module").isSome = (t.attribute? "module").isSome := by
    rw [← Option.isSome_map (f := Attribute.value), ← lookup_meanings, h, lookup_meanings,
      Option.isSome_map]
  unfold context
  rw [attributeValue?_eq, attributeValue?_eq, h, hmodule]

theorem mediaSubtype_append (subtype : List Char) :
    mediaSubtype (String.ofList ("text/".toList ++ subtype)) = String.ofList subtype := by
  have hlist : (String.ofList ("text/".toList ++ subtype)).toList = "text/".toList ++ subtype :=
    String.toList_ofList
  rw [mediaSubtype, hlist, if_pos (List.isPrefixOf_iff_prefix.2 (List.prefix_append _ _))]
  rfl

end Section

def PrintedAttribute.meaning (a : PrintedAttribute) : String × Option String :=
  (String.ofList a.name, a.value.map PrintedValue.value)

namespace Tag

/-- The characters of values without quotes: all but blanks, quotes, braces and the signs that a tag
is made of, other than slashes. -/
def isBareChar (c : Char) : Bool :=
  !(isBlank c || c == '"' || c == '\'' || c == '<' || c == '>' || c == '=' || c == '\x7b' ||
    c == '\x7d')

/-- The words of a text: the runs of characters that can stand in names. -/
def words (text : List Char) : List (List Char) :=
  (text.splitOnP (!isNameChar ·)).filter (· ≠ [])

variable {c : Char} {text word rest : List Char}

@[simp] theorem words_nil : words [] = [] := rfl

theorem words_append (hc : isNameChar c = false) (front back : List Char) :
    words (front ++ c :: back) = words front ++ words back := by
  rw [words, List.splitOnP_append_cons _ _ (by rw [hc]; rfl), List.filter_append]
  rfl

theorem words_separator (hc : isNameChar c = false) (text : List Char) :
    words (c :: text) = words text := words_append hc [] text

theorem words_front (hword : ∀ c ∈ word, isNameChar c = true) (hne : word ≠ [])
    (hrest : ∀ c ∈ rest.head?, isNameChar c = false) : words (word ++ rest) = word :: words rest := by
  have hone : word.splitOnP (!isNameChar ·) = [word] :=
    List.splitOnP_eq_singleton fun c hc => by rw [hword c hc]; rfl
  have hfilter : [word].filter (· ≠ []) = [word] := List.filter_cons_of_pos (by simpa using hne)
  cases rest with
  | nil => rw [List.append_nil, words, hone, hfilter, words_nil]
  | cons c rest =>
    have hc := hrest c rfl
    rw [words_append hc, words_separator hc, words, hone, hfilter]
    rfl

/-- A text is made of words and of characters between them. -/
theorem wordInduction {P : List Char → Prop} (nil : P [])
    (separator : ∀ c text, isNameChar c = false → P text → P (c :: text))
    (word : ∀ word text, (∀ c ∈ word, isNameChar c = true) → word ≠ [] →
      (∀ c ∈ text.head?, isNameChar c = false) → P text → P (word ++ text))
    (text : List Char) : P text := by
  induction hn : text.length using Nat.strongRecOn generalizing text with
  | ind n ih =>
    subst hn
    cases text with
    | nil => exact nil
    | cons c text =>
      cases hc : isNameChar c with
      | false => exact separator c text hc (ih _ (Nat.lt_succ_self _) text rfl)
      | true =>
        have hsplit := List.takeWhile_append_dropWhile (p := isNameChar) (l := text)
        have hlength : (text.dropWhile isNameChar).length < (c :: text).length :=
          Nat.lt_succ_of_le (List.dropWhile_suffix _).length_le
        have hfront := word (c :: text.takeWhile isNameChar) (text.dropWhile isNameChar)
          (List.forall_mem_cons.2 ⟨hc, List.all_eq_true.1 List.all_takeWhile⟩)
          (List.cons_ne_nil _ _) ?_ (ih _ hlength _ rfl)
        · rwa [List.cons_append, hsplit] at hfront
        · intro d hd
          have hhead := List.head?_dropWhile_not isNameChar text
          rw [hd] at hhead
          simpa using hhead

theorem nameChar_of_mem_words {text word : List Char} (h : word ∈ words text) :
    ∀ c ∈ word, isNameChar c = true := by
  induction text using wordInduction with
  | nil => cases h
  | separator c text hc ih =>
    rw [words_separator hc] at h
    exact ih h
  | word first text hfirst hne htext ih =>
    rw [words_front hfirst hne htext] at h
    rcases List.mem_cons.1 h with rfl | h
    · exact hfirst
    · exact ih h

theorem lexeme_separator {cs : List Char} (hbare : isBareChar c = true)
    (hname : isNameChar c = false) (hangle : c = '/' → cs.head? ≠ some '>') :
    lexeme c cs = ⟨if c = '/' then .slash else .invalid, [c], cs⟩ := by
  have hne : ∀ d, isBareChar d = false → c ≠ d := by
    rintro d hd rfl
    rw [hd] at hbare
    contradiction
  unfold lexeme
  rw [if_neg (hne '>' rfl), if_neg (hne '=' rfl), if_neg (hne '"' rfl), if_neg (hne '\'' rfl),
    if_neg (hne '\x7b' rfl), hname, if_neg Bool.false_ne_true]
  split
  next hslash =>
    split
    next => exact absurd rfl (hangle hslash)
    next => rfl
  next => rfl

end Tag

/-- What a tag says that has a text without quotes as the value of an attribute: the first word is
the value, and the others are flags. Without a word the value is what stands next. -/
def bareMeanings (name : String) (text : List Char) (behind : List PrintedAttribute) :
    List (String × Option String) :=
  match Tag.words text, behind with
  | word :: words, behind =>
    (name, some (String.ofList word)) ::
      (words.map (String.ofList ·, none) ++ behind.map PrintedAttribute.meaning)
  | [], [] => [(name, none)]
  | [], a :: behind =>
    (name, some (a.meaning.2.getD a.meaning.1)) :: behind.map PrintedAttribute.meaning

section

variable {text : List Char} (name : String) (behind : List PrintedAttribute)

theorem bareMeanings_congr {other : List Char} (h : Tag.words text = Tag.words other) :
    bareMeanings name text behind = bareMeanings name other behind := by
  unfold bareMeanings
  rw [h]

theorem bareMeanings_of_words {word : List Char} {words : List (List Char)}
    (h : Tag.words text = word :: words) :
    bareMeanings name text behind =
      (name, some (String.ofList word)) ::
        (words.map (String.ofList ·, none) ++ behind.map PrintedAttribute.meaning) := by
  unfold bareMeanings
  rw [h]

/-- A text says the same with quotes and without exactly if it is one word. -/
theorem bareMeanings_eq_iff (hne : text ≠ []) :
    bareMeanings name text behind =
        (name, some (String.ofList text)) :: behind.map PrintedAttribute.meaning ↔
      ∀ c ∈ text, Tag.isNameChar c = true := by
  constructor
  · intro h
    cases hwords : Tag.words text with
    | nil =>
      unfold bareMeanings at h
      rw [hwords] at h
      cases behind with
      | nil => cases h
      | cons a behind =>
        have hlength := congrArg List.length h
        simp only [List.length_cons, List.length_map] at hlength
        omega
    | cons word words =>
      rw [bareMeanings_of_words name behind hwords] at h
      have hword : word = text :=
        String.ofList_injective (Option.some.inj (Prod.mk.inj (List.cons.inj h).1).2)
      subst hword
      exact Tag.nameChar_of_mem_words (hwords ▸ List.mem_cons_self)
  · intro h
    have hwords := @Tag.words_front text [] h hne (fun _ hc => nomatch hc)
    rw [List.append_nil] at hwords
    rw [bareMeanings_of_words name behind hwords]
    rfl

end

namespace Scan

variable {text rest blanks word : List Char} {closing : Bool}
  {said : List (String × Option String)} {c : Char}

/-- Up to its end a tag says just this, whatever attribute was read last. -/
def Says (text rest : List Char) (closing : Bool) (said : List (String × Option String)) : Prop :=
  ∀ offset current, ∃ attributes : List Attribute,
    readAttributes offset current false (text ++ rest) =
      some ⟨current.toList ++ attributes, closing, offset + Text.byteLength text, rest⟩ ∧
    attributes.map Attribute.meaning = said

/-- Up to its end a tag says just this, where the value of an attribute is awaited. -/
def Gives (text rest : List Char) (closing : Bool) (value : Option String)
    (said : List (String × Option String)) : Prop :=
  ∀ offset name span, ∃ attributes : List Attribute,
    readAttributes offset (some ⟨name, none, span⟩) true (text ++ rest) =
      some ⟨attributes, closing, offset + Text.byteLength text, rest⟩ ∧
    attributes.map Attribute.meaning = (name, value) :: said

/-- A slash at the end of a text does not meet an angle bracket. -/
def Apart (text behind : List Char) : Prop :=
  text.getLast? = some '/' → behind.head? ≠ some '>'

theorem says_end (closing : Bool) (rest : List Char) (hb : ∀ b ∈ blanks, Tag.isBlank b = true) :
    Says (blanks ++ tagEnd closing) rest closing [] := by
  intro offset current
  refine ⟨[], ?_, rfl⟩
  rw [List.append_assoc, readAttributes_end closing rest hb, List.append_nil]

theorem gives_end (closing : Bool) (rest : List Char) (hb : ∀ b ∈ blanks, Tag.isBlank b = true) :
    Gives (blanks ++ tagEnd closing) rest closing none [] := by
  intro offset name span
  refine ⟨[⟨name, none, span⟩], ?_, rfl⟩
  rw [List.append_assoc, readAttributes_end closing rest hb]
  rfl

theorem readAttributes_separator {offset : Nat} {current : Option Attribute} {wants : Bool}
    {cs : List Char} (hbare : Tag.isBareChar c = true) (hname : Tag.isNameChar c = false)
    (hangle : c = '/' → cs.head? ≠ some '>') :
    readAttributes offset current wants (c :: cs) =
      readAttributes (offset + c.utf8Size) current wants cs := by
  have hblank : Tag.isBlank c = false := by
    cases hc : Tag.isBlank c with
    | false => rfl
    | true => simp [Tag.isBareChar, hc] at hbare
  rw [readAttributes_of_next (Tag.next?_cons hblank),
    Tag.lexeme_separator hbare hname hangle]
  by_cases hslash : c = '/' <;> simp [hslash]

theorem Says.separator (h : Says text rest closing said) (hbare : Tag.isBareChar c = true)
    (hname : Tag.isNameChar c = false) (hangle : c = '/' → (text ++ rest).head? ≠ some '>') :
    Says (c :: text) rest closing said := by
  intro offset current
  obtain ⟨attributes, hread, hsaid⟩ := h (offset + c.utf8Size) current
  refine ⟨attributes, ?_, hsaid⟩
  rw [List.cons_append, readAttributes_separator hbare hname hangle, hread, Text.byteLength_cons,
    Nat.add_assoc]

theorem Gives.separator {value : Option String} (h : Gives text rest closing value said)
    (hbare : Tag.isBareChar c = true) (hname : Tag.isNameChar c = false)
    (hangle : c = '/' → (text ++ rest).head? ≠ some '>') :
    Gives (c :: text) rest closing value said := by
  intro offset name span
  obtain ⟨attributes, hread, hsaid⟩ := h (offset + c.utf8Size) name span
  refine ⟨attributes, ?_, hsaid⟩
  rw [List.cons_append, readAttributes_separator hbare hname hangle, hread, Text.byteLength_cons,
    Nat.add_assoc]

theorem next?_word (hword : ∀ c ∈ word, Tag.isNameChar c = true) (hne : word ≠ [])
    (htext : ∀ c ∈ (text ++ rest).head?, Tag.isNameChar c = false) :
    Tag.next? (word ++ text ++ rest) = some ([], ⟨.name, word, text ++ rest⟩) := by
  rw [List.append_assoc]
  exact @Tag.next?_name [] word (text ++ rest) (fun _ h => nomatch h) hword hne htext

/-- A word is a flag. -/
theorem Says.flag (h : Says text rest closing said)
    (hword : ∀ c ∈ word, Tag.isNameChar c = true) (hne : word ≠ [])
    (htext : ∀ c ∈ (text ++ rest).head?, Tag.isNameChar c = false) :
    Says (word ++ text) rest closing ((String.ofList word, none) :: said) := by
  intro offset current
  let flag : Attribute := ⟨String.ofList word, none, ⟨offset, offset + Text.byteLength word⟩⟩
  obtain ⟨attributes, hread, hsaid⟩ := h (offset + Text.byteLength word) (some flag)
  refine ⟨flag :: attributes, ?_, congrArg (List.cons flag.meaning) hsaid⟩
  rw [readAttributes_name (next?_word hword hne htext) rfl, Text.byteLength_nil, Nat.add_zero,
    hread, Text.byteLength_append, Nat.add_assoc]
  rfl

/-- A word is the value where one is awaited. -/
theorem Says.value (h : Says text rest closing said)
    (hword : ∀ c ∈ word, Tag.isNameChar c = true) (hne : word ≠ [])
    (htext : ∀ c ∈ (text ++ rest).head?, Tag.isNameChar c = false) :
    Gives (word ++ text) rest closing (some (String.ofList word)) said := by
  intro offset name span
  let valued : Attribute :=
    ⟨name, some (String.ofList word), ⟨span.start, offset + Text.byteLength word⟩⟩
  obtain ⟨attributes, hread, hsaid⟩ := h (offset + Text.byteLength word) (some valued)
  refine ⟨valued :: attributes, ?_, congrArg (List.cons valued.meaning) hsaid⟩
  rw [readAttributes_bare (next?_word hword hne htext) rfl, Text.byteLength_nil, Nat.add_zero,
    hread, Text.byteLength_append, Nat.add_assoc]
  rfl

theorem head_printed_front (as : List PrintedAttribute)
    (htext : ∀ c ∈ (text ++ rest).head?, Tag.isNameChar c = false) :
    ∀ c ∈ (printAttributes as ++ text ++ rest).head?, Tag.isNameChar c = false := by
  rw [List.append_assoc]
  exact head_printAttributes as htext

/-- The value that is printed behind a name takes the place of one that is given. -/
theorem Says.printValue (h : Says text rest closing said) (a : PrintedAttribute)
    (htext : ∀ c ∈ (text ++ rest).head?, Tag.isNameChar c = false) (offset start : Nat)
    (name : String) (given : Option String) :
    ∃ attributes : List Attribute,
      readAttributes offset (some ⟨name, given, ⟨start, offset⟩⟩) false
          (a.printValue ++ text ++ rest) =
        some ⟨attributes, closing, offset + Text.byteLength (a.printValue ++ text), rest⟩ ∧
      attributes.map Attribute.meaning =
        (name, (a.value.map PrintedValue.value).or given) :: said := by
  let valued : Attribute := ⟨name, (a.value.map PrintedValue.value).or given,
    ⟨start, offset + Text.byteLength a.printValue⟩⟩
  obtain ⟨attributes, hread, hsaid⟩ := h (offset + Text.byteLength a.printValue) (some valued)
  refine ⟨valued :: attributes, ?_, congrArg (List.cons valued.meaning) hsaid⟩
  rw [List.append_assoc, readAttributes_printValue a name given start htext, hread,
    Text.byteLength_append, Nat.add_assoc]
  rfl

theorem head_printValue (a : PrintedAttribute)
    (htext : ∀ c ∈ (text ++ rest).head?, Tag.isNameChar c = false) :
    ∀ c ∈ (a.printValue ++ text ++ rest).head?, Tag.isNameChar c = false := by
  unfold PrintedAttribute.printValue
  cases a.value with
  | none => exact htext
  | some v =>
    intro c hc
    cases hc
    rfl

theorem Says.printAttribute (h : Says text rest closing said) (a : PrintedAttribute)
    (htext : ∀ c ∈ (text ++ rest).head?, Tag.isNameChar c = false) :
    Says (a.print ++ text) rest closing (a.meaning :: said) := by
  intro offset current
  have hname := Tag.next?_name a.blanks_blank a.name_char a.name_ne_nil (head_printValue a htext)
  have hprint : a.print ++ text ++ rest = a.blanks ++ (a.name ++ (a.printValue ++ text ++ rest)) := by
    simp only [PrintedAttribute.print, PrintedAttribute.text, List.append_assoc]
  obtain ⟨attributes, hread, hsaid⟩ := h.printValue a htext
    (offset + Text.byteLength a.blanks + Text.byteLength a.name) (offset + Text.byteLength a.blanks)
    (String.ofList a.name) none
  refine ⟨attributes, ?_, by rw [hsaid, Option.or_none]; rfl⟩
  rw [hprint, readAttributes_name hname rfl, hread]
  simp only [PrintedAttribute.print, PrintedAttribute.text, Text.byteLength_append, Nat.add_assoc,
    Option.map_some, TagEnd.withFirst]

theorem Says.printAttributes (h : Says text rest closing said)
    (htext : ∀ c ∈ (text ++ rest).head?, Tag.isNameChar c = false) (as : List PrintedAttribute) :
    Says (printAttributes as ++ text) rest closing (as.map PrintedAttribute.meaning ++ said) := by
  induction as with
  | nil => exact h
  | cons a as ih =>
    rw [ComponentBuild.printAttributes, List.append_assoc]
    refine ih.printAttribute a ?_
    exact head_printed_front as htext

/-- Where a value is awaited, the name of the next attribute is taken for it. -/
theorem Says.givesName (h : Says text rest closing said) (a : PrintedAttribute)
    (htext : ∀ c ∈ (text ++ rest).head?, Tag.isNameChar c = false) :
    Gives (a.print ++ text) rest closing (some (a.meaning.2.getD a.meaning.1)) said := by
  intro offset name span
  have hname := Tag.next?_name a.blanks_blank a.name_char a.name_ne_nil (head_printValue a htext)
  have hprint : a.print ++ text ++ rest = a.blanks ++ (a.name ++ (a.printValue ++ text ++ rest)) := by
    simp only [PrintedAttribute.print, PrintedAttribute.text, List.append_assoc]
  obtain ⟨attributes, hread, hsaid⟩ := h.printValue a htext
    (offset + Text.byteLength a.blanks + Text.byteLength a.name) span.start name
    (some (String.ofList a.name))
  refine ⟨attributes, ?_, ?_⟩
  · rw [hprint, readAttributes_bare hname rfl, hread]
    simp only [PrintedAttribute.print, PrintedAttribute.text, Text.byteLength_append, Nat.add_assoc]
  · rw [hsaid, PrintedAttribute.meaning]
    cases a.value <;> rfl

/-- An attribute with a value that is given behind its equals sign. -/
theorem Gives.named {blanks name : List Char} {value : Option String}
    (h : Gives text rest closing value said) (hblanks : ∀ c ∈ blanks, Tag.isBlank c = true)
    (hname : ∀ c ∈ name, Tag.isNameChar c = true) (hne : name ≠ []) :
    Says (blanks ++ (name ++ '=' :: text)) rest closing ((String.ofList name, value) :: said) := by
  intro offset current
  have hequals : Tag.next? ('=' :: text ++ rest) = some ([], ⟨.equals, ['='], text ++ rest⟩) :=
    Tag.next?_cons rfl
  have hnext : Tag.next? (blanks ++ (name ++ '=' :: text) ++ rest) =
      some (blanks, ⟨.name, name, '=' :: text ++ rest⟩) := by
    rw [List.append_assoc, List.append_assoc]
    exact Tag.next?_name hblanks hname hne fun c hc => by cases hc; rfl
  obtain ⟨attributes, hread, hsaid⟩ := h
    (offset + Text.byteLength blanks + Text.byteLength name + Text.byteLength ['='])
    (String.ofList name) ⟨offset + Text.byteLength blanks,
      offset + Text.byteLength blanks + Text.byteLength name⟩
  refine ⟨attributes, ?_, hsaid⟩
  rw [readAttributes_name hnext rfl, readAttributes_equals hequals rfl, Text.byteLength_nil,
    Nat.add_zero, hread]
  simp only [Text.byteLength_append, Text.byteLength_cons, Text.byteLength_nil, Nat.add_assoc,
    Nat.add_zero, Option.map_some, TagEnd.withFirst]

theorem Says.quoted (h : Says text rest closing said) {value : List Char} (hvalue : '"' ∉ value) :
    Gives ('"' :: value ++ ['"'] ++ text) rest closing (some (String.ofList value)) said := by
  intro offset name span
  let v : WrittenValue := .doubleQuoted value hvalue
  have htext : '"' :: value ++ ['"'] ++ text ++ rest = v.render ++ (text ++ rest) := by
    rw [List.append_assoc]
    rfl
  let valued : Attribute :=
    ⟨name, some v.value, ⟨span.start, offset + Text.byteLength v.render⟩⟩
  obtain ⟨attributes, hread, hsaid⟩ := h (offset + Text.byteLength v.render) (some valued)
  refine ⟨valued :: attributes, ?_, congrArg (List.cons valued.meaning) hsaid⟩
  rw [htext, readAttributes_value v (Tag.next?_value v _) rfl rfl, Text.byteLength_nil,
    Nat.add_zero, hread, Text.byteLength_append, Nat.add_assoc]
  rfl

theorem Apart.back {front value behind : List Char} (h : Apart (front ++ value) behind) :
    Apart value behind := by
  intro hlast
  refine h ?_
  rw [List.getLast?_append, hlast]
  rfl

theorem head_append {front back : List Char} (hfront : ∀ c ∈ front.head?, Tag.isNameChar c = false)
    (hback : ∀ c ∈ back.head?, Tag.isNameChar c = false) :
    ∀ c ∈ (front ++ back).head?, Tag.isNameChar c = false := by
  cases front with
  | nil => exact hback
  | cons d front => exact hfront

theorem Apart.head_ne_angle {value : List Char} (h : Apart (c :: value) (text ++ rest))
    (hvalue : ∀ c ∈ value, Tag.isBareChar c = true) :
    c = '/' → (value ++ text ++ rest).head? ≠ some '>' := by
  intro hc
  cases value with
  | nil => exact h (congrArg some hc)
  | cons d value =>
    intro hd
    have hbare := hvalue d (List.mem_cons_self ..)
    rw [Option.some.inj hd] at hbare
    exact absurd hbare (by decide)

theorem Says.flags (h : Says text rest closing said) {value : List Char}
    (hvalue : ∀ c ∈ value, Tag.isBareChar c = true) (hapart : Apart value (text ++ rest))
    (htext : ∀ c ∈ (text ++ rest).head?, Tag.isNameChar c = false) :
    Says (value ++ text) rest closing ((Tag.words value).map (String.ofList ·, none) ++ said) := by
  induction value using Tag.wordInduction with
  | nil => exact h
  | separator c value hc ih =>
    obtain ⟨hbare, hvalue⟩ := List.forall_mem_cons.1 hvalue
    rw [Tag.words_separator hc]
    exact (ih hvalue (@Apart.back [c] _ _ hapart)).separator hbare hc (hapart.head_ne_angle hvalue)
  | word word value hword hne hhead ih =>
    have hrest := ih (fun c hc => hvalue c (List.mem_append_right _ hc)) hapart.back
    rw [Tag.words_front hword hne hhead, List.append_assoc]
    refine hrest.flag hword hne ?_
    rw [List.append_assoc]
    exact head_append hhead htext

/-- What an attribute is given by a text without quotes, and what the tag says behind it. -/
theorem exists_gives {value : List Char} (hvalue : ∀ c ∈ value, Tag.isBareChar c = true)
    {behind : List PrintedAttribute} (hb : ∀ b ∈ blanks, Tag.isBlank b = true)
    (hapart : Apart value (printAttributes behind ++ (blanks ++ tagEnd closing) ++ rest)) :
    ∃ given said, Gives (value ++ (printAttributes behind ++ (blanks ++ tagEnd closing))) rest
        closing given said ∧
      ∀ name, bareMeanings name value behind = (name, given) :: said := by
  have hhead : ∀ c ∈ (blanks ++ tagEnd closing ++ rest).head?, Tag.isNameChar c = false := by
    rw [List.append_assoc]
    exact head_printed [] closing rest hb
  have hend := says_end closing rest hb
  have hbehind := hend.printAttributes hhead behind
  rw [List.append_nil] at hbehind
  have hheads := head_printed_front behind hhead
  induction value using Tag.wordInduction with
  | nil =>
    cases behind with
    | nil => exact ⟨none, [], gives_end closing rest hb, fun _ => rfl⟩
    | cons a behind =>
      have hothers := hend.printAttributes hhead behind
      rw [List.append_nil] at hothers
      refine ⟨_, _, ?_, fun _ => rfl⟩
      rw [printAttributes, List.nil_append, List.append_assoc]
      exact hothers.givesName a (head_printed_front behind hhead)
  | separator c value hc ih =>
    obtain ⟨hbare, hvalue⟩ := List.forall_mem_cons.1 hvalue
    obtain ⟨given, said, hgives, hsaid⟩ := ih hvalue (@Apart.back [c] _ _ hapart)
    refine ⟨given, said, hgives.separator hbare hc (hapart.head_ne_angle hvalue), fun name => ?_⟩
    exact (bareMeanings_congr name behind (Tag.words_separator hc value)).trans (hsaid name)
  | word word value hword hne hhead ih =>
    have hflags := hbehind.flags (fun c hc => hvalue c (List.mem_append_right _ hc)) hapart.back
      hheads
    refine ⟨some (String.ofList word), _, ?_, fun name =>
      bareMeanings_of_words name behind (Tag.words_front hword hne hhead)⟩
    rw [List.append_assoc]
    refine hflags.value hword hne ?_
    rw [List.append_assoc]
    exact head_append hhead hheads

/-- A text is read as a script or style that says this, wherever it stands. -/
def ReadsAs (kind : SectionKind) (text rest : List Char) (said : List (String × Option String))
    (content : List Char) : Prop :=
  ∀ source s offset, ∃ found : Section, found.kind = kind ∧ found.meanings = said ∧
    found.content = String.ofList content ∧
    run source s offset (text ++ rest) = (recordAtTop s found).bind fun t =>
      run source t (offset + Text.byteLength text) rest

variable {n : ElementName} {kind : SectionKind} {content : List Char}

theorem readsAs_empty (hname : n.lowered = kind.elementName)
    (htext : ∀ c ∈ (text ++ rest).head?, Tag.isNameChar c = false)
    (h : Says text rest true said) : ReadsAs kind ('<' :: (n.chars ++ text)) rest said [] := by
  intro source s offset
  obtain ⟨attributes, hread, hsaid⟩ := h (offset + 1 + Text.byteLength n.chars) none
  let stop := offset + 1 + Text.byteLength n.chars + Text.byteLength text
  let found : Section := ⟨kind, ⟨offset, stop⟩, ⟨stop, stop⟩, "", attributes⟩
  have hraw : rawElement s offset n.lowered ⟨attributes, true, stop, rest⟩ =
      (recordAtTop s found).map (Step.mk · stop rest) := by
    unfold rawElement recordAtTop
    simp only [hname, kind.ofElementName, if_true]
    split <;> rfl
  have hstop : offset + Text.byteLength ('<' :: (n.chars ++ text)) = stop := by
    rw [Text.byteLength_cons, Text.byteLength_append, ← Nat.add_assoc, ← Nat.add_assoc]
    rfl
  refine ⟨found, rfl, hsaid, rfl, ?_⟩
  rw [List.cons_append, List.append_assoc, run_name, openTag_of_readAttributes n htext hread,
    if_pos (kind.isSection hname), hstop]
  change (rawElement s offset n.lowered ⟨attributes, true, stop, rest⟩).bind _ = _
  rw [hraw]
  cases recordAtTop s found <;> rfl

theorem readsAs_closed (hname : n.lowered = kind.elementName)
    (whole : ¬ EndsRaw kind.elementName.toList content)
    (htext : ∀ c ∈ (text ++ (content ++ (n.closingTag ++ rest))).head?, Tag.isNameChar c = false)
    (h : Says text (content ++ (n.closingTag ++ rest)) false said) :
    ReadsAs kind ('<' :: (n.chars ++ text) ++ (content ++ n.closingTag)) rest said content := by
  intro source s offset
  obtain ⟨attributes, hread, hsaid⟩ := h (offset + 1 + Text.byteLength n.chars) none
  let start := offset + 1 + Text.byteLength n.chars + Text.byteLength text
  let stop := start + Text.byteLength (content ++ n.closingTag)
  let found : Section := ⟨kind, ⟨offset, stop⟩, ⟨start, start + Text.byteLength content⟩,
    String.ofList content, attributes⟩
  have hraw : rawElement s offset n.lowered
      ⟨attributes, false, start, content ++ (n.closingTag ++ rest)⟩ =
      (recordAtTop s found).map (Step.mk · stop rest) := rawElement_closed hname rfl rfl whole
  have hstop : offset + Text.byteLength ('<' :: (n.chars ++ text) ++ (content ++ n.closingTag)) =
      stop := by
    rw [List.cons_append, Text.byteLength_cons, Text.byteLength_append, Text.byteLength_append,
      ← Nat.add_assoc, ← Nat.add_assoc, ← Nat.add_assoc]
    rfl
  have htext' : '<' :: (n.chars ++ text) ++ (content ++ n.closingTag) ++ rest =
      '<' :: (n.chars ++ (text ++ (content ++ (n.closingTag ++ rest)))) := by
    simp only [List.cons_append, List.append_assoc]
  refine ⟨found, rfl, hsaid, rfl, ?_⟩
  rw [htext', run_name, openTag_of_readAttributes n htext hread, if_pos (kind.isSection hname),
    hstop]
  change (rawElement s offset n.lowered
    ⟨attributes, false, start, content ++ (n.closingTag ++ rest)⟩).bind _ = _
  rw [hraw]
  cases recordAtTop s found <;> rfl

end Scan

end ComponentBuild
