import ComponentBuild.Proofs.Document.Words

namespace ComponentBuild

/-- A script or style, one of whose attributes has a value that can stand without quotes. -/
structure BareSection where
  kind : SectionKind
  name : ElementName
  named : name.lowered = kind.elementName
  front : List PrintedAttribute
  /-- The blanks in front of the attribute. -/
  gap : List Char
  gap_blank : ∀ c ∈ gap, Tag.isBlank c = true
  gap_ne_nil : gap ≠ []
  key : List Char
  key_char : ∀ c ∈ key, Tag.isNameChar c = true
  key_ne_nil : key ≠ []
  value : List Char
  value_bare : ∀ c ∈ value, Tag.isBareChar c = true
  value_ne_nil : value ≠ []
  behind : List PrintedAttribute
  /-- What stands between the last attribute and the end of the opening tag. -/
  blanks : List Char
  blanks_blank : ∀ c ∈ blanks, Tag.isBlank c = true
  /-- The content between the tags; an element without content closes itself. -/
  content? : Option (List Char)
  whole : ∀ content ∈ content?, ¬ Scan.EndsRaw kind.elementName.toList content

namespace BareSection

/-- What stands behind the value in the opening tag. -/
def tail (e : BareSection) : List Char :=
  printAttributes e.behind ++ (e.blanks ++ tagEnd e.content?.isNone)

/-- What stands behind the name of the element in the opening tag, with the value as it is
written. -/
def written (e : BareSection) (value : List Char) : List Char :=
  printAttributes e.front ++ (e.gap ++ (e.key ++ '=' :: value))

def opening (e : BareSection) (value : List Char) : List Char :=
  '<' :: (e.name.chars ++ e.written (value ++ e.tail))

/-- What stands behind the opening tag. -/
def closing (e : BareSection) : List Char :=
  match e.content? with
  | none => []
  | some content => content ++ e.name.closingTag

/-- The element with quotes around the value. -/
def quoted (e : BareSection) : List Char := e.opening ('"' :: e.value ++ ['"']) ++ e.closing

/-- The element without quotes around the value. -/
def bare (e : BareSection) : List Char := e.opening e.value ++ e.closing

/-- Whether the value ends with a slash that makes the opening tag close its element. -/
def Swallows (e : BareSection) : Prop :=
  e.value.getLast? = some '/' ∧ e.behind = [] ∧ e.blanks = [] ∧ e.content?.isSome = true

instance (e : BareSection) : Decidable e.Swallows := inferInstanceAs (Decidable (_ ∧ _))

open Scan

variable (e : BareSection) {text rest : List Char} {closes : Bool} {given : Option String}
  {said : List (String × Option String)}

theorem head_gap (text : List Char) : ∀ c ∈ (e.gap ++ text).head?, Tag.isNameChar c = false :=
  fun c hc => Tag.isNameChar_of_isBlank (head_blanks e.gap_blank e.gap_ne_nil text c hc)

theorem head_written (text rest : List Char) :
    ∀ c ∈ (e.written text ++ rest).head?, Tag.isNameChar c = false := by
  refine head_printed_front e.front ?_
  rw [List.append_assoc]
  exact e.head_gap _

theorem says_written (h : Gives text rest closes given said) :
    Says (e.written text) rest closes
      (e.front.map PrintedAttribute.meaning ++ (String.ofList e.key, given) :: said) := by
  refine (h.named e.gap_blank e.key_char e.key_ne_nil).printAttributes ?_ e.front
  rw [List.append_assoc]
  exact e.head_gap _

/-- What follows the opening tag is read with it. -/
theorem readsAs_opening {value : List Char}
    (h : Gives (value ++ e.tail) (e.closing ++ rest) e.content?.isNone given said) :
    ReadsAs e.kind (e.opening value ++ e.closing) rest
      (e.front.map PrintedAttribute.meaning ++ (String.ofList e.key, given) :: said)
      (e.content?.getD []) := by
  have hsays := e.says_written h
  have hhead := e.head_written (value ++ e.tail) (e.closing ++ rest)
  unfold opening
  generalize e.written (value ++ e.tail) = text at hsays hhead ⊢
  unfold closing at hsays hhead ⊢
  cases hcontent : e.content? with
  | none =>
    rw [hcontent] at hsays hhead
    rw [List.append_nil]
    exact readsAs_empty e.named hhead hsays
  | some content =>
    rw [hcontent] at hsays hhead
    simp only [List.append_assoc] at hsays hhead
    exact readsAs_closed e.named (e.whole content hcontent) hhead hsays

theorem says_tail (rest : List Char) :
    Says e.tail rest e.content?.isNone (e.behind.map PrintedAttribute.meaning) := by
  have hsays := (says_end e.content?.isNone rest e.blanks_blank).printAttributes ?_ e.behind
  · rwa [List.append_nil] at hsays
  · rw [List.append_assoc]
    exact head_printed [] e.content?.isNone rest e.blanks_blank

/-- What the element says with quotes around the value. -/
def quotedMeanings : List (String × Option String) :=
  e.front.map PrintedAttribute.meaning ++
    (String.ofList e.key, some (String.ofList e.value)) :: e.behind.map PrintedAttribute.meaning

/-- What the element says without quotes around the value. -/
def meanings : List (String × Option String) :=
  e.front.map PrintedAttribute.meaning ++ bareMeanings (String.ofList e.key) e.value e.behind

theorem readsAs_quoted (rest : List Char) :
    ReadsAs e.kind e.quoted rest e.quotedMeanings (e.content?.getD []) := by
  have hvalue : '"' ∉ e.value := fun h => absurd (e.value_bare _ h) (by decide)
  exact e.readsAs_opening ((e.says_tail _).quoted hvalue)

theorem apart (h : ¬ e.Swallows) (rest : List Char) : Apart e.value (e.tail ++ rest) := by
  intro hlast hangle
  have hblank {blanks : List Char} (hb : ∀ b ∈ blanks, Tag.isBlank b = true) (text : List Char)
      (hhead : (blanks ++ text).head? = some '>') : blanks = [] := by
    by_contra hne
    exact absurd (head_blanks hb hne text '>' hhead) (by decide)
  rw [tail, List.append_assoc, List.append_assoc] at hangle
  cases hbehind : e.behind with
  | cons a behind =>
    rw [hbehind, printAttributes, PrintedAttribute.print] at hangle
    simp only [List.append_assoc] at hangle
    exact a.blanks_ne_nil (hblank a.blanks_blank _ hangle)
  | nil =>
    rw [hbehind] at hangle
    have hblanks := hblank e.blanks_blank _ hangle
    rw [hblanks] at hangle
    cases hcontent : e.content? with
    | some content => exact h ⟨hlast, hbehind, hblanks, hcontent ▸ rfl⟩
    | none =>
      rw [hcontent] at hangle
      cases hangle

theorem readsAs_bare (h : ¬ e.Swallows) (rest : List Char) :
    ReadsAs e.kind e.bare rest e.meanings (e.content?.getD []) := by
  obtain ⟨given, said, hgives, hsaid⟩ :=
    exists_gives e.value_bare e.blanks_blank (e.apart h (e.closing ++ rest))
  have hreads := e.readsAs_opening hgives
  rw [← hsaid] at hreads
  exact hreads

theorem nil_blank : ∀ c ∈ [], Tag.isBlank c = true := List.forall_mem_nil _

/-- A slash that meets the angle bracket ends the element with its opening tag. -/
theorem readsAs_swallowed (h : e.Swallows) (rest : List Char) :
    ReadsAs e.kind (e.opening e.value) (e.closing ++ rest) e.meanings [] := by
  obtain ⟨hlast, hbehind, hblanks, hcontent⟩ := h
  obtain ⟨value, hvalue⟩ := List.getLast?_eq_some_iff.1 hlast
  have hbare : ∀ c ∈ value, Tag.isBareChar c = true := fun c hc =>
    e.value_bare c (hvalue ▸ List.mem_append_left _ hc)
  have htail : e.value ++ e.tail = value ++ (printAttributes [] ++ ([] ++ tagEnd true)) := by
    rw [hvalue, tail, hbehind, hblanks, Option.isNone_eq_false_iff.2 hcontent, List.append_assoc]
    rfl
  have hwords : Tag.words e.value = Tag.words value := by
    rw [hvalue, Tag.words_append rfl, Tag.words_nil, List.append_nil]
  have hapart : Apart value (printAttributes [] ++ ([] ++ tagEnd true) ++ (e.closing ++ rest)) :=
    fun _ hangle => by cases hangle
  obtain ⟨given, said, hgives, hsaid⟩ := exists_gives hbare nil_blank hapart
  have hreads := readsAs_empty e.named (e.head_written _ _) (e.says_written hgives)
  rw [← hsaid, ← bareMeanings_congr _ _ hwords, ← htail] at hreads
  rw [meanings, hbehind]
  exact hreads

theorem lookup_front {front : List PrintedAttribute} {name : String}
    (hfront : ∀ a ∈ front, String.ofList a.name ≠ name) (said : List (String × Option String)) :
    (front.map PrintedAttribute.meaning ++ said).lookup name = said.lookup name := by
  induction front with
  | nil => rfl
  | cons a front ih =>
    obtain ⟨ha, hfront⟩ := List.forall_mem_cons.1 hfront
    rw [List.map_cons, List.cons_append, PrintedAttribute.meaning, List.lookup_cons,
      beq_eq_false_iff_ne.2 ha.symm]
    exact ih hfront

/-- Flags do not give a value to an attribute. -/
theorem lookup_flags_join {behind : List PrintedAttribute} {name : String}
    (hbehind : ∀ a ∈ behind, String.ofList a.name ≠ name) (words : List (List Char)) :
    ((words.map (String.ofList ·, none) ++ behind.map PrintedAttribute.meaning).lookup name).join =
      none := by
  induction words with
  | nil =>
    have hlookup := lookup_front hbehind []
    rw [List.append_nil] at hlookup
    rw [List.map_nil, List.nil_append, hlookup]
    rfl
  | cons word words ih =>
    rw [List.map_cons, List.cons_append, List.lookup_cons]
    cases name == String.ofList word with
    | false => exact ih
    | true => rfl

variable {s : Section}

/-- The language of a section whose first attributes say nothing about languages. -/
theorem lang?_of_type {front : List PrintedAttribute} {type : String}
    (hfront : ∀ a ∈ front, String.ofList a.name ≠ "lang" ∧ String.ofList a.name ≠ "type")
    (hsaid : (said.lookup "lang").join = none)
    (h : s.meanings = front.map PrintedAttribute.meaning ++ ("type", some type) :: said) :
    s.lang? = some (Section.mediaSubtype type) := by
  have hlang : s.attributeValue? "lang" = none := by
    rw [Section.attributeValue?_eq, h, lookup_front fun a ha => (hfront a ha).1]
    exact hsaid
  have htype : s.attributeValue? "type" = some type := by
    rw [Section.attributeValue?_eq, h, lookup_front fun a ha => (hfront a ha).2, List.lookup_cons]
    rfl
  rw [Section.lang?, hlang, htype]
  rfl

theorem lang?_of_lang {front : List PrintedAttribute} {lang : String}
    (hfront : ∀ a ∈ front, String.ofList a.name ≠ "lang")
    (h : s.meanings = front.map PrintedAttribute.meaning ++ ("lang", some lang) :: said) :
    s.lang? = some lang := by
  rw [Section.lang?, Section.attributeValue?_eq, h, lookup_front hfront, List.lookup_cons]
  rfl

/-- What is read of an element, once with quotes around the value and once without. -/
structure Readings (e : BareSection) (quoted bare : Section) : Prop where
  kinds : quoted.kind = e.kind ∧ bare.kind = e.kind
  content : quoted.content = String.ofList (e.content?.getD [])
  content_bare : bare.content = if e.Swallows then "" else quoted.content
  meanings : quoted.meanings = e.quotedMeanings
  meanings_bare : bare.meanings = e.meanings
  /-- Both have the same attributes exactly if the value is one word. -/
  same_iff : bare.meanings = quoted.meanings ↔ ∀ c ∈ e.value, Tag.isNameChar c = true
  same_language : (∀ c ∈ e.value, Tag.isNameChar c = true) →
    bare.lang? = quoted.lang? ∧ bare.context = quoted.context
  /-- Of a `lang` only the first word is told. -/
  lang : ∀ word words, String.ofList e.key = "lang" → Tag.words e.value = word :: words →
    (∀ a ∈ e.front, String.ofList a.name ≠ "lang") →
      quoted.lang? = some (String.ofList e.value) ∧ bare.lang? = some (String.ofList word)
  /-- The subtype of a media type is lost. -/
  media : ∀ subtype, String.ofList e.key = "type" → e.value = "text/".toList ++ subtype →
    (∀ a ∈ e.front, String.ofList a.name ≠ "lang" ∧ String.ofList a.name ≠ "type") →
    (∀ a ∈ e.behind, String.ofList a.name ≠ "lang") →
      quoted.lang? = some (String.ofList subtype) ∧ bare.lang? = some "text"

theorem meanings_eq_iff :
    e.meanings = e.quotedMeanings ↔ ∀ c ∈ e.value, Tag.isNameChar c = true := by
  rw [meanings, quotedMeanings, List.append_cancel_left_eq]
  exact bareMeanings_eq_iff _ _ e.value_ne_nil

variable {e} {quoted bare : Section}

theorem lang?_of_media {subtype : List Char} (hkey : String.ofList e.key = "type")
    (hvalue : e.value = "text/".toList ++ subtype)
    (hfront : ∀ a ∈ e.front, String.ofList a.name ≠ "lang" ∧ String.ofList a.name ≠ "type")
    (hbehind : ∀ a ∈ e.behind, String.ofList a.name ≠ "lang")
    (hquoted : quoted.meanings = e.quotedMeanings) (hbare : bare.meanings = e.meanings) :
    quoted.lang? = some (String.ofList subtype) ∧ bare.lang? = some "text" := by
  constructor
  · rw [quotedMeanings, hkey] at hquoted
    rw [lang?_of_type hfront (lookup_flags_join hbehind []) hquoted, hvalue,
      Section.mediaSubtype_append]
  · have hwords : Tag.words e.value = "text".toList :: Tag.words subtype := by
      have hchars : ∀ c ∈ "text".toList, Tag.isNameChar c = true :=
        List.all_eq_true.1 (by decide)
      have hfirst := @Tag.words_front _ ('/' :: subtype) hchars (by decide)
        fun c hc => by cases hc; rfl
      rw [Tag.words_separator rfl] at hfirst
      rw [hvalue]
      exact hfirst
    rw [meanings, bareMeanings_of_words _ _ hwords, hkey] at hbare
    rw [lang?_of_type hfront (lookup_flags_join hbehind _) hbare]
    rfl

theorem readings_of_meanings (hkind : quoted.kind = e.kind) (hkind' : bare.kind = e.kind)
    (hcontent : quoted.content = String.ofList (e.content?.getD []))
    (hcontent' : bare.content = if e.Swallows then "" else String.ofList (e.content?.getD []))
    (hquoted : quoted.meanings = e.quotedMeanings) (hbare : bare.meanings = e.meanings) :
    e.Readings quoted bare where
  kinds := ⟨hkind, hkind'⟩
  content := hcontent
  content_bare := hcontent ▸ hcontent'
  meanings := hquoted
  meanings_bare := hbare
  same_iff := by
    rw [hquoted, hbare]
    exact e.meanings_eq_iff
  same_language h := by
    have hsame : bare.meanings = quoted.meanings := by
      rw [hquoted, hbare]
      exact e.meanings_eq_iff.2 h
    exact ⟨Section.lang?_congr hsame, Section.context_congr hsame⟩
  lang word words hkey hwords hfront := by
    rw [quotedMeanings, hkey] at hquoted
    rw [BareSection.meanings, bareMeanings_of_words _ _ hwords, hkey] at hbare
    exact ⟨lang?_of_lang hfront hquoted, lang?_of_lang hfront hbare⟩
  media subtype hkey hvalue hfront hbehind :=
    lang?_of_media hkey hvalue hfront hbehind hquoted hbare

/-- What is read of an element in front of a text, once with quotes and once without. A slash that
meets the angle bracket leaves the content to be read as markup. -/
theorem exists_run (e : BareSection) (source source' : List Char) (s s' : ScanState)
    (offset offset' : Nat) (rest : List Char) :
    ∃ quoted bare, e.Readings quoted bare ∧
      (run source s offset (e.quoted ++ rest) = (recordAtTop s quoted).bind fun t =>
        run source t (offset + Text.byteLength e.quoted) rest) ∧
      run source' s' offset' (e.bare ++ rest) = (recordAtTop s' bare).bind fun t =>
        if e.Swallows then
          run source' t (offset' + Text.byteLength (e.opening e.value)) (e.closing ++ rest)
        else run source' t (offset' + Text.byteLength e.bare) rest := by
  obtain ⟨quoted, hkind, hquoted, hcontent, hrun⟩ := e.readsAs_quoted rest source s offset
  by_cases hswallows : e.Swallows
  · obtain ⟨bare, hkind', hbare, hcontent', hrun'⟩ :=
      e.readsAs_swallowed hswallows rest source' s' offset'
    refine ⟨quoted, bare, readings_of_meanings hkind hkind' hcontent ?_ hquoted hbare, hrun, ?_⟩
    · rw [hcontent', if_pos hswallows, String.ofList_nil]
    · simp only [if_pos hswallows]
      rw [BareSection.bare, List.append_assoc]
      exact hrun'
  · obtain ⟨bare, hkind', hbare, hcontent', hrun'⟩ :=
      e.readsAs_bare hswallows rest source' s' offset'
    refine ⟨quoted, bare, readings_of_meanings hkind hkind' hcontent ?_ hquoted hbare, hrun, ?_⟩
    · rw [hcontent', if_neg hswallows]
    · simp only [if_neg hswallows]
      exact hrun'

end BareSection

/-- Quotes around a value do not matter if it is one word. Of a longer value only the first word is
read, the other words become flags, and the language is told from the first word alone. This is so
for an element that is a whole document, and for one that stands anywhere in a document; the rest of
the document is read alike, except behind a slash that makes the opening tag close its element. -/
theorem lang_of_unquoted (e : BareSection) :
    (∃ quoted bare, e.Readings quoted bare ∧
      scan (String.ofList e.quoted) = .ok ⟨.ofSections [quoted], []⟩ ∧
      (¬ e.Swallows → scan (String.ofList e.bare) = .ok ⟨.ofSections [bare], []⟩)) ∧
    ∀ source source' s s' offset offset' rest, ∃ quoted bare, e.Readings quoted bare ∧
      (Scan.run source s offset (e.quoted ++ rest) =
        (Scan.recordAtTop s quoted).bind fun t =>
          Scan.run source t (offset + Text.byteLength e.quoted) rest) ∧
      Scan.run source' s' offset' (e.bare ++ rest) =
        (Scan.recordAtTop s' bare).bind fun t =>
          if e.Swallows then
            Scan.run source' t (offset' + Text.byteLength (e.opening e.value)) (e.closing ++ rest)
          else Scan.run source' t (offset' + Text.byteLength e.bare) rest := by
  refine ⟨?_, e.exists_run⟩
  obtain ⟨quoted, bare, hreadings, hquoted, hbare⟩ :=
    e.exists_run e.quoted e.bare ⟨.empty, [], []⟩ ⟨.empty, [], []⟩ 0 0 []
  rw [List.append_nil] at hquoted hbare
  refine ⟨quoted, bare, hreadings, scan_of_run hquoted, fun hswallows => ?_⟩
  simp only [if_neg hswallows] at hbare
  exact scan_of_run hbare

theorem BareSection.style_chars : ∀ c ∈ "tyle".toList, Tag.isNameChar c = true :=
  List.all_eq_true.1 (by decide)

/-- A style with one attribute. -/
def BareSection.style (key value : List Char) (key_char : ∀ c ∈ key, Tag.isNameChar c = true)
    (key_ne_nil : key ≠ []) (value_bare : ∀ c ∈ value, Tag.isBareChar c = true)
    (value_ne_nil : value ≠ []) : BareSection where
  kind := .style
  name := ⟨'s', "tyle".toList, rfl, style_chars⟩
  named := rfl
  front := []
  gap := [' ']
  gap_blank := List.forall_mem_singleton.2 rfl
  gap_ne_nil := List.cons_ne_nil _ _
  key := key
  key_char := key_char
  key_ne_nil := key_ne_nil
  value := value
  value_bare := value_bare
  value_ne_nil := value_ne_nil
  behind := []
  blanks := []
  blanks_blank := nil_blank
  content? := some ['a']
  whole := by
    rintro content hcontent ⟨front, written, back, htext, -⟩
    obtain rfl := Option.some.inj hcontent
    have hangle : '<' ∈ ['a'] := htext ▸ List.mem_append_right _ List.mem_cons_self
    exact absurd hangle (by decide)

def BareSection.media : BareSection :=
  .style "type".toList "text/scss".toList (List.all_eq_true.1 (by decide)) (by decide)
    (List.all_eq_true.1 (by decide)) (by decide)

def BareSection.word : BareSection :=
  .style "lang".toList "scss".toList (List.all_eq_true.1 (by decide)) (by decide)
    (List.all_eq_true.1 (by decide)) (by decide)

/-- A media type loses its subtype, and a word does not matter. -/
theorem lang_of_unquoted_of_style :
    (∃ quoted bare,
      scan "<style type=\"text/scss\">a</style>" = .ok ⟨.ofSections [quoted], []⟩ ∧
      scan "<style type=text/scss>a</style>" = .ok ⟨.ofSections [bare], []⟩ ∧
      quoted.lang? = some "scss" ∧ bare.lang? = some "text") ∧
    ∃ quoted bare,
      scan "<style lang=\"scss\">a</style>" = .ok ⟨.ofSections [quoted], []⟩ ∧
      scan "<style lang=scss>a</style>" = .ok ⟨.ofSections [bare], []⟩ ∧
      bare.lang? = quoted.lang? ∧ bare.meanings = quoted.meanings := by
  constructor
  · obtain ⟨quoted, bare, hreadings, hquoted, hbare⟩ := (lang_of_unquoted .media).1
    have hlang := hreadings.media "scss".toList rfl rfl (fun _ h => nomatch h) (fun _ h => nomatch h)
    exact ⟨quoted, bare, hquoted, hbare (by decide), hlang⟩
  · obtain ⟨quoted, bare, hreadings, hquoted, hbare⟩ := (lang_of_unquoted .word).1
    have hword : ∀ c ∈ BareSection.word.value, Tag.isNameChar c = true :=
      List.all_eq_true.1 (by decide)
    exact ⟨quoted, bare, hquoted, hbare (by decide), (hreadings.same_language hword).1,
      hreadings.same_iff.2 hword⟩

/-- Without quotes the type of a style is not its media type, and what stands behind the slash is an
attribute. -/
theorem lang_of_unquoted_lost :
    scan "<style type=\"text/scss\">a</style>" =
        .ok ⟨⟨none, none, some ⟨.style, ⟨0, 33⟩, ⟨24, 25⟩, "a",
          [⟨"type", some "text/scss", ⟨7, 23⟩⟩]⟩⟩, []⟩ ∧
      scan "<style type=text/scss>a</style>" =
        .ok ⟨⟨none, none, some ⟨.style, ⟨0, 31⟩, ⟨22, 23⟩, "a",
          [⟨"type", some "text", ⟨7, 16⟩⟩, ⟨"scss", none, ⟨17, 21⟩⟩]⟩⟩, []⟩ := by
  constructor
  · decide +kernel
  · decide +kernel

end ComponentBuild
