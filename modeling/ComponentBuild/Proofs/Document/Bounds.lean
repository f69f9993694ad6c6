import ComponentBuild.Proofs.Document.Sections
import ComponentBuild.Proofs.Document.Shift

namespace ComponentBuild

open Text (StandsAt IsBoundary)

theorem Tag.quoted_kind (kind : TokenKind) (q : Char) (cs : List Char) :
    (quoted kind q cs).kind = kind ∨ (quoted kind q cs).kind = .invalid := by
  unfold quoted
  split
  · exact .inl rfl
  · exact .inr rfl

theorem Tag.braced_kind (cs : List Char) :
    (braced cs).kind = .expression ∨ (braced cs).kind = .invalid := by
  unfold braced
  split
  · exact .inl rfl
  · exact .inr rfl

/-- What closes a tag ends with its angle bracket. -/
theorem Tag.lexeme_closesTag {c : Char} {cs : List Char} :
    (lexeme c cs).kind.closesTag = true → ∃ front, (lexeme c cs).text = front ++ ['>'] := by
  unfold lexeme
  split
  next h => exact fun _ => ⟨[], by rw [h]; rfl⟩
  split
  next h =>
    split
    · exact fun _ => ⟨['/'], by rw [h]; rfl⟩
    · exact fun h => by cases h
  split
  · exact fun h => by cases h
  split
  · rcases quoted_kind .doubleQuoted c cs with hk | hk <;> rw [hk] <;> exact fun h => by cases h
  split
  · rcases quoted_kind .singleQuoted c cs with hk | hk <;> rw [hk] <;> exact fun h => by cases h
  split
  · rcases braced_kind cs with hk | hk <;> rw [hk] <;> exact fun h => by cases h
  split
  · exact fun h => by cases h
  · exact fun h => by cases h

theorem Tag.next?_text_ne_nil {cs blanks : List Char} {x : Lexeme}
    (h : next? cs = some (blanks, x)) : x.text ≠ [] := by
  unfold next? at h
  split at h
  next => contradiction
  next c rest _ =>
    simp only [Option.some.injEq, Prod.mk.injEq] at h
    rw [← h.2]
    exact lexeme_text_ne_nil c rest

theorem Tag.next?_closesTag {cs blanks : List Char} {x : Lexeme} (h : next? cs = some (blanks, x))
    (hx : x.kind.closesTag = true) : ∃ front, cs = front ++ '>' :: x.rest := by
  have happend := next?_append h
  unfold next? at h
  split at h
  next => contradiction
  next c rest _ =>
    simp only [Option.some.injEq, Prod.mk.injEq] at h
    obtain ⟨-, rfl⟩ := h
    obtain ⟨front, htext⟩ := lexeme_closesTag hx
    refine ⟨blanks ++ front, ?_⟩
    rw [happend, htext]
    simp only [List.append_assoc, List.singleton_append]

/-- Attributes one behind the other, each with some text, between two offsets. -/
structure AttributesWithin (start stop : Nat) (as : List Attribute) : Prop where
  ordered : as.Pairwise fun a b => a.span.stop ≤ b.span.start
  inside : ∀ a ∈ as, start ≤ a.span.start ∧ a.span.start < a.span.stop ∧ a.span.stop ≤ stop

namespace AttributesWithin

theorem ofOption {current : Option Attribute} {start stop : Nat}
    (h : ∀ a ∈ current, start ≤ a.span.start ∧ a.span.start < a.span.stop ∧ a.span.stop ≤ stop) :
    AttributesWithin start stop current.toList := by
  cases current with
  | none => exact ⟨.nil, by simp⟩
  | some a => exact ⟨List.pairwise_singleton _ _, by simpa using h a rfl⟩

theorem cons {start middle stop : Nat} {current : Option Attribute}
    {as : List Attribute}
    (h : ∀ a ∈ current, start ≤ a.span.start ∧ a.span.start < a.span.stop ∧ a.span.stop ≤ middle)
    (has : AttributesWithin middle stop as) (hstart : start ≤ middle) (hstop : middle ≤ stop) :
    AttributesWithin start stop (current.toList ++ as) := by
  have hfirst := ofOption h
  refine ⟨List.pairwise_append.2 ⟨hfirst.ordered, has.ordered, fun a ha b hb => ?_⟩,
    fun a ha => ?_⟩
  · have hamiddle := hfirst.inside a ha
    have hbmiddle := has.inside b hb
    omega
  · rcases List.mem_append.1 ha with ha | ha
    · have hamiddle := hfirst.inside a ha
      omega
    · have hamiddle := has.inside a ha
      omega

end AttributesWithin

namespace Scan

/-- The attribute that is being read, if any, stands between two offsets. -/
def CurrentWithin (start stop : Nat) (current : Option Attribute) : Prop :=
  ∀ a ∈ current, start ≤ a.span.start ∧ a.span.start < a.span.stop ∧ a.span.stop ≤ stop

namespace CurrentWithin

variable {start middle stop : Nat} {current : Option Attribute}

theorem mono (h : CurrentWithin start middle current) (hle : middle ≤ stop) :
    CurrentWithin start stop current :=
  fun a ha => ⟨(h a ha).1, (h a ha).2.1, Nat.le_trans (h a ha).2.2 hle⟩

/-- A value makes its attribute longer. -/
theorem given (h : CurrentWithin start middle current) (hle : middle ≤ stop) (value : String) :
    CurrentWithin start stop (current.map fun a =>
      { a with value := some value, span := ⟨a.span.start, stop⟩ }) := by
  intro a ha
  obtain ⟨b, hb, rfl⟩ := Option.map_eq_some_iff.1 ha
  obtain ⟨hstart, hlt, hstop⟩ := h b hb
  exact ⟨hstart, Nat.lt_of_lt_of_le hlt (Nat.le_trans hstop hle), Nat.le_refl _⟩

end CurrentWithin

/-- What is read from an offset ends with the angle bracket of the tag. -/
def EndsTag (offset : Nat) (cs : List Char) (t : TagEnd) : Prop :=
  ∃ front, cs = front ++ '>' :: t.rest ∧ t.stop = offset + Text.byteLength front + 1

namespace EndsTag

variable {offset : Nat} {cs blanks : List Char} {x : Tag.Lexeme} {t : TagEnd}

theorem of_closing (hnext : Tag.next? cs = some (blanks, x)) (hkind : x.kind.closesTag = true)
    (as : List Attribute) (b : Bool) :
    EndsTag offset cs ⟨as, b, offset + Text.byteLength blanks + Text.byteLength x.text, x.rest⟩ := by
  obtain ⟨front, hfront⟩ := Tag.next?_closesTag hnext hkind
  have hsize := congrArg Text.byteLength ((Tag.next?_append hnext).symm.trans hfront)
  simp only [Text.byteLength_append, Text.byteLength_cons, show '>'.utf8Size = 1 from rfl] at hsize
  refine ⟨front, hfront, ?_⟩
  dsimp only
  omega

/-- A tag goes on behind each of its tokens. -/
theorem behind (hnext : Tag.next? cs = some (blanks, x))
    (h : EndsTag (offset + Text.byteLength blanks + Text.byteLength x.text) x.rest t) :
    EndsTag offset cs t ∧ offset + Text.byteLength blanks < t.stop := by
  obtain ⟨front, hrest, hstop⟩ := h
  refine ⟨⟨blanks ++ (x.text ++ front), ?_, ?_⟩, by omega⟩
  · rw [Tag.next?_append hnext, hrest]
    simp only [List.append_assoc]
  · rw [hstop, Text.byteLength_append, Text.byteLength_append]
    omega

end EndsTag

/-- The attributes of a tag stand between its name and the angle bracket that ends it. -/
theorem readAttributes_within {offset lower : Nat} {current : Option Attribute} {wants : Bool}
    {cs : List Char} {t : TagEnd} (h : readAttributes offset current wants cs = some t)
    (hlower : lower ≤ offset) (hcurrent : CurrentWithin lower offset current) :
    EndsTag offset cs t ∧ AttributesWithin lower (t.stop - 1) t.attributes := by
  induction cs using Tag.tokenInduction generalizing offset lower current wants t with
  | ends cs hnext =>
    rw [readAttributes_of_none hnext] at h
    cases h
  | token cs blanks x hnext ih =>
    have htext := Text.byteLength_pos.2 (Tag.next?_text_ne_nil hnext)
    have hbehind : offset ≤ offset + Text.byteLength blanks + Text.byteLength x.text := by omega
    rw [readAttributes_of_next hnext] at h
    have again {lower' : Nat} {current' : Option Attribute} {wants' : Bool} {t' : TagEnd}
        (h' : readAttributes (offset + Text.byteLength blanks + Text.byteLength x.text) current'
          wants' x.rest = some t')
        (hlower' : lower' ≤ offset + Text.byteLength blanks + Text.byteLength x.text)
        (hcurrent' : CurrentWithin lower'
          (offset + Text.byteLength blanks + Text.byteLength x.text) current') :=
      (ih h' hlower' hcurrent').imp_left (EndsTag.behind hnext)
    have passes {current' : Option Attribute} {wants' : Bool}
        (h' : readAttributes (offset + Text.byteLength blanks + Text.byteLength x.text) current'
          wants' x.rest = some t)
        (hcurrent' : CurrentWithin lower
          (offset + Text.byteLength blanks + Text.byteLength x.text) current') :
        EndsTag offset cs t ∧ AttributesWithin lower (t.stop - 1) t.attributes :=
      (again h' (Nat.le_trans hlower hbehind) hcurrent').imp_left And.left
    have closes (hkind : x.kind.closesTag = true) (b : Bool)
        (ht : t = ⟨current.toList, b,
          offset + Text.byteLength blanks + Text.byteLength x.text, x.rest⟩) :
        EndsTag offset cs t ∧ AttributesWithin lower (t.stop - 1) t.attributes := by
      subst ht
      exact ⟨.of_closing hnext hkind _ _, .ofOption (hcurrent.mono (by dsimp only; omega))⟩
    cases hkind : x.kind with
    | closeAngle =>
      rw [hkind] at h
      exact closes (by rw [hkind]; rfl) false (Option.some.inj h).symm
    | slashAngle =>
      rw [hkind] at h
      exact closes (by rw [hkind]; rfl) true (Option.some.inj h).symm
    | name =>
      simp only [hkind] at h
      split at h
      · exact passes h (hcurrent.given hbehind _)
      · obtain ⟨t', ht', rfl⟩ := Option.map_eq_some_iff.1 h
        -- The attribute that starts here stands behind the one before.
        obtain ⟨⟨hends, hlt⟩, hwithin⟩ := again ht'
          (Nat.le_add_right (offset + Text.byteLength blanks) _) fun a ha => by
            cases ha
            exact ⟨Nat.le_refl _, by dsimp only; omega, Nat.le_refl _⟩
        exact ⟨hends, hwithin.cons (hcurrent.mono (Nat.le_add_right _ _)) (by omega)
          (Nat.le_sub_one_of_lt hlt)⟩
    | equals =>
      rw [hkind] at h
      exact passes h (hcurrent.mono hbehind)
    | doubleQuoted | singleQuoted | expression =>
      simp only [hkind] at h
      split at h
      · exact passes h (hcurrent.given hbehind _)
      · exact passes h (hcurrent.mono hbehind)
    | slash | endOfText | invalid =>
      rw [hkind] at h
      exact passes h (hcurrent.mono hbehind)

theorem splitAtClosing?_closing {name cs content closing : List Char}
    (h : splitAtClosing? name cs = some (content, closing)) :
    ∃ rest, closing = '<' :: '/' :: rest := by
  induction cs generalizing content with
  | nil => cases h
  | cons c cs ih =>
    simp only [splitAtClosing?] at h
    split at h
    next hmatch =>
      cases h
      obtain ⟨rfl, hslash, -⟩ := hmatch
      obtain ⟨cs, rfl⟩ := List.head?_eq_some_iff.1 hslash
      exact ⟨cs, rfl⟩
    next =>
      obtain ⟨⟨content', closing'⟩, hrest, heq⟩ := Option.map_eq_some_iff.1 h
      cases heq
      exact ih hrest

/-- Raw text goes up to the first closing tag of its name. -/
theorem not_endsRaw_of_splitAtClosing? {name cs content closing : List Char}
    (h : splitAtClosing? name cs = some (content, closing)) : ¬ EndsRaw name content := by
  intro hends
  obtain ⟨rest, rfl⟩ := splitAtClosing?_closing h
  obtain ⟨front, back, hsplit, hshorter⟩ := splitAtClosing?_cut hends ('/' :: rest)
  rw [← splitAtClosing?_append h, h] at hsplit
  cases hsplit
  exact Nat.lt_irrefl _ hshorter

end Scan

/-- A section that stands in a document, cut at its tags: its attributes inside the opening tag, its
content right behind that and without a closing tag of its own. -/
structure Section.Placed (source : List Char) (s : Section) : Prop where
  standsIn : s.StandsIn source
  start_boundary : IsBoundary source s.span.start
  stop_boundary : IsBoundary source s.span.stop
  start_lt : s.span.start + 1 < s.contentSpan.start
  content_le : s.contentSpan.start ≤ s.contentSpan.stop
  stop_le : s.contentSpan.stop ≤ s.span.stop
  angle : Text.slice? source (s.contentSpan.start - 1) s.contentSpan.start = some ['>']
  unclosed : ¬ Scan.EndsRaw s.kind.elementName.toList s.content.toList
  attributes : AttributesWithin (s.span.start + 1) (s.contentSpan.start - 1) s.attributes

/-- Parts of a page as the text in ranges of a document, without blanks at the ends. -/
structure PartsIn (source : List Char) (parts : List HtmlPart) (ranges : List Span) : Prop where
  data : List.Forall₂ (fun part range => ∃ text,
    Text.slice? source range.start range.stop = some text ∧
      part.data = String.ofList (Text.trim text)) parts ranges
  ordered : ranges.Pairwise fun a b => a.stop ≤ b.start

/-- What has been found up to an offset stands in front of it, and apart from each other. -/
structure ScanState.Bounded (source : List Char) (offset : Nat) (s : ScanState) : Prop where
  stack : ∀ e ∈ s.stack, IsBoundary source e.contentStart ∧ e.contentStart ≤ offset
  sections : ∀ slot found, s.component.get slot = some found →
    found.Placed source ∧ found.span.stop ≤ offset
  apart : ∀ slot slot' found found', slot ≠ slot' → s.component.get slot = some found →
    s.component.get slot' = some found' →
      found.span.stop ≤ found'.span.start ∨ found'.span.stop ≤ found.span.start
  parts : ∃ ranges, PartsIn source s.html ranges ∧
    ∀ range ∈ ranges, range.stop ≤ offset ∧ ∀ e ∈ s.stack, range.stop ≤ e.contentStart

namespace ScanState.Bounded

variable {source : List Char} {offset next : Nat} {s t : ScanState}

theorem mono (h : s.Bounded source offset) (hle : offset ≤ next) : s.Bounded source next := by
  obtain ⟨ranges, hparts, hranges⟩ := h.parts
  refine ⟨fun e he => ?_, fun slot found hfound => ?_, h.apart, ranges, hparts, fun r hr => ?_⟩
  · exact ⟨(h.stack e he).1, Nat.le_trans (h.stack e he).2 hle⟩
  · obtain ⟨hplaced, hstop⟩ := h.sections slot found hfound
    exact ⟨hplaced, Nat.le_trans hstop hle⟩
  · exact ⟨Nat.le_trans (hranges r hr).1 hle, (hranges r hr).2⟩

/-- An element that opens here is behind all that has been found. -/
theorem push (h : s.Bounded source offset) (hle : offset ≤ next) (hnext : IsBoundary source next)
    (name : String) :
    ScanState.Bounded source next { s with stack := ⟨name, next⟩ :: s.stack } := by
  obtain ⟨ranges, hparts, hranges⟩ := (h.mono hle).parts
  refine ⟨fun e he => ?_, (h.mono hle).sections, h.apart, ranges, hparts, fun r hr => ?_⟩
  · rcases List.mem_cons.1 he with rfl | he
    · exact ⟨hnext, Nat.le_refl _⟩
    · exact (h.mono hle).stack e he
  · refine ⟨(hranges r hr).1, fun e he => ?_⟩
    rcases List.mem_cons.1 he with rfl | he
    · exact (hranges r hr).1
    · exact (hranges r hr).2 e he

/-- A section that starts here is apart from all others. -/
theorem place (h : s.Bounded source offset) {found : Section} {c : Component}
    (hfound : found.Placed source) (hstart : offset ≤ found.span.start)
    (hstop : found.span.stop ≤ next) (hplace : s.component.place found = .ok c) :
    ScanState.Bounded source next { s with component := c } := by
  have hlt := hfound.start_lt
  have hcontent := hfound.content_le
  have hend := hfound.stop_le
  have hmono := h.mono (show offset ≤ next by omega)
  refine ⟨hmono.stack, fun slot t ht => ?_, fun slot slot' t t' hne ht ht' => ?_, hmono.parts⟩
  · rw [Component.get_of_place hplace] at ht
    split at ht
    · cases ht
      exact ⟨hfound, hstop⟩
    · exact hmono.sections slot t ht
  · rw [Component.get_of_place hplace] at ht ht'
    split at ht
    next hslot =>
      cases ht
      rw [if_neg fun he => hne (hslot.trans he.symm)] at ht'
      exact .inr (Nat.le_trans (h.sections _ _ ht').2 hstart)
    next =>
      split at ht'
      · cases ht'
        exact .inl (Nat.le_trans (h.sections _ _ ht).2 hstart)
      · exact h.apart _ _ _ _ hne ht ht'

/-- The part of an element that is still open starts behind all parts there are. -/
theorem add_part (h : s.Bounded source offset) (hoffset : IsBoundary source offset)
    {e : OpenElement} (he : e ∈ s.stack) :
    ∃ ranges, PartsIn source (s.html ++ (Scan.htmlPart? source e offset).toList) ranges ∧
      ∀ range ∈ ranges, range.stop ≤ offset := by
  obtain ⟨ranges, hparts, hranges⟩ := h.parts
  obtain ⟨hstart, hle⟩ := h.stack e he
  have hslice := Text.slice?_between hstart hoffset hle
  have add (region : HtmlRegion) (data : String)
      (hdata : data = String.ofList (Text.trim (Text.between source e.contentStart offset).toList)) :
      ∃ ranges, PartsIn source (s.html ++ [⟨region, data⟩]) ranges ∧
        ∀ range ∈ ranges, range.stop ≤ offset := by
    refine ⟨ranges ++ [⟨e.contentStart, offset⟩], ⟨?_, ?_⟩, fun r hr => ?_⟩
    · exact List.rel_append hparts.data (.cons ⟨_, hslice, hdata⟩ .nil)
    · refine List.pairwise_append.2 ⟨hparts.ordered, List.pairwise_singleton _ _, ?_⟩
      intro r hr r' hr'
      rw [List.mem_singleton.1 hr']
      exact (hranges r hr).2 e he
    · rcases List.mem_append.1 hr with hr | hr
      · exact (hranges r hr).1
      · obtain rfl := List.mem_singleton.1 hr
        exact Nat.le_refl _
  unfold Scan.htmlPart?
  rw [hslice, Option.getD_some]
  split
  · exact add .head _ rfl
  split
  · exact add .body _ rfl
  · exact ⟨ranges, by simpa using hparts, fun r hr => (hranges r hr).1⟩

theorem close (h : s.Bounded source offset) (hoffset : IsBoundary source offset) (name : String) :
    (Scan.ScanState.close s source name offset).Bounded source offset := by
  have hsub : ∀ e ∈ s.stack.dropWhile (·.name != name), e ∈ s.stack := fun e he =>
    (List.dropWhile_suffix _).subset he
  unfold Scan.ScanState.close
  split
  next => exact h
  next e hd =>
    obtain ⟨ranges, hparts, hranges⟩ := h.add_part hoffset (hsub e (by rw [hd]; simp))
    exact ⟨by simp, h.sections, h.apart, ranges, hparts, fun r hr => ⟨hranges r hr, by simp⟩⟩
  next e outer _ hd =>
    have houter : ∀ e ∈ outer, e ∈ s.stack := fun e he => hsub e (by rw [hd]; simp [he])
    obtain ⟨ranges, hparts, hranges⟩ := h.parts
    refine ⟨fun e he => h.stack e (houter e he), h.sections, h.apart, ranges, hparts,
      fun r hr => ⟨(hranges r hr).1, fun e he => (hranges r hr).2 e (houter e he)⟩⟩

end ScanState.Bounded

namespace Scan

variable {source : List Char} {s : ScanState} {offset start : Nat}

/-- A script or style, its angle bracket at `start`, as it stands in the document. -/
theorem rawSection_placed {name : String} {tag : TagEnd} {content rest : List Char}
    {contentStop stop : Nat} {kind : SectionKind} (hname : name = kind.elementName)
    (hstart : IsBoundary source start) (htag : StandsAt source tag.stop (content ++ rest))
    (hcontentStop : contentStop = tag.stop + Text.byteLength content)
    (hlt : start + 1 < tag.stop) (hstop : IsBoundary source stop) (hle : contentStop ≤ stop)
    (hangle : Text.slice? source (tag.stop - 1) tag.stop = some ['>'])
    (hattributes : AttributesWithin (start + 1) (tag.stop - 1) tag.attributes)
    (hcontent : ¬ EndsRaw name.toList content) :
    (rawSection name start tag content contentStop stop).Placed source := by
  subst hname hcontentStop
  have hstands := htag.slice? content
  refine ⟨?_, hstart, hstop, hlt, Nat.le_add_right _ _, hle, hangle, ?_, hattributes⟩
  · rw [Section.StandsIn, rawSection, String.toList_ofList]
    exact hstands
  · rw [rawSection, kind.ofElementName, String.toList_ofList]
    exact hcontent

theorem recordAtTop_bounded {found : Section} {u : ScanState} {next : Nat}
    (h : recordAtTop s found = .ok u) (hs : s.Bounded source start)
    (hfound : found.Placed source) (hstart : found.span.start = start)
    (hnext : found.span.stop = next) : u.Bounded source next := by
  have hlt := hfound.start_lt
  have hcontent := hfound.content_le
  have hstop := hfound.stop_le
  unfold recordAtTop at h
  split at h
  · rw [recordSection_eq] at h
    obtain ⟨c, hplace, rfl⟩ := exists_of_map_ok h
    exact hs.place hfound (Nat.le_of_eq hstart.symm) (Nat.le_of_eq hnext) hplace
  · cases h
    exact hs.mono (by omega)

/-- The opening tag of an element that starts at an offset. -/
structure TagEnd.Opens (source : List Char) (start : Nat) (tag : TagEnd) : Prop where
  standsAt : StandsAt source tag.stop tag.rest
  start_lt : start + 1 < tag.stop
  angle : Text.slice? source (tag.stop - 1) tag.stop = some ['>']
  attributes : AttributesWithin (start + 1) (tag.stop - 1) tag.attributes

/-- What is read behind an angle bracket and a name opens an element. -/
theorem opens_of_readAttributes {cs : List Char} {tag : TagEnd}
    (hcs : StandsAt source (start + 1) cs)
    (h : readAttributes (start + 1 + Text.byteLength (cs.takeWhile Tag.isNameChar)) none false
      (cs.dropWhile Tag.isNameChar) = some tag) : tag.Opens source start := by
  rw [← List.takeWhile_append_dropWhile (p := Tag.isNameChar) (l := cs)] at hcs
  have hbehind := hcs.drop _
  obtain ⟨⟨front, hfront, hstop⟩, hwithin⟩ :=
    readAttributes_within h (Nat.le_add_right (start + 1) _) fun _ ha => nomatch ha
  rw [hfront] at hbehind
  have hangle := (hbehind.drop front).slice? ['>']
  have hone : Text.byteLength ['>'] = 1 := rfl
  rw [hone, ← hstop] at hangle
  refine ⟨?_, by omega, ?_, hwithin⟩
  · rw [hstop]
    exact (hbehind.drop front).drop ['>']
  · rw [← hangle, hstop, Nat.add_sub_cancel]

/-- A script or style that was read up to its closing tag. -/
theorem rawElement_bounded {name : String} {tag : TagEnd} {t : Step} {kind : SectionKind}
    (hname : name = kind.elementName) (h : rawElement s start name tag = .ok t)
    (hs : s.Bounded source start) (hstart : IsBoundary source start)
    (htag : tag.Opens source start) : t.state.Bounded source t.offset := by
  rw [rawElement_eq] at h
  split at h
  · obtain ⟨u, hu, rfl⟩ := exists_of_map_ok h
    refine recordAtTop_bounded hu hs ?_ rfl rfl
    refine @rawSection_placed _ _ _ _ [] tag.rest _ _ _ hname hstart htag.standsAt rfl htag.start_lt
      htag.standsAt.isBoundary (Nat.le_refl _) htag.angle htag.attributes ?_
    rintro ⟨front, written, back, hnil, -⟩
    simp at hnil
  · split at h
    next => contradiction
    next content closing hsplit =>
      have hrest := splitAtClosing?_append hsplit
      split at h
      next => contradiction
      next c rest hd =>
        obtain ⟨u, hu, rfl⟩ := exists_of_map_ok h
        have hstands := hrest ▸ htag.standsAt
        have hparts := List.takeWhile_append_dropWhile (p := (· != '>')) (l := closing)
        rw [hd, eq_of_dropWhile_ne hd] at hparts
        have hclosing := hstands.drop content
        rw [← hparts] at hclosing
        refine recordAtTop_bounded hu hs ?_ rfl rfl
        exact rawSection_placed hname hstart hstands rfl htag.start_lt
          ((hclosing.drop _).drop ['>']).isBoundary (by omega) htag.angle htag.attributes
          (not_endsRaw_of_splitAtClosing? hsplit)

theorem recordAtTop_error {found : Section} {e : ScanError} (h : recordAtTop s found = .error e) :
    e.span = found.span := by
  unfold recordAtTop at h
  split at h
  · rw [recordSection_eq] at h
    have hplace := eq_of_map_error h
    unfold Component.place at hplace
    split at hplace
    · cases hplace
      rfl
    · cases hplace
  · cases h

/-- A tag, or what looks like one, starts at an offset. -/
def TagAt (source : List Char) (offset : Nat) : Prop := ∃ cs, StandsAt source offset ('<' :: cs)

theorem TagAt.isBoundary {offset : Nat} (h : TagAt source offset) : IsBoundary source offset :=
  h.choose_spec.isBoundary

theorem rawElement_error {name : String} {tag : TagEnd} {e : ScanError}
    (h : rawElement s start name tag = .error e) (hstart : TagAt source start)
    (htag : StandsAt source tag.stop tag.rest) : TagAt source e.span.start := by
  rw [rawElement_eq] at h
  split at h
  · rw [recordAtTop_error (eq_of_map_error h)]
    exact hstart
  · split at h
    next =>
      cases h
      exact hstart
    next content closing hsplit =>
      split at h
      next =>
        cases h
        obtain ⟨rest, rfl⟩ := splitAtClosing?_closing hsplit
        exact ⟨_, (splitAtClosing?_append hsplit ▸ htag).drop content⟩
      next =>
        rw [recordAtTop_error (eq_of_map_error h)]
        exact hstart

theorem lowered_elementName {lowered : String} (h : lowered = "script" ∨ lowered = "style") :
    ∃ kind : SectionKind, lowered = kind.elementName := by
  rcases h with rfl | rfl
  · exact ⟨.script, rfl⟩
  · exact ⟨.style, rfl⟩

theorem openTag_bounded {cs : List Char} {t : Step} (h : openTag s start cs = .ok t)
    (hs : s.Bounded source start) (hstart : IsBoundary source start)
    (hcs : StandsAt source (start + 1) cs) : t.state.Bounded source t.offset := by
  unfold openTag at h
  simp only at h
  split at h
  next => contradiction
  next tag htag =>
    have hopens := opens_of_readAttributes hcs htag
    have hle : start ≤ tag.stop := Nat.le_of_lt (Nat.lt_of_succ_lt hopens.start_lt)
    split at h
    next hname =>
      obtain ⟨kind, hkind⟩ := lowered_elementName hname
      exact rawElement_bounded hkind h hs hstart hopens
    next =>
      split at h
      · cases h
        exact hs.mono hle
      · cases h
        exact hs.push hle hopens.standsAt.isBoundary _

theorem openTag_error {cs : List Char} {e : ScanError} (h : openTag s start cs = .error e)
    (hstart : TagAt source start) (hcs : StandsAt source (start + 1) cs) :
    TagAt source e.span.start := by
  unfold openTag at h
  simp only at h
  split at h
  next =>
    cases h
    exact hstart
  next tag htag =>
    split at h
    · exact rawElement_error h hstart (opens_of_readAttributes hcs htag).standsAt
    · split at h <;> cases h

theorem closingTag_bounded {cs : List Char} {t : Step} (h : closingTag source s start cs = .ok t)
    (hs : s.Bounded source start) (hstart : IsBoundary source start)
    (hlt : start < t.offset) : t.state.Bounded source t.offset := by
  unfold closingTag at h
  split at h
  next => contradiction
  next =>
    split at h <;> cases h
    · exact hs.mono (Nat.le_of_lt hlt)
    · exact (hs.close hstart _).mono (Nat.le_of_lt hlt)

/-- What a step gives: all that has been found stands in front of the place where reading goes on,
which is further behind. -/
theorem step_bounded {c : Char} {cs : List Char} {t : Step}
    (h : step source s offset c cs = .ok t) (hs : s.Bounded source offset)
    (hcs : StandsAt source offset (c :: cs)) :
    offset < t.offset ∧ t.state.Bounded source t.offset := by
  have hlt : offset < t.offset :=
    hcs.lt (step_follows h hcs).standsAt (Nat.lt_succ_of_le (step_length h))
  have hoffset := hcs.isBoundary
  refine ⟨hlt, ?_⟩
  unfold step at h
  split at h
  · cases h
    exact hs.mono (Nat.le_of_lt hlt)
  split at h
  next hc =>
    subst hc
    split at h
    next body =>
      split at h
      next => contradiction
      next =>
        cases h
        exact hs.mono (Nat.le_of_lt hlt)
    next => exact closingTag_bounded h hs hoffset hlt
    next =>
      split at h
      · exact openTag_bounded h hs hoffset (hcs.drop ['<'])
      · cases h
        exact hs.mono (Nat.le_of_lt hlt)
    next =>
      cases h
      exact hs.mono (Nat.le_of_lt hlt)
  next =>
    cases h
    exact hs.mono (Nat.le_of_lt hlt)

/-- What fails is a tag of the document. -/
theorem step_error {c : Char} {cs : List Char} {e : ScanError}
    (h : step source s offset c cs = .error e) (hcs : StandsAt source offset (c :: cs)) :
    TagAt source e.span.start := by
  unfold step at h
  split at h
  · cases h
  split at h
  next hc =>
    subst hc
    split at h
    next body =>
      split at h
      next =>
        cases h
        exact ⟨_, hcs⟩
      next => cases h
    next =>
      unfold closingTag at h
      split at h
      next =>
        cases h
        exact ⟨_, hcs⟩
      next => split at h <;> cases h
    next =>
      split at h
      · exact openTag_error h ⟨_, hcs⟩ (hcs.drop ['<'])
      · cases h
    next => cases h
  next => cases h

/-- What a run has found: as at the end of the last step, but for a part that the end of the
document closes. -/
structure Found (source : List Char) (t : ScanState) : Prop where
  sections : ∀ slot found, t.component.get slot = some found → found.Placed source
  apart : ∀ slot slot' found found', slot ≠ slot' → t.component.get slot = some found →
    t.component.get slot' = some found' →
      found.span.stop ≤ found'.span.start ∨ found'.span.stop ≤ found.span.start
  parts : ∃ ranges, PartsIn source t.html ranges

theorem run_found {t : ScanState} {cs : List Char} (h : run source s offset cs = .ok t)
    (hs : s.Bounded source offset) (hcs : StandsAt source offset cs) : Found source t := by
  fun_induction run source s offset cs with
  | case1 s offset =>
    cases h
    refine ⟨fun slot found hfound => (hs.sections slot found hfound).1, hs.apart, ?_⟩
    cases hlast : s.stack.getLast? with
    | none =>
      obtain ⟨ranges, hparts, -⟩ := hs.parts
      exact ⟨ranges, by simpa using hparts⟩
    | some e =>
      obtain ⟨ranges, hparts, -⟩ := hs.add_part hcs.isBoundary (List.mem_of_getLast? hlast)
      exact ⟨ranges, hparts⟩
  | case2 => contradiction
  | case3 s offset c cs u hu ih =>
    exact ih h (step_bounded hu hs hcs).2 (step_follows hu hcs).standsAt

theorem run_error {e : ScanError} {cs : List Char} (h : run source s offset cs = .error e)
    (hcs : StandsAt source offset cs) : TagAt source e.span.start := by
  fun_induction run source s offset cs with
  | case1 => cases h
  | case2 s offset c cs e' he =>
    cases h
    exact step_error he hcs
  | case3 s offset c cs u hu ih => exact ih h (step_follows hu hcs).standsAt

theorem bounded_empty (source : List Char) :
    ScanState.Bounded source 0 ⟨.empty, [], []⟩ := by
  refine ⟨by simp, ?_, ?_, [], ⟨.nil, .nil⟩, by simp⟩
  · intro slot found hfound
    rw [Component.get_empty] at hfound
    cases hfound
  · intro slot slot' found found' _ hfound
    rw [Component.get_empty] at hfound
    cases hfound

end Scan

end ComponentBuild
