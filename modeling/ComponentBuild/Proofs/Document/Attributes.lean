import Mathlib.Data.List.Forall2
import ComponentBuild.Proofs.Document.Found

namespace ComponentBuild

open Text (StandsAt)

/-- An attribute as it is found in a document: its name, its value without quotes, and a span that
holds all of its text and nothing else. -/
structure PrintedAttribute.FoundAs (source : List Char) (a : PrintedAttribute)
    (found : Attribute) : Prop where
  name : found.name = String.ofList a.name
  value : found.value = a.value.map PrintedValue.value
  text : Text.slice? source found.span.start found.span.stop = some a.text

theorem foundAs_printedAt {source rest : List Char} {offset : Nat} {as : List PrintedAttribute}
    (h : StandsAt source offset (printAttributes as ++ rest)) :
    List.Forall₂ (PrintedAttribute.FoundAs source) as (printedAt offset as) := by
  induction as generalizing offset with
  | nil => exact .nil
  | cons a as ih =>
    rw [printAttributes, List.append_assoc] at h
    have hrest := ih (h.drop a.print)
    rw [PrintedAttribute.print, List.append_assoc] at h
    exact .cons ⟨rfl, rfl, (h.drop a.blanks).slice? a.text⟩ hrest

/-- A script or a style whose opening tag has attributes of any form. -/
structure PrintedSection where
  kind : SectionKind
  name : ElementName
  named : name.lowered = kind.elementName
  attributes : List PrintedAttribute
  /-- What stands between the last attribute and the end of the opening tag. -/
  blanks : List Char
  blanks_blank : ∀ c ∈ blanks, Tag.isBlank c = true
  content : List Char

namespace PrintedSection

def opening (e : PrintedSection) : List Char :=
  '<' :: (e.name.chars ++ (printAttributes e.attributes ++ (e.blanks ++ ['>'])))

def print (e : PrintedSection) : List Char :=
  e.opening ++ (e.content ++ e.name.closingTag)

/-- The attributes of an element that starts at an offset. -/
def attributesFrom (e : PrintedSection) (offset : Nat) : List Attribute :=
  printedAt (offset + 1 + Text.byteLength e.name.chars) e.attributes

/-- The section of an element that starts at an offset. -/
def toSection (e : PrintedSection) (offset : Nat) : Section :=
  let start := offset + Text.byteLength e.opening
  ⟨e.kind, ⟨offset, offset + Text.byteLength e.print⟩,
    ⟨start, start + Text.byteLength e.content⟩, String.ofList e.content, e.attributesFrom offset⟩

/-- No closing tag begins in the content, as far as scanning can tell. -/
def IsWhole (e : PrintedSection) : Prop :=
  ¬ Scan.EndsRaw e.kind.elementName.toList e.content

variable {source rest : List Char} {s : ScanState} {offset : Nat}

/-- The text of an element, cut behind the name of its opening tag. -/
theorem print_append (e : PrintedSection) (rest : List Char) :
    e.print ++ rest = '<' :: (e.name.chars ++ (printAttributes e.attributes ++
      (e.blanks ++ (tagEnd false ++ (e.content ++ (e.name.closingTag ++ rest)))))) := by
  simp only [print, opening, tagEnd, List.cons_append, List.append_assoc, Bool.false_eq_true,
    if_false]

theorem foundAs_attributes (e : PrintedSection) (h : StandsAt source offset (e.print ++ rest)) :
    List.Forall₂ (PrintedAttribute.FoundAs source) e.attributes
      (e.toSection offset).attributes := by
  rw [e.print_append] at h
  have hname := h.drop ['<']
  exact foundAs_printedAt (hname.drop e.name.chars)

theorem content_slice? (e : PrintedSection) (h : StandsAt source offset (e.print ++ rest)) :
    Text.slice? source (e.toSection offset).contentSpan.start
      (e.toSection offset).contentSpan.stop = some e.content := by
  rw [print, List.append_assoc, List.append_assoc] at h
  exact (h.drop e.opening).slice? e.content

theorem openTag_eq (e : PrintedSection) (rest : List Char) :
    Scan.openTag s offset (e.name.chars ++ (printAttributes e.attributes ++
        (e.blanks ++ (tagEnd false ++ rest)))) =
      Scan.rawElement s offset e.name.lowered
        ⟨e.attributesFrom offset, false, offset + Text.byteLength e.opening, rest⟩ := by
  have hstop : offset + 1 + Text.byteLength e.name.chars +
      Text.byteLength (printAttributes e.attributes ++ (e.blanks ++ tagEnd false)) =
      offset + Text.byteLength e.opening := by
    rw [opening, Text.byteLength_cons, Text.byteLength_append e.name.chars]
    simp only [Nat.add_assoc]
    rfl
  rw [Scan.openTag_of_readAttributes e.name
    (Scan.head_printed e.attributes false rest e.blanks_blank)
    (Scan.readAttributes_print e.attributes false rest e.blanks_blank), hstop,
    if_pos (e.kind.isSection e.named)]
  rfl

theorem rawElement_eq (e : PrintedSection) (whole : e.IsWhole) (rest : List Char) :
    Scan.rawElement s offset e.name.lowered
        ⟨e.attributesFrom offset, false, offset + Text.byteLength e.opening,
          e.content ++ (e.name.closingTag ++ rest)⟩ =
      (Scan.recordAtTop s (e.toSection offset)).map
        (Scan.Step.mk · (offset + Text.byteLength e.print) rest) := by
  rw [Scan.rawElement_closed e.named rfl rfl whole, toSection, print,
    Text.byteLength_append e.opening, ← Nat.add_assoc]

/-- Reading goes on behind a whole element, with its section recorded. -/
theorem run_print (e : PrintedSection) (whole : e.IsWhole) (rest : List Char) :
    Scan.run source s offset (e.print ++ rest) =
      (Scan.recordAtTop s (e.toSection offset)).bind fun u =>
        Scan.run source u (offset + Text.byteLength e.print) rest := by
  rw [e.print_append, Scan.run_name, e.openTag_eq, e.rawElement_eq whole]
  cases Scan.recordAtTop s (e.toSection offset) <;> rfl

end PrintedSection

theorem scan_of_run {text : List Char} {found : Section} {stop : Nat}
    (h : Scan.run text ⟨.empty, [], []⟩ 0 text =
      (Scan.recordAtTop ⟨.empty, [], []⟩ found).bind fun t => Scan.run text t stop []) :
    scan (String.ofList text) = .ok ⟨.ofSections [found], []⟩ := by
  have hplace := @Component.placeAll_empty [found] (List.nodup_singleton _)
  rw [Scan.recordAtTop_extend rfl, ScanState.extend, hplace] at h
  rw [scan, String.toList_ofList, h]
  simp only [Except.map, Except.bind, List.append_nil, Scan.run_end]

theorem scan_of_whole {e : PrintedSection} (whole : e.IsWhole) :
    scan (String.ofList e.print) = .ok ⟨.ofSections [e.toSection 0], []⟩ := by
  have hrun := @PrintedSection.run_print e.print ⟨.empty, [], []⟩ 0 e whole []
  rw [List.append_nil] at hrun
  exact scan_of_run hrun

theorem scan_of_whole_behind {e : PrintedSection} (whole : e.IsWhole) {ns : List Node}
    {back : List Char} {s : Section} (hs : s = e.toSection (Text.byteLength (renderNodes ns)))
    (hslot : s.slot ∉ (sectionsAt 0 ns).map Section.slot) {result : ScanResult}
    (h : scan (String.ofList (renderNodes ns ++ (e.print ++ back))) = .ok result) :
    result.component.get s.slot = some s := by
  obtain ⟨u, v, hstack, hfree, hstands, hrun, hresult⟩ := exists_run_of_scan h hslot
  rw [e.run_print whole, ← hs, Scan.recordAtTop_top hstack, Component.place_of_free hfree] at hrun
  rw [hresult]
  refine Scan.run_keeps hrun (hstands.drop e.print) ?_
  rw [Component.get_set, if_pos rfl]

theorem scan_of_cut_behind {e : PrintedSection}
    (hcut : Scan.EndsRaw e.kind.elementName.toList e.content) {ns : List Node} {back : List Char}
    {s : Section} (hs : s = e.toSection (Text.byteLength (renderNodes ns)))
    (hslot : s.slot ∉ (sectionsAt 0 ns).map Section.slot) {result : ScanResult}
    (h : scan (String.ofList (renderNodes ns ++ (e.print ++ back))) = .ok result) :
    ∃ found, result.component.get s.slot = some found ∧ found.attributes = s.attributes ∧
      found.content ≠ s.content := by
  obtain ⟨u, v, hstack, hfree, hstands, hrun, hresult⟩ := exists_run_of_scan h hslot
  subst hs
  rw [hresult]
  rw [e.print_append] at hstands hrun
  exact Scan.run_cut_found e.named rfl rfl rfl rfl hcut hstack hfree (e.openTag_eq _) hstands hrun

/-- Scanning undoes the printing of attributes. Of a whole script or style it finds the attributes
in their order, each with its name, its value and the place of its text, and the content between the
tags; alone in a document such an element is always found, and with other things around it wherever
its slot is free. Where a closing tag seems to begin in the content, the attributes are found all
the same, but the content never is. -/
theorem scan_printed_section (e : PrintedSection) :
    (e.IsWhole → scan (String.ofList e.print) = .ok ⟨.ofSections [e.toSection 0], []⟩) ∧
    (∀ (front back : List Char),
      let source := front ++ (e.print ++ back)
      let s := e.toSection (Text.byteLength front)
      List.Forall₂ (PrintedAttribute.FoundAs source) e.attributes s.attributes ∧
        Text.slice? source s.contentSpan.start s.contentSpan.stop = some e.content) ∧
    ∀ (ns : List Node) (back : List Char) (result : ScanResult),
      let s := e.toSection (Text.byteLength (renderNodes ns))
      s.slot ∉ (sectionsAt 0 ns).map Section.slot →
      scan (String.ofList (renderNodes ns ++ (e.print ++ back))) = .ok result →
        (e.IsWhole → result.component.get s.slot = some s) ∧
        (¬ e.IsWhole →
          ∃ found, result.component.get s.slot = some found ∧ found.attributes = s.attributes ∧
            found.content ≠ s.content) := by
  refine ⟨scan_of_whole, ?_, ?_⟩
  · intro front back
    have hstands : StandsAt (front ++ (e.print ++ back)) (Text.byteLength front)
        (e.print ++ back) := ⟨front, rfl, rfl⟩
    exact ⟨e.foundAs_attributes hstands, e.content_slice? hstands⟩
  · intro ns back result s hslot h
    refine ⟨fun whole => scan_of_whole_behind whole rfl hslot h, fun hcut => ?_⟩
    exact scan_of_cut_behind (not_not.1 hcut) rfl hslot h

/-- An attribute with a name of one letter behind one blank. -/
def PrintedAttribute.ofLetter (blank letter : Char) (value : Option PrintedValue)
    (hblank : Tag.isBlank blank = true) (hletter : Tag.isNameChar letter = true) :
    PrintedAttribute where
  blanks := [blank]
  name := [letter]
  value := value
  blanks_blank := List.forall_mem_singleton.2 hblank
  blanks_ne_nil := List.cons_ne_nil _ _
  name_char := List.forall_mem_singleton.2 hletter
  name_ne_nil := List.cons_ne_nil _ _

/-- A script with attributes of every form, of which two share a name. -/
def PrintedSection.mixed : PrintedSection where
  kind := SectionTag.script.kind
  name := SectionTag.script.tag.name
  named := SectionTag.script.named
  attributes :=
    [.ofLetter ' ' 'a'
        (some (.bare ['b'] (List.forall_mem_singleton.2 rfl) (List.cons_ne_nil _ _))) rfl rfl,
      .ofLetter '\t' 'c' (some (.enclosed (.singleQuoted ['>', '"'] (by decide)))) rfl rfl,
      .ofLetter ' ' 'c' none rfl rfl,
      .ofLetter ' ' 'd'
        (some (.enclosed (.braced ['x'] (List.forall_mem_singleton.2 rfl)))) rfl rfl,
      .ofLetter '\r' 'e' (some (.enclosed (.doubleQuoted ['='] (by decide)))) rfl rfl]
  blanks := ['\n']
  blanks_blank := List.forall_mem_singleton.2 rfl
  content := ['y']

/-- A script with the closing tag of another name in it. -/
def PrintedSection.colon : PrintedSection where
  kind := SectionTag.script.kind
  name := SectionTag.script.tag.name
  named := SectionTag.script.named
  attributes :=
    [.ofLetter ' ' 'a'
      (some (.bare ['b'] (List.forall_mem_singleton.2 rfl) (List.cons_ne_nil _ _))) rfl rfl]
  blanks := SectionTag.script.tag.blanks
  blanks_blank := SectionTag.script.tag.blanks_blank
  content := "a</script:x>b".toList

theorem PrintedSection.mixed_isWhole : mixed.IsWhole := by
  rintro ⟨front, written, back, htext, -⟩
  have hangle : '<' ∈ mixed.content := by
    rw [htext]
    exact List.mem_append_right _ List.mem_cons_self
  exact absurd hangle (by decide)

theorem PrintedSection.colon_not_isWhole : ¬ colon.IsWhole :=
  not_not.2 ⟨['a'], "script".toList, ":x>b".toList, by decide, by decide, by simp; decide⟩

/-- The first script alone and in front of text, and the second, whose content is cut. -/
theorem scan_printed_section_of_mixed :
    scan "<script a=b\tc='>\"' c d=\x7bx\x7d\re=\"=\"\n>y</script>" = .ok ⟨⟨none, some
        ⟨.script, ⟨0, 44⟩, ⟨34, 35⟩, "y", [⟨"a", some "b", ⟨8, 11⟩⟩, ⟨"c", some ">\"", ⟨12, 18⟩⟩,
          ⟨"c", none, ⟨19, 20⟩⟩, ⟨"d", some "\x7bx\x7d", ⟨21, 26⟩⟩,
          ⟨"e", some "=", ⟨27, 32⟩⟩]⟩, none⟩, []⟩ ∧
      (∃ result, scan "<script a=b\tc='>\"' c d=\x7bx\x7d\re=\"=\"\n>y</script>z" = .ok result ∧
        result.component.instanceScript = some (PrintedSection.mixed.toSection 0)) ∧
      ∃ result found, scan "<script a=b>a</script:x>b</script>" = .ok result ∧
        result.component.instanceScript = some found ∧
        found.attributes = [⟨"a", some "b", ⟨8, 11⟩⟩] ∧ found.content ≠ "a</script:x>b" := by
  refine ⟨?_, ?_, ?_⟩
  · have htext : String.ofList PrintedSection.mixed.print =
        "<script a=b\tc='>\"' c d=\x7bx\x7d\re=\"=\"\n>y</script>" := by decide +kernel
    have hscan := (scan_printed_section .mixed).1 PrintedSection.mixed_isWhole
    rw [htext] at hscan
    rw [hscan]
    decide +kernel
  · have hscan : scan "<script a=b\tc='>\"' c d=\x7bx\x7d\re=\"=\"\n>y</script>z" =
        .ok ⟨⟨none, some (PrintedSection.mixed.toSection 0), none⟩, []⟩ := by decide +kernel
    have hfound := (scan_printed_section .mixed).2.2 [] ['z'] _ (List.not_mem_nil) hscan
    exact ⟨_, hscan, hfound.1 PrintedSection.mixed_isWhole⟩
  · have hscan : scan "<script a=b>a</script:x>b</script>" =
        .ok ⟨⟨none, some ⟨.script, ⟨0, 24⟩, ⟨12, 13⟩, "a", [⟨"a", some "b", ⟨8, 11⟩⟩]⟩, none⟩,
          []⟩ := by
      decide +kernel
    have hfound := (scan_printed_section .colon).2.2 [] [] _ (List.not_mem_nil) hscan
    obtain ⟨found, hget, hattributes, hcontent⟩ := hfound.2 PrintedSection.colon_not_isWhole
    exact ⟨_, found, hscan, hget, hattributes, hcontent⟩

/-- A colon does not keep the name of a closing tag from ending, and content is cut there. -/
theorem scan_printed_section_cut :
    String.ofList PrintedSection.colon.print = "<script a=b>a</script:x>b</script>" ∧
      scan "<script a=b>a</script:x>b</script>" =
        .ok ⟨⟨none, some ⟨.script, ⟨0, 24⟩, ⟨12, 13⟩, "a", [⟨"a", some "b", ⟨8, 11⟩⟩]⟩, none⟩,
          []⟩ ∧
      PrintedSection.colon.toSection 0 =
        ⟨.script, ⟨0, 34⟩, ⟨12, 25⟩, "a</script:x>b", [⟨"a", some "b", ⟨8, 11⟩⟩]⟩ := by
  refine ⟨?_, ?_, ?_⟩
  · decide +kernel
  · decide +kernel
  · decide +kernel

end ComponentBuild
