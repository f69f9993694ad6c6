import ComponentBuild.Proofs.Document.Skip
import ComponentBuild.Proofs.Document.Slot
import ComponentBuild.Proofs.Document.Tag

namespace ComponentBuild

open Text (StandsAt)

def SectionKind.elementName : SectionKind → String
  | script => "script"
  | style => "style"

theorem SectionKind.ofElementName (kind : SectionKind) :
    (if kind.elementName = "script" then script else style) = kind := by
  cases kind <;> rfl

theorem SectionKind.isSection (kind : SectionKind) {n : ElementName}
    (h : n.lowered = kind.elementName) : n.IsSection := by
  rw [ElementName.IsSection, h]
  cases kind
  · exact .inl rfl
  · exact .inr rfl

/-- The opening tag of a script or a style. -/
structure SectionTag where
  tag : OpeningTag
  kind : SectionKind
  named : tag.name.lowered = kind.elementName

namespace SectionTag

def render (t : SectionTag) (content : List Char) : List Char :=
  t.tag.render false ++ (content ++ t.tag.name.closingTag)

/-- The section of an element that starts at an offset. -/
def toSection (t : SectionTag) (content : List Char) (offset : Nat) : Section :=
  let start := offset + Text.byteLength (t.tag.render false)
  ⟨t.kind, ⟨offset, offset + Text.byteLength (t.render content)⟩,
    ⟨start, start + Text.byteLength content⟩, String.ofList content, t.tag.attributesFrom offset⟩

/-- The section of an element that its opening tag closes. -/
def toEmptySection (t : SectionTag) (offset : Nat) : Section :=
  let stop := offset + Text.byteLength (t.tag.render true)
  ⟨t.kind, ⟨offset, stop⟩, ⟨stop, stop⟩, "", t.tag.attributesFrom offset⟩

theorem isSection (t : SectionTag) : t.tag.name.IsSection := t.kind.isSection t.named

end SectionTag

theorem ElementName.not_isSection_of_void (n : ElementName) (h : n.lowered ∈ Scan.voidElements) :
    ¬ n.IsSection := by
  rintro (hn | hn)
  · rw [hn] at h
    exact absurd h (by decide)
  · rw [hn] at h
    exact absurd h (by decide)

/-- A node of a document. Each holds what makes its text that of one node: the content of a script
or style, for one, is text in which no closing tag of its name begins. -/
inductive Node where
  | text (chars : List Char) (plain : ∀ c ∈ chars, c ≠ '<' ∧ c ≠ '\x7b')
  | expression (chars : List Char) (balanced : Balanced chars)
  | comment (chars : List Char) (plain : ¬ "-->".toList <:+: chars)
  | void (tag : OpeningTag) (name : tag.name.lowered ∈ Scan.voidElements)
  | selfClosing (tag : OpeningTag) (name : ¬ tag.name.IsSection)
  | emptyRaw (tag : SectionTag)
  | raw (tag : SectionTag) (content : List Char)
      (whole : ¬ Scan.EndsRaw tag.kind.elementName.toList content)
  | element (tag : OpeningTag) (name : ¬ tag.name.IsSection)
      (not_void : tag.name.lowered ∉ Scan.voidElements) (children : List Node)

mutual

def Node.render : Node → List Char
  | .text chars _ => chars
  | .expression chars _ => '\x7b' :: chars ++ ['\x7d']
  | .comment chars _ => "<!--".toList ++ (chars ++ "-->".toList)
  | .void tag _ => tag.render false
  | .selfClosing tag _ => tag.render true
  | .emptyRaw tag => tag.tag.render true
  | .raw tag content _ => tag.render content
  | .element tag _ _ children => tag.render false ++ (renderNodes children ++ tag.name.closingTag)

def renderNodes : List Node → List Char
  | [] => []
  | n :: ns => n.render ++ renderNodes ns

end

/-- The section of a node at the top level. -/
def Node.section? (offset : Nat) : Node → Option Section
  | .emptyRaw tag => some (tag.toEmptySection offset)
  | .raw tag content _ => some (tag.toSection content offset)
  | _ => none

/-- The sections at the top level of a document. -/
def sectionsAt (offset : Nat) : List Node → List Section
  | [] => []
  | n :: ns => (n.section? offset).toList ++ sectionsAt (offset + Text.byteLength n.render) ns

def HtmlRegion.ofName? (name : String) : Option HtmlRegion :=
  if name = "head" then some .head
  else if name = "body" then some .body
  else none

/-- The part of a page that a node at the top level is. -/
def Node.htmlPart? : Node → Option HtmlPart
  | .element tag _ _ children =>
    (HtmlRegion.ofName? tag.name.lowered).map fun region =>
      ⟨region, String.ofList (Text.trim (renderNodes children))⟩
  | _ => none

/-- The parts of a page at the top level of a document. -/
def htmlParts (ns : List Node) : List HtmlPart := ns.filterMap Node.htmlPart?

namespace Scan

variable {source : List Char} {s : ScanState} {offset : Nat}

theorem run_tag (t : OpeningTag) (selfClosing : Bool) (rest : List Char) :
    run source s offset (t.render selfClosing ++ rest) =
      (openTag s offset ((t.render selfClosing).tail ++ rest)).bind fun u =>
        run source u.state u.offset u.rest := by
  rw [← @step_tag source]
  exact run_cons source s offset '<' _

theorem run_name (n : ElementName) (cs : List Char) :
    run source s offset ('<' :: (n.chars ++ cs)) =
      (openTag s offset (n.chars ++ cs)).bind fun u => run source u.state u.offset u.rest := by
  rw [← @step_name source]
  exact run_cons source s offset '<' _

theorem run_void {t : OpeningTag} (selfClosing : Bool) (hname : ¬ t.name.IsSection)
    (h : selfClosing = true ∨ t.name.lowered ∈ voidElements) (rest : List Char) :
    run source s offset (t.render selfClosing ++ rest) =
      run source s (offset + Text.byteLength (t.render selfClosing)) rest := by
  rw [run_tag, openTag_render, if_neg hname, if_pos h]
  rfl

theorem run_open {t : OpeningTag} (hname : ¬ t.name.IsSection)
    (hvoid : t.name.lowered ∉ voidElements) (rest : List Char) :
    run source s offset (t.render false ++ rest) =
      run source
        { s with stack := ⟨t.name.lowered, offset + Text.byteLength (t.render false)⟩ :: s.stack }
        (offset + Text.byteLength (t.render false)) rest := by
  rw [run_tag, openTag_render, if_neg hname, if_neg (by simp [hvoid])]
  rfl

theorem run_close (n : ElementName) (rest : List Char) :
    run source s offset (n.closingTag ++ rest) =
      run source (ScanState.close s source n.lowered offset)
        (offset + Text.byteLength n.closingTag) rest := by
  have h := run_cons source s offset '<' (n.closingTag.tail ++ rest)
  rw [step_closingTag] at h
  exact h

theorem close_nested (e : OpenElement) (hs : s.stack ≠ []) (stop : Nat) :
    ScanState.close { s with stack := e :: s.stack } source e.name stop = s := by
  obtain ⟨component, html, stack⟩ := s
  cases stack with
  | nil => contradiction
  | cons outer stack => simp [ScanState.close]

theorem close_top (e : OpenElement) (hs : s.stack = []) (stop : Nat) :
    ScanState.close { s with stack := e :: s.stack } source e.name stop =
      { s with html := s.html ++ (htmlPart? source e stop).toList } := by
  obtain ⟨component, html, stack⟩ := s
  cases hs
  simp [ScanState.close]

theorem angle_notMem_elementName (kind : SectionKind) : '<' ∉ kind.elementName.toList := by
  cases kind <;> decide

/-- A script or style is recorded if it stands at the top level. -/
def recordAtTop (s : ScanState) (found : Section) : Except ScanError ScanState :=
  if s.stack.isEmpty then ScanState.recordSection s found else .ok s

section

variable {n : ElementName} {kind : SectionKind} {tag : TagEnd} {content closing rest : List Char}

theorem rawElement_of_split (hname : n.lowered = kind.elementName)
    (hopen : tag.selfClosing = false)
    (hsplit : splitAtClosing? kind.elementName.toList tag.rest = some (content, closing))
    (hclosing : closing.dropWhile (· != '>') = '>' :: rest) :
    rawElement s offset n.lowered tag =
      let contentStop := tag.stop + Text.byteLength content
      let stop := contentStop + Text.byteLength (closing.takeWhile (· != '>')) + 1
      (recordAtTop s ⟨kind, ⟨offset, stop⟩, ⟨tag.stop, contentStop⟩, String.ofList content,
        tag.attributes⟩).map (Step.mk · stop rest) := by
  unfold rawElement recordAtTop
  simp only [hname, hopen, hsplit, hclosing, kind.ofElementName, Bool.false_eq_true, if_false]
  split <;> rfl

theorem closingTag_front (n : ElementName) (rest : List Char) :
    (n.closingTag ++ rest).takeWhile (· != '>') = '<' :: '/' :: n.chars ∧
      (n.closingTag ++ rest).dropWhile (· != '>') = '>' :: rest := by
  have hplain : ∀ c ∈ '<' :: '/' :: n.chars, (c != '>') = true := by
    intro c hc
    rcases List.mem_cons.1 hc with rfl | hc
    · decide
    rcases List.mem_cons.1 hc with rfl | hc
    · decide
    · have hname := n.chars_nameChar c hc
      rw [bne_iff_ne]
      rintro rfl
      exact absurd hname (by decide)
  rw [n.closingTag_append]
  exact takeWhile_front ('>' :: rest) hplain (by simp)

theorem splitAtClosing?_closingTag (hname : n.lowered = kind.elementName)
    (whole : ¬ EndsRaw kind.elementName.toList content) (rest : List Char) :
    splitAtClosing? kind.elementName.toList (content ++ (n.closingTag ++ rest)) =
      some (content, n.closingTag ++ rest) := by
  have hstarts : startsWithName kind.elementName.toList (n.chars ++ '>' :: rest) = true := by
    refine startsWithName_iff.2 ⟨n.chars, '>' :: rest, rfl, ?_, ?_⟩
    · rw [← hname, ElementName.lowered, String.toList_ofList]
    · intro c hc
      cases hc
      decide
  rw [n.closingTag_append]
  exact splitAtClosing?_front (angle_notMem_elementName kind) whole hstarts

/-- The whole of a script or style is read as one, whatever its opening tag is. -/
theorem rawElement_closed (hname : n.lowered = kind.elementName)
    (hopen : tag.selfClosing = false) (hrest : tag.rest = content ++ (n.closingTag ++ rest))
    (whole : ¬ EndsRaw kind.elementName.toList content) :
    rawElement s offset n.lowered tag =
      let stop := tag.stop + Text.byteLength (content ++ n.closingTag)
      (recordAtTop s ⟨kind, ⟨offset, stop⟩, ⟨tag.stop, tag.stop + Text.byteLength content⟩,
        String.ofList content, tag.attributes⟩).map (Step.mk · stop rest) := by
  obtain ⟨htake, hdrop⟩ := closingTag_front n rest
  have hclosing : Text.byteLength n.closingTag =
      Text.byteLength ('<' :: '/' :: n.chars) + 1 := by
    simp only [ElementName.closingTag, Text.byteLength_cons, Text.byteLength_append,
      Text.byteLength_nil, Nat.add_assoc]
    rfl
  have hsplit := splitAtClosing?_closingTag hname whole rest
  rw [← hrest] at hsplit
  rw [rawElement_of_split hname hopen hsplit hdrop, htake, Text.byteLength_append, hclosing]
  simp only [Nat.add_assoc]

end

/-- The whole of a script or style is read as one. -/
theorem rawElement_render (t : SectionTag) {content : List Char}
    (whole : ¬ EndsRaw t.kind.elementName.toList content) (rest : List Char) :
    rawElement s offset t.tag.name.lowered ⟨t.tag.attributesFrom offset, false,
        offset + Text.byteLength (t.tag.render false),
        content ++ (t.tag.name.closingTag ++ rest)⟩ =
      (recordAtTop s (t.toSection content offset)).map
        (Step.mk · (offset + Text.byteLength (t.render content)) rest) := by
  rw [rawElement_closed t.named rfl rfl whole, SectionTag.toSection, SectionTag.render,
    Text.byteLength_append (t.tag.render false), ← Nat.add_assoc]

theorem rawElement_empty (t : SectionTag) (rest : List Char) :
    rawElement s offset t.tag.name.lowered ⟨t.tag.attributesFrom offset, true,
        offset + Text.byteLength (t.tag.render true), rest⟩ =
      (recordAtTop s (t.toEmptySection offset)).map
        (Step.mk · (offset + Text.byteLength (t.tag.render true)) rest) := by
  unfold rawElement recordAtTop
  simp only [t.named, t.kind.ofElementName, if_true]
  split <;> rfl

theorem run_raw (t : SectionTag) {content : List Char}
    (whole : ¬ EndsRaw t.kind.elementName.toList content) (rest : List Char) :
    run source s offset (t.render content ++ rest) =
      (recordAtTop s (t.toSection content offset)).bind fun u =>
        run source u (offset + Text.byteLength (t.render content)) rest := by
  rw [SectionTag.render, List.append_assoc, List.append_assoc, run_tag, openTag_render,
    if_pos t.isSection, rawElement_render t whole]
  cases recordAtTop s (t.toSection content offset) <;> rfl

theorem run_emptyRaw (t : SectionTag) (rest : List Char) :
    run source s offset (t.tag.render true ++ rest) =
      (recordAtTop s (t.toEmptySection offset)).bind fun u =>
        run source u (offset + Text.byteLength (t.tag.render true)) rest := by
  rw [run_tag, openTag_render, if_pos t.isSection, rawElement_empty]
  cases recordAtTop s (t.toEmptySection offset) <;> rfl

theorem recordAtTop_nested (hs : s.stack ≠ []) (found : Section) : recordAtTop s found = .ok s := by
  rw [recordAtTop, if_neg (by simpa using hs)]

theorem recordAtTop_top (hs : s.stack = []) (found : Section) :
    recordAtTop s found = (s.component.place found).map fun c => { s with component := c } := by
  rw [recordAtTop, if_pos (by simp [hs]), recordSection_eq]

-- The children of an element are read with the element open, so the stack is never empty below the
-- top level, and there is nothing to say about what has been found.
mutual

/-- Inside an element a node changes nothing but the place of reading. -/
theorem run_nested (n : Node) {s : ScanState} (hs : s.stack ≠ []) (offset : Nat)
    (rest : List Char) :
    run source s offset (n.render ++ rest) =
      run source s (offset + Text.byteLength n.render) rest := by
  match n with
  | .text chars plain => exact run_text plain rest
  | .expression chars balanced => exact run_expression balanced.code rest
  | .comment chars plain => exact run_comment plain rest
  | .void tag name => exact run_void false (tag.name.not_isSection_of_void name) (.inr name) rest
  | .selfClosing tag name => exact run_void true name (.inl rfl) rest
  | .emptyRaw tag =>
    rw [Node.render, run_emptyRaw, recordAtTop_nested hs]
    rfl
  | .raw tag content whole =>
    rw [Node.render, run_raw tag whole, recordAtTop_nested hs]
    rfl
  | .element tag name not_void children =>
    have hopen := run_nodes_nested children
      (s := { s with
        stack := ⟨tag.name.lowered, offset + Text.byteLength (tag.render false)⟩ :: s.stack })
      (List.cons_ne_nil _ _) (offset + Text.byteLength (tag.render false))
      (tag.name.closingTag ++ rest)
    rw [Node.render, List.append_assoc, List.append_assoc, run_open name not_void, hopen, run_close,
      close_nested ⟨tag.name.lowered, _⟩ hs]
    simp only [Text.byteLength_append, Nat.add_assoc]

theorem run_nodes_nested (ns : List Node) {s : ScanState} (hs : s.stack ≠ []) (offset : Nat)
    (rest : List Char) :
    run source s offset (renderNodes ns ++ rest) =
      run source s (offset + Text.byteLength (renderNodes ns)) rest := by
  match ns with
  | [] => rfl
  | n :: ns =>
    rw [renderNodes, List.append_assoc, run_nested n hs, run_nodes_nested ns hs,
      Text.byteLength_append, Nat.add_assoc]

end

theorem recordAtTop_extend (hs : s.stack = []) (found : Section) :
    recordAtTop s found = s.extend [found] [] := by
  rw [recordAtTop_top hs, ScanState.extend]
  simp only [Component.placeAll, List.foldlM_cons, List.foldlM_nil, List.append_nil]
  cases s.component.place found <;> rfl

theorem htmlPart?_eq (name : String) {children rest : List Char}
    (h : StandsAt source offset (children ++ rest)) :
    htmlPart? source ⟨name, offset⟩ (offset + Text.byteLength children) =
      (HtmlRegion.ofName? name).map fun region =>
        ⟨region, String.ofList (Text.trim children)⟩ := by
  simp only [htmlPart?, h.slice?, Option.getD_some, HtmlRegion.ofName?]
  split
  · rfl
  · split <;> rfl

theorem run_quiet {n : Node} {rest : List Char} (hsection : n.section? offset = none)
    (hpart : n.htmlPart? = none)
    (h : run source s offset (n.render ++ rest) =
      run source s (offset + Text.byteLength n.render) rest) :
    run source s offset (n.render ++ rest) =
      (s.extend (n.section? offset).toList n.htmlPart?.toList).bind fun u =>
        run source u (offset + Text.byteLength n.render) rest := by
  rw [hsection, hpart, Option.toList_none, Option.toList_none, ScanState.extend_nil]
  exact h

/-- At the top level a node adds its section, if that has a free slot, and its part of a page. -/
theorem run_node (n : Node) {s : ScanState} (hs : s.stack = []) (rest : List Char)
    (h : StandsAt source offset (n.render ++ rest)) :
    run source s offset (n.render ++ rest) =
      (s.extend (n.section? offset).toList n.htmlPart?.toList).bind fun u =>
        run source u (offset + Text.byteLength n.render) rest := by
  cases n with
  | text chars plain => exact run_quiet rfl rfl (run_text plain rest)
  | expression chars balanced => exact run_quiet rfl rfl (run_expression balanced.code rest)
  | comment chars plain => exact run_quiet rfl rfl (run_comment plain rest)
  | void tag name =>
    exact run_quiet rfl rfl
      (run_void false (tag.name.not_isSection_of_void name) (.inr name) rest)
  | selfClosing tag name => exact run_quiet rfl rfl (run_void true name (.inl rfl) rest)
  | emptyRaw tag =>
    simp only [Node.section?, Node.htmlPart?, Option.toList_none, Option.toList_some]
    rw [← recordAtTop_extend hs]
    exact run_emptyRaw tag rest
  | raw tag content whole =>
    simp only [Node.section?, Node.htmlPart?, Option.toList_none, Option.toList_some]
    rw [← recordAtTop_extend hs]
    exact run_raw tag whole rest
  | element tag name not_void children =>
    simp only [Node.render, List.append_assoc] at h
    have hpart := htmlPart?_eq tag.name.lowered (h.drop _)
    rw [Node.render, List.append_assoc, List.append_assoc, run_open name not_void,
      run_nodes_nested children (List.cons_ne_nil _ _), run_close,
      close_top ⟨tag.name.lowered, _⟩ hs, hpart]
    simp only [Text.byteLength_append, Nat.add_assoc]
    rfl

theorem run_end (component : Component) (html : List HtmlPart) (offset : Nat) :
    run source ⟨component, html, []⟩ offset [] = .ok ⟨component, html, []⟩ := by
  rw [run, List.getLast?_nil, Option.bind_none, Option.toList_none, List.append_nil]

/-- A document at the top level adds the sections and the parts of its nodes, one by one. -/
theorem run_nodes (ns : List Node) {s : ScanState} (hs : s.stack = []) (rest : List Char)
    (h : StandsAt source offset (renderNodes ns ++ rest)) :
    run source s offset (renderNodes ns ++ rest) =
      (s.extend (sectionsAt offset ns) (htmlParts ns)).bind fun u =>
        run source u (offset + Text.byteLength (renderNodes ns)) rest := by
  induction ns generalizing s offset with
  | nil =>
    rw [sectionsAt, htmlParts, List.filterMap_nil, ScanState.extend_nil]
    rfl
  | cons n ns ih =>
    have hparts : htmlParts (n :: ns) = n.htmlPart?.toList ++ htmlParts ns := by
      rw [htmlParts, List.filterMap_cons]
      cases n.htmlPart? <;> rfl
    rw [renderNodes, List.append_assoc] at h ⊢
    rw [run_node n hs _ h, sectionsAt, hparts, ScanState.extend_append]
    cases hn : s.extend (n.section? offset).toList n.htmlPart?.toList with
    | error e => rfl
    | ok u =>
      rw [Text.byteLength_append, ← Nat.add_assoc]
      exact ih ((ScanState.extend_stack hn).trans hs) (h.drop _)

end Scan

/-- What scanning finds in the text of a document is what its sections, put into their slots one by
one, and its parts of a page give. -/
theorem scan_renderNodes (ns : List Node) :
    scan (String.ofList (renderNodes ns)) =
      (Component.empty.placeAll (sectionsAt 0 ns)).map fun c => ⟨c, htmlParts ns⟩ := by
  have h := @Scan.run_nodes (renderNodes ns) 0 ns ⟨.empty, [], []⟩ rfl []
    (by rw [List.append_nil]; exact StandsAt.zero _)
  rw [List.append_nil] at h
  rw [scan, String.toList_ofList, h, ScanState.extend]
  cases Component.empty.placeAll (sectionsAt 0 ns) with
  | error e => rfl
  | ok c => simp only [Except.map, Except.bind, List.nil_append, Scan.run_end]

end ComponentBuild
