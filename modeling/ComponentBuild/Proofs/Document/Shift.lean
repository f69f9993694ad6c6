import ComponentBuild.Proofs.Document.Tree

namespace ComponentBuild

/-- The span of the same text, with more in front of it. -/
def Span.shift (s : Span) (delta : Nat) : Span := ⟨s.start + delta, s.stop + delta⟩

def Attribute.shift (a : Attribute) (delta : Nat) : Attribute :=
  { a with span := a.span.shift delta }

def Section.shift (s : Section) (delta : Nat) : Section :=
  { s with
    span := s.span.shift delta
    contentSpan := s.contentSpan.shift delta
    attributes := s.attributes.map (·.shift delta) }

def Component.shift (c : Component) (delta : Nat) : Component :=
  ⟨c.moduleScript.map (·.shift delta), c.instanceScript.map (·.shift delta),
    c.style.map (·.shift delta)⟩

/-- The parts of a page carry no spans. -/
def ScanResult.shift (r : ScanResult) (delta : Nat) : ScanResult :=
  { r with component := r.component.shift delta }

def ScanError.shift (e : ScanError) (delta : Nat) : ScanError :=
  { e with span := e.span.shift delta }

def OpenElement.shift (e : OpenElement) (delta : Nat) : OpenElement :=
  { e with contentStart := e.contentStart + delta }

def ScanState.shift (s : ScanState) (delta : Nat) : ScanState :=
  { s with component := s.component.shift delta, stack := s.stack.map (·.shift delta) }

/-- An outcome of scanning, moved: its error, or by `move` its value. -/
def moved {α : Type} (delta : Nat) (move : α → Nat → α) : Except ScanError α → Except ScanError α
  | .ok a => .ok (move a delta)
  | .error e => .error (e.shift delta)

theorem Section.attribute?_shift (s : Section) (delta : Nat) (name : String) :
    (s.shift delta).attribute? name = (s.attribute? name).map (·.shift delta) := by
  unfold Section.attribute? Section.shift
  rw [List.find?_map]
  rfl

theorem Section.slot_shift (s : Section) (delta : Nat) : (s.shift delta).slot = s.slot := by
  have hcontext : (s.shift delta).context = s.context := by
    simp only [Section.context, Section.attributeValue?, Section.attribute?_shift,
      Option.isSome_map, Option.bind_map]
    rfl
  unfold Section.slot
  rw [hcontext]
  rfl

theorem Component.get_shift (c : Component) (delta : Nat) (slot : Slot) :
    (c.shift delta).get slot = (c.get slot).map (·.shift delta) := by
  cases slot <;> rfl

theorem Component.set_shift (c : Component) (delta : Nat) (slot : Slot) (s : Section) :
    (c.shift delta).set slot (s.shift delta) = (c.set slot s).shift delta := by
  cases slot <;> rfl

theorem Component.place_shift (c : Component) (delta : Nat) (s : Section) :
    (c.shift delta).place (s.shift delta) = moved delta Component.shift (c.place s) := by
  unfold Component.place
  rw [Section.slot_shift, Component.get_shift, Option.isSome_map, Component.set_shift]
  split <;> rfl

namespace Text

theorem splitAt?_front (front cs : List Char) (n : Nat) :
    splitAt? (front ++ cs) (n + byteLength front) =
      (splitAt? cs n).map fun x => (front ++ x.1, x.2) := by
  induction front with
  | nil => simp
  | cons c front ih =>
    have hc := c.utf8Size_pos
    obtain ⟨m, hm⟩ : ∃ m, n + byteLength (c :: front) = m + 1 :=
      ⟨n + byteLength (c :: front) - 1, by rw [byteLength_cons]; omega⟩
    have hrest : m + 1 - c.utf8Size = n + byteLength front := by
      rw [← hm, byteLength_cons]
      omega
    rw [hm, List.cons_append, splitAt?, if_pos (by rw [← hm, byteLength_cons]; omega), hrest, ih,
      Option.map_map]
    rfl

theorem slice?_front (front cs : List Char) (start stop : Nat) :
    slice? (front ++ cs) (start + byteLength front) (stop + byteLength front) =
      slice? cs start stop := by
  unfold slice?
  rw [splitAt?_front, Option.bind_map, Nat.add_sub_add_right]
  simp only [Nat.add_le_add_iff_right]
  rfl

end Text

namespace Scan

def TagEnd.shift (t : TagEnd) (delta : Nat) : TagEnd :=
  { t with attributes := t.attributes.map (·.shift delta), stop := t.stop + delta }

def Step.shift (t : Step) (delta : Nat) : Step :=
  { t with state := t.state.shift delta, offset := t.offset + delta }

variable {offset delta : Nat} {current : Option Attribute} {wants : Bool} {cs : List Char}

theorem TagEnd.withFirst_shift (t : TagEnd) (first : Option Attribute) :
    (t.withFirst first).shift delta = (t.shift delta).withFirst (first.map (·.shift delta)) := by
  cases first <;> rfl

theorem readAttributes_shift (offset delta : Nat) (current : Option Attribute) (wants : Bool)
    (cs : List Char) :
    readAttributes (offset + delta) (current.map (·.shift delta)) wants cs =
      (readAttributes offset current wants cs).map (·.shift delta) := by
  induction cs using Tag.tokenInduction generalizing offset current wants with
  | ends cs hnext =>
    rw [readAttributes_of_none hnext, readAttributes_of_none hnext, Option.map_none]
  | token cs blanks x hnext hrest =>
    rw [readAttributes_of_next hnext, readAttributes_of_next hnext]
    simp only [Nat.add_right_comm _ delta]
    cases x.kind with
    | closeAngle | slashAngle => cases current <;> rfl
    | equals =>
      simp only [Option.isSome_map]
      exact hrest _ _ _
    | name =>
      simp only []
      split
      · rw [← hrest]
        cases current <;> rfl
      · have hfirst : ((·.shift delta) ∘ (·.withFirst current) : TagEnd → TagEnd) =
            (·.withFirst (current.map (·.shift delta))) ∘ (·.shift delta) :=
          funext fun t => t.withFirst_shift current
        rw [Option.map_map, hfirst, ← Option.map_map, ← hrest]
        rfl
    | doubleQuoted | singleQuoted | expression =>
      simp only []
      split
      · rw [← hrest]
        cases current <;> rfl
      · exact hrest _ _ _
    | slash | endOfText | invalid => exact hrest _ _ _

theorem readClosingTag_shift (offset delta : Nat) (name : Option String) (cs : List Char) :
    readClosingTag (offset + delta) name cs =
      (readClosingTag offset name cs).map fun x => (x.1, x.2.1 + delta, x.2.2) := by
  induction cs using Tag.tokenInduction generalizing offset name with
  | ends cs hnext =>
    rw [readClosingTag_of_none hnext, readClosingTag_of_none hnext, Option.map_none]
  | token cs blanks x hnext hrest =>
    rw [readClosingTag_of_next hnext, readClosingTag_of_next hnext]
    simp only [Nat.add_right_comm _ delta]
    split
    · rfl
    · exact hrest _ _

/-- The section of a script or style whose opening tag has been read. -/
def rawSection (name : String) (start : Nat) (tag : TagEnd) (content : List Char)
    (contentStop stop : Nat) : Section :=
  ⟨if name = "script" then .script else .style, ⟨start, stop⟩, ⟨tag.stop, contentStop⟩,
    String.ofList content, tag.attributes⟩

theorem rawElement_eq (s : ScanState) (start : Nat) (name : String) (tag : TagEnd) :
    rawElement s start name tag =
      if tag.selfClosing then
        (recordAtTop s (rawSection name start tag [] tag.stop tag.stop)).map
          (Step.mk · tag.stop tag.rest)
      else
        match splitAtClosing? name.toList tag.rest with
        | none => .error ⟨.unclosedRawText name, ⟨start, tag.stop⟩⟩
        | some (content, closing) =>
          let contentStop := tag.stop + Text.byteLength content
          match closing.dropWhile (· != '>') with
          | [] =>
            .error ⟨.unexpectedEnd ("'>' to close </" ++ name ++ ">"),
              ⟨contentStop, contentStop + Text.byteLength closing⟩⟩
          | _ :: rest =>
            let stop := contentStop + Text.byteLength (closing.takeWhile (· != '>')) + 1
            (recordAtTop s (rawSection name start tag content contentStop stop)).map
              (Step.mk · stop rest) := by
  have hrecord (found : Section) (stop : Nat) (rest : List Char) :
      (recordAtTop s found).map (Step.mk · stop rest) =
        if s.stack.isEmpty then
          (ScanState.recordSection s found).map fun s => Step.mk s stop rest
        else .ok ⟨s, stop, rest⟩ := by
    unfold recordAtTop
    split <;> rfl
  simp only [hrecord]
  rfl

theorem recordAtTop_shift (s : ScanState) (delta : Nat) (found : Section) :
    recordAtTop (s.shift delta) (found.shift delta) =
      moved delta ScanState.shift (recordAtTop s found) := by
  unfold recordAtTop
  rw [show (s.shift delta).stack.isEmpty = s.stack.isEmpty from List.isEmpty_map]
  split
  · rw [recordSection_eq, recordSection_eq]
    change ((s.component.shift delta).place (found.shift delta)).map _ = _
    rw [Component.place_shift]
    cases s.component.place found <;> rfl
  · rfl

theorem rawElement_shift (s : ScanState) (start delta : Nat) (name : String) (tag : TagEnd) :
    rawElement (s.shift delta) (start + delta) name (tag.shift delta) =
      moved delta Step.shift (rawElement s start name tag) := by
  have record (found : Section) (stop : Nat) (rest : List Char) :
      (recordAtTop (s.shift delta) (found.shift delta)).map (Step.mk · (stop + delta) rest) =
        moved delta Step.shift ((recordAtTop s found).map (Step.mk · stop rest)) := by
    rw [recordAtTop_shift]
    cases recordAtTop s found <;> rfl
  rw [rawElement_eq, rawElement_eq]
  obtain ⟨attributes, selfClosing, stop, rest⟩ := tag
  simp only [TagEnd.shift, Nat.add_right_comm _ delta]
  cases selfClosing with
  | true => exact record (rawSection name start ⟨attributes, true, stop, rest⟩ [] stop stop) _ _
  | false =>
    simp only [Bool.false_eq_true, if_false]
    rcases splitAtClosing? name.toList rest with _ | ⟨content, closing⟩
    · rfl
    · cases hclosing : closing.dropWhile (· != '>') with
      | nil =>
        simp only [hclosing]
        rfl
      | cons c after =>
        simp only [hclosing]
        exact record (rawSection name start ⟨attributes, false, stop, rest⟩ content _ _) _ _

theorem openTag_shift (s : ScanState) (start delta : Nat) (cs : List Char) :
    openTag (s.shift delta) (start + delta) cs = moved delta Step.shift (openTag s start cs) := by
  have hread := readAttributes_shift (start + 1 + Text.byteLength (cs.takeWhile Tag.isNameChar))
    delta none false (cs.dropWhile Tag.isNameChar)
  unfold openTag
  simp only [Nat.add_right_comm _ delta, Option.map_none] at hread ⊢
  rw [hread]
  cases readAttributes (start + 1 + Text.byteLength (cs.takeWhile Tag.isNameChar)) none false
      (cs.dropWhile Tag.isNameChar) with
  | none => rfl
  | some tag =>
    simp only [Option.map_some]
    split
    · exact rawElement_shift s start delta _ tag
    · have hclosing : (tag.shift delta).selfClosing = tag.selfClosing := rfl
      rw [hclosing]
      split <;> rfl

variable {source : List Char}

theorem htmlPart?_shift (front source : List Char) (e : OpenElement) (stop : Nat) :
    htmlPart? (front ++ source) (e.shift (Text.byteLength front)) (stop + Text.byteLength front) =
      htmlPart? source e stop := by
  unfold htmlPart?
  simp only [OpenElement.shift, Text.slice?_front]

theorem close_shift (front source : List Char) (s : ScanState) (name : String) (stop : Nat) :
    ScanState.close (s.shift (Text.byteLength front)) (front ++ source) name
        (stop + Text.byteLength front) =
      (ScanState.close s source name stop).shift (Text.byteLength front) := by
  have hstack : (s.shift (Text.byteLength front)).stack.dropWhile (·.name != name) =
      (s.stack.dropWhile (·.name != name)).map (·.shift (Text.byteLength front)) := by
    change (s.stack.map (·.shift (Text.byteLength front))).dropWhile _ = _
    rw [List.dropWhile_map]
    rfl
  unfold ScanState.close
  rw [hstack]
  generalize s.stack.dropWhile (·.name != name) = opened
  rcases opened with _ | ⟨e, _ | ⟨outer, stack⟩⟩
  · rfl
  · simp only [List.map_cons, List.map_nil, htmlPart?_shift]
    rfl
  · rfl

theorem closingTag_shift (front source : List Char) (s : ScanState) (start : Nat)
    (cs : List Char) :
    closingTag (front ++ source) (s.shift (Text.byteLength front))
        (start + Text.byteLength front) cs =
      moved (Text.byteLength front) Step.shift (closingTag source s start cs) := by
  have hread := readClosingTag_shift (start + 2) (Text.byteLength front) none cs
  unfold closingTag
  simp only [Nat.add_right_comm _ (Text.byteLength front)] at hread ⊢
  rw [hread]
  rcases readClosingTag (start + 2) none cs with _ | ⟨_ | name, stop, rest⟩
  · rfl
  · rfl
  · simp only [Option.map_some, close_shift]
    rfl

theorem advance_shift (offset delta : Nat) (text rest : List Char) :
    advance (offset + delta) text rest = advance offset text rest + delta :=
  Nat.add_right_comm _ _ _

theorem step_shift (front source : List Char) (s : ScanState) (offset : Nat) (c : Char)
    (cs : List Char) :
    step (front ++ source) (s.shift (Text.byteLength front)) (offset + Text.byteLength front) c
        cs =
      moved (Text.byteLength front) Step.shift (step source s offset c cs) := by
  unfold step
  simp only [advance_shift, Nat.add_right_comm _ (Text.byteLength front)]
  split
  · rfl
  split
  · split
    · split <;> rfl
    · exact closingTag_shift front source s offset _
    · split
      · exact openTag_shift s offset _ _
      · rfl
    · rfl
  · rfl

theorem run_shift (front source : List Char) (s : ScanState) (offset : Nat) (cs : List Char) :
    run (front ++ source) (s.shift (Text.byteLength front)) (offset + Text.byteLength front) cs =
      moved (Text.byteLength front) ScanState.shift (run source s offset cs) := by
  induction hn : cs.length using Nat.strongRecOn generalizing s offset cs with
  | ind n ih =>
    cases cs with
    | nil =>
      have hlast : (s.shift (Text.byteLength front)).stack.getLast? =
          s.stack.getLast?.map (·.shift (Text.byteLength front)) := List.getLast?_map
      rw [run, run, hlast, Option.bind_map]
      simp only [Function.comp_def, htmlPart?_shift]
      rfl
    | cons c cs =>
      rw [run_cons, run_cons, step_shift]
      cases hstep : step source s offset c cs with
      | error e => rfl
      | ok t =>
        have hlength := step_length hstep
        exact ih t.rest.length (by rw [← hn, List.length_cons]; omega) t.state t.offset t.rest rfl

end Scan

theorem scan_eq (source : String) :
    scan source = (Scan.run source.toList ⟨.empty, [], []⟩ 0 source.toList).map fun s =>
      ⟨s.component, s.html⟩ := by
  unfold scan
  cases Scan.run source.toList ⟨.empty, [], []⟩ 0 source.toList <;> rfl

/-- A front that scanning reads past, with nothing found in it and no element left open, moves what
is found behind it and changes nothing else. -/
theorem scan_of_front {front : List Char} (rest : List Char)
    (h : ∀ source, Scan.run source ⟨.empty, [], []⟩ 0 (front ++ rest) =
      Scan.run source ⟨.empty, [], []⟩ (Text.byteLength front) rest) :
    scan (String.ofList (front ++ rest)) =
      moved (Text.byteLength front) ScanResult.shift (scan (String.ofList rest)) := by
  have hrun := Scan.run_shift front rest ⟨.empty, [], []⟩ 0 rest
  have hempty : ScanState.shift ⟨.empty, [], []⟩ (Text.byteLength front) = ⟨.empty, [], []⟩ := rfl
  rw [Nat.zero_add, hempty] at hrun
  rw [scan_eq, scan_eq, String.toList_ofList, String.toList_ofList, h, hrun]
  cases Scan.run rest ⟨.empty, [], []⟩ 0 rest <;> rfl

end ComponentBuild
