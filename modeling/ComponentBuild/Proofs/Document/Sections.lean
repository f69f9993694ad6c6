import ComponentBuild.Document.Kind
import ComponentBuild.Proofs.Document.Slot
import ComponentBuild.Proofs.Text.Offset

namespace ComponentBuild

open Text (StandsAt)

/-- The content of a section is what its span covers in the document. -/
def Section.StandsIn (source : List Char) (s : Section) : Prop :=
  Text.slice? source s.contentSpan.start s.contentSpan.stop = some s.content.toList

/-- Each slot of a component holds a section that belongs there and is found in the document. -/
def Component.Sound (source : List Char) (c : Component) : Prop :=
  ∀ slot s, c.get slot = some s → s.slot = slot ∧ s.StandsIn source

namespace Component

variable {source : List Char} {c d : Component} {s t : Section}

theorem empty_sound (source : List Char) : empty.Sound source := by
  intro slot s h
  rw [get_empty] at h
  contradiction

theorem Sound.place (hc : c.Sound source) (hs : s.StandsIn source) (h : c.place s = .ok d) :
    d.Sound source := by
  intro slot t ht
  rw [get_of_place h] at ht
  split at ht
  next hslot =>
    cases ht
    exact ⟨hslot.symm, hs⟩
  next => exact hc slot t ht

theorem Sound.moduleScript (hc : c.Sound source) (hs : c.moduleScript = some s) :
    s.kind = .script ∧ s.context = .perModule ∧ s.StandsIn source := by
  obtain ⟨hslot, hstands⟩ := hc .moduleScript s hs
  obtain ⟨hkind, hcontext⟩ := Section.slot_eq_moduleScript.1 hslot
  exact ⟨hkind, hcontext, hstands⟩

theorem Sound.instanceScript (hc : c.Sound source) (hs : c.instanceScript = some s) :
    s.kind = .script ∧ s.context = .perInstance ∧ s.StandsIn source := by
  obtain ⟨hslot, hstands⟩ := hc .instanceScript s hs
  obtain ⟨hkind, hcontext⟩ := Section.slot_eq_instanceScript.1 hslot
  exact ⟨hkind, hcontext, hstands⟩

theorem Sound.style (hc : c.Sound source) (hs : c.style = some s) :
    s.kind = .style ∧ s.StandsIn source := by
  obtain ⟨hslot, hstands⟩ := hc .style s hs
  exact ⟨Section.slot_eq_style.1 hslot, hstands⟩

/-- Sections of different slots are different. -/
theorem Sound.ne (hc : c.Sound source) {a b : Slot} (hab : a ≠ b) (hs : c.get a = some s)
    (ht : c.get b = some t) : s ≠ t := by
  rintro rfl
  exact hab ((hc a s hs).1.symm.trans (hc b s ht).1)

end Component

theorem Tag.next?_append {cs blanks : List Char} {x : Lexeme} (h : next? cs = some (blanks, x)) :
    cs = blanks ++ (x.text ++ x.rest) := by
  unfold next? at h
  split at h
  next => contradiction
  next c rest hd =>
    simp only [Option.some.injEq, Prod.mk.injEq] at h
    obtain ⟨rfl, rfl⟩ := h
    rw [lexeme_append, ← hd, List.takeWhile_append_dropWhile]

namespace Scan

variable {source : List Char}

theorem standsAt_next {offset : Nat} {cs blanks : List Char} {x : Tag.Lexeme}
    (hs : StandsAt source offset cs) (h : Tag.next? cs = some (blanks, x)) :
    StandsAt source (offset + Text.byteLength blanks + Text.byteLength x.text) x.rest :=
  ((Tag.next?_append h ▸ hs).drop _).drop _

theorem standsAt_readAttributes {offset : Nat} {current : Option Attribute} {wants : Bool}
    {cs : List Char} {t : TagEnd} (h : readAttributes offset current wants cs = some t)
    (hs : StandsAt source offset cs) : StandsAt source t.stop t.rest := by
  fun_induction readAttributes offset current wants cs generalizing t with
  | case1 => contradiction
  | _ => grind [→ standsAt_next, TagEnd.withFirst, Option.map_eq_some_iff]

theorem standsAt_readClosingTag {offset stop : Nat} {name name' : Option String}
    {cs rest : List Char} (h : readClosingTag offset name cs = some (name', stop, rest))
    (hs : StandsAt source offset cs) : StandsAt source stop rest := by
  fun_induction readClosingTag offset name cs with
  | case1 => contradiction
  | _ => grind [→ standsAt_next]

theorem skipBraces_suffix {depth : Nat} {quote : Option Char} {cs rest : List Char}
    (h : skipBraces depth quote cs = some rest) : rest <:+ cs := by
  fun_induction skipBraces depth quote cs with
  | case1 => contradiction
  | case5 =>
    cases h
    exact List.suffix_cons _ _
  | case2 _ _ _ _ ih | case3 _ _ _ _ ih | case4 _ _ _ ih | case6 _ _ _ _ _ ih
  | case7 _ _ _ _ _ _ ih => exact (ih h).trans (List.suffix_cons _ _)

theorem skipExpression_suffix (cs : List Char) : skipExpression cs <:+ cs := by
  unfold skipExpression
  cases h : skipBraces 1 none cs with
  | none => exact List.suffix_rfl
  | some rest => exact skipBraces_suffix h

theorem dropPast?_suffix {pattern cs rest : List Char} (h : dropPast? pattern cs = some rest) :
    rest <:+ cs := by
  induction cs with
  | nil =>
    simp only [dropPast?] at h
    split at h
    · cases h
      exact List.suffix_rfl
    · contradiction
  | cons c cs ih =>
    simp only [dropPast?] at h
    split at h
    · cases h
      exact List.drop_suffix _ _
    · exact (ih h).trans (List.suffix_cons _ _)

theorem standsAt_advance {offset : Nat} {cs rest : List Char} (hs : StandsAt source offset cs)
    (h : rest <:+ cs) : StandsAt source (advance offset cs rest) rest := by
  obtain ⟨front, rfl⟩ := h
  have hd := hs.drop _
  rwa [advance, Text.byteLength_append, Nat.add_sub_cancel_right]

theorem eq_of_dropWhile_ne {q c : Char} {cs rest : List Char}
    (h : cs.dropWhile (· != q) = c :: rest) : c = q := by
  have hhead := List.head?_dropWhile_not (· != q) cs
  rw [h] at hhead
  simpa using hhead

/-- What a step gives: the place where reading goes on, and at most one section more. -/
structure Step.Follows (source : List Char) (s : ScanState) (t : Step) : Prop where
  standsAt : StandsAt source t.offset t.rest
  component : t.state.component = s.component ∨
    ∃ found : Section, found.StandsIn source ∧ s.component.place found = .ok t.state.component

theorem Step.Follows.of_same {s : ScanState} {t : Step} (h : StandsAt source t.offset t.rest)
    (hc : t.state.component = s.component) : t.Follows source s := ⟨h, .inl hc⟩

theorem rawElement_follows {s : ScanState} {start : Nat} {name : String} {tag : TagEnd} {t : Step}
    (h : rawElement s start name tag = .ok t) (htag : StandsAt source tag.stop tag.rest) :
    t.Follows source s := by
  have record {content rest : List Char} {contentStop stop : Nat}
      (h : (if s.stack.isEmpty = true then
          (ScanState.recordSection s ⟨if name = "script" then .script else .style, ⟨start, stop⟩,
            ⟨tag.stop, contentStop⟩, String.ofList content, tag.attributes⟩).map
            fun s => Step.mk s stop rest
        else .ok ⟨s, stop, rest⟩) = .ok t)
      (hcontent : Text.slice? source tag.stop contentStop = some content)
      (hrest : StandsAt source stop rest) : t.Follows source s := by
    split at h
    · rw [recordSection_eq] at h
      obtain ⟨u, hu, rfl⟩ := exists_of_map_ok h
      obtain ⟨c, hplace, rfl⟩ := exists_of_map_ok hu
      refine ⟨hrest, .inr ⟨_, ?_, hplace⟩⟩
      rw [Section.StandsIn, hcontent, String.toList_ofList]
    · cases h
      exact .of_same hrest rfl
  unfold rawElement at h
  simp only at h
  split at h
  · exact record h (StandsAt.slice? [] htag) htag
  · split at h
    next => contradiction
    next content closing hsplit =>
      have hc := splitAtClosing?_append hsplit
      have hclosing := (hc ▸ htag).drop _
      split at h
      next => contradiction
      next c rest hd =>
        have hparts := List.takeWhile_append_dropWhile (p := (· != '>')) (l := closing)
        rw [hd, eq_of_dropWhile_ne hd] at hparts
        rw [← hparts] at hclosing
        exact record h ((hc ▸ htag).slice? _)
          ((hclosing.drop _).drop ['>'])

theorem openTag_follows {s : ScanState} {start : Nat} {cs : List Char} {t : Step}
    (h : openTag s start cs = .ok t) (hcs : StandsAt source (start + 1) cs) :
    t.Follows source s := by
  unfold openTag at h
  simp only at h
  split at h
  next => contradiction
  next tag htag =>
    rw [← List.takeWhile_append_dropWhile (p := Tag.isNameChar) (l := cs)] at hcs
    have hrest := standsAt_readAttributes htag (hcs.drop _)
    split at h
    · exact rawElement_follows h hrest
    · split at h <;> cases h <;> exact .of_same hrest rfl

theorem close_component (s : ScanState) (source : List Char) (name : String) (stop : Nat) :
    (ScanState.close s source name stop).component = s.component := by
  unfold ScanState.close
  split <;> rfl

theorem closingTag_follows {s : ScanState} {start : Nat} {cs : List Char} {t : Step}
    (h : closingTag source s start cs = .ok t) (hcs : StandsAt source (start + 2) cs) :
    t.Follows source s := by
  unfold closingTag at h
  split at h
  next => contradiction
  next name stop rest hr =>
    have hrest := standsAt_readClosingTag hr hcs
    split at h <;> cases h
    · exact .of_same hrest rfl
    · exact .of_same hrest (close_component s source _ start)

theorem step_follows {s : ScanState} {offset : Nat} {c : Char} {cs : List Char} {t : Step}
    (h : step source s offset c cs = .ok t) (hcs : StandsAt source offset (c :: cs)) :
    t.Follows source s := by
  have hnext : StandsAt source (offset + c.utf8Size) cs := hcs.drop [c]
  unfold step at h
  split at h
  · cases h
    exact .of_same
      (standsAt_advance hcs ((skipExpression_suffix cs).trans (List.suffix_cons _ _))) rfl
  split at h
  next hc =>
    subst hc
    split at h
    next body =>
      split at h
      next => contradiction
      next rest hd =>
        cases h
        have hsuffix := (dropPast?_suffix hd).trans (List.suffix_append ['<', '!', '-', '-'] body)
        exact .of_same (standsAt_advance hcs hsuffix) rfl
    next tag => exact closingTag_follows h (hcs.drop ['<', '/'])
    next d _ _ _ =>
      split at h
      · exact openTag_follows h hnext
      · cases h
        exact .of_same hnext rfl
    next =>
      cases h
      exact .of_same hnext rfl
  next =>
    cases h
    exact .of_same hnext rfl

/-- What holds of a component and stays when a section of the document is put into a free slot holds
after any reading. -/
theorem run_invariant {P : Component → Prop}
    (hplace : ∀ {c d : Component} {found : Section}, P c → found.StandsIn source →
      c.place found = .ok d → P d)
    {s t : ScanState} {offset : Nat} {cs : List Char} (h : run source s offset cs = .ok t)
    (hcs : StandsAt source offset cs) (hs : P s.component) : P t.component := by
  fun_induction run source s offset cs with
  | case1 =>
    cases h
    exact hs
  | case2 => contradiction
  | case3 s offset c cs u hu ih =>
    have hstep := step_follows hu hcs
    refine ih h hstep.standsAt ?_
    rcases hstep.component with he | ⟨found, hfound, hp⟩
    · rw [he]
      exact hs
    · exact hplace hs hfound hp

theorem run_sound {s t : ScanState} {offset : Nat} {cs : List Char}
    (h : run source s offset cs = .ok t) (hcs : StandsAt source offset cs)
    (hs : s.component.Sound source) : t.component.Sound source :=
  run_invariant Component.Sound.place h hcs hs

/-- A slot that is filled keeps its section. -/
theorem run_keeps {s t : ScanState} {offset : Nat} {cs : List Char} {slot : Slot} {found : Section}
    (h : run source s offset cs = .ok t) (hcs : StandsAt source offset cs)
    (hs : s.component.get slot = some found) : t.component.get slot = some found :=
  run_invariant (P := fun c => c.get slot = some found)
    (fun hc _ hp => Component.place_keeps hp hc) h hcs hs

end Scan

theorem run_of_scan {source : String} {result : ScanResult} (h : scan source = .ok result) :
    ∃ s, Scan.run source.toList ⟨.empty, [], []⟩ 0 source.toList = .ok s ∧
      result = ⟨s.component, s.html⟩ := by
  unfold scan at h
  split at h
  · cases h
  next s hs =>
    cases h
    exact ⟨s, hs, rfl⟩

theorem detect_sound {filename source : String} {c : Component}
    (h : Document.detect filename source = .ok (.component c)) : c.Sound source.toList := by
  unfold Document.detect at h
  split at h
  · cases h
  next result hscan =>
    split at h
    · cases h
    · cases h
      obtain ⟨s, hrun, rfl⟩ := run_of_scan hscan
      exact Scan.run_sound hrun (StandsAt.zero _) (Component.empty_sound _)

end ComponentBuild
