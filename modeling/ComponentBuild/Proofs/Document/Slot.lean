import Mathlib.Data.List.Induction
import Mathlib.Data.List.Nodup
import ComponentBuild.Document.Scan

namespace ComponentBuild

section

variable {ε α β : Type} {x : Except ε α} {b : β}

theorem exists_of_map_ok {f : α → β} (h : x.map f = .ok b) : ∃ a, x = .ok a ∧ f a = b := by
  cases x with
  | error e => cases h
  | ok a => exact ⟨a, rfl, Except.ok.inj h⟩

theorem eq_of_map_error {f : α → β} {e : ε} (h : x.map f = .error e) : x = .error e := by
  cases x with
  | error e' => exact congrArg Except.error (Except.error.inj h)
  | ok a => cases h

theorem exists_of_bind_ok {f : α → Except ε β} (h : x.bind f = .ok b) :
    ∃ a, x = .ok a ∧ f a = .ok b := by
  cases x with
  | error e => cases h
  | ok a => exact ⟨a, rfl, h⟩

end

/-- A place for a section. -/
inductive Slot where
  | moduleScript
  | instanceScript
  | style
  deriving DecidableEq, Repr

/-- What messages call the section of a slot. -/
def Slot.describe : Slot → String
  | moduleScript => "module script"
  | instanceScript => "instance script"
  | style => "style"

/-- The slot that a section belongs in. -/
def Section.slot (s : Section) : Slot :=
  match s.kind, s.context with
  | .style, _ => .style
  | .script, .perModule => .moduleScript
  | .script, .perInstance => .instanceScript

theorem Section.slot_eq_style {s : Section} : s.slot = .style ↔ s.kind = .style := by
  unfold Section.slot
  cases s.kind <;> cases s.context <;> simp

theorem Section.slot_eq_moduleScript {s : Section} :
    s.slot = .moduleScript ↔ s.kind = .script ∧ s.context = .perModule := by
  unfold Section.slot
  cases s.kind <;> cases s.context <;> simp

theorem Section.slot_eq_instanceScript {s : Section} :
    s.slot = .instanceScript ↔ s.kind = .script ∧ s.context = .perInstance := by
  unfold Section.slot
  cases s.kind <;> cases s.context <;> simp

/-- The slot does not depend on where the section stands and what it holds. -/
theorem Section.slot_congr {s t : Section} (hkind : s.kind = t.kind)
    (hattributes : s.attributes = t.attributes) : s.slot = t.slot := by
  cases s
  cases t
  cases hkind
  cases hattributes
  rfl

namespace Component

def get (c : Component) : Slot → Option Section
  | .moduleScript => c.moduleScript
  | .instanceScript => c.instanceScript
  | .style => c.style

def set (c : Component) (slot : Slot) (s : Section) : Component :=
  match slot with
  | .moduleScript => { c with moduleScript := some s }
  | .instanceScript => { c with instanceScript := some s }
  | .style => { c with style := some s }

theorem get_set (c : Component) (slot other : Slot) (s : Section) :
    (c.set slot s).get other = if other = slot then some s else c.get other := by
  cases slot <;> cases other <;> rfl

@[simp] theorem get_empty (slot : Slot) : empty.get slot = none := by
  cases slot <;> rfl

theorem ext_get {c d : Component} (h : ∀ slot, c.get slot = d.get slot) : c = d := by
  cases c
  cases d
  rw [mk.injEq]
  exact ⟨h .moduleScript, h .instanceScript, h .style⟩

/-- Puts a section into its slot, if that is free. -/
def place (c : Component) (s : Section) : Except ScanError Component :=
  if (c.get s.slot).isSome then .error ⟨.duplicate s.slot.describe, s.span⟩
  else .ok (c.set s.slot s)

/-- Puts sections into their slots one by one. -/
def placeAll (c : Component) (ss : List Section) : Except ScanError Component :=
  ss.foldlM place c

theorem place_of_free {c : Component} {s : Section} (h : c.get s.slot = none) :
    c.place s = .ok (c.set s.slot s) := by
  rw [place, h]
  rfl

theorem place_of_taken {c : Component} {s : Section} (h : (c.get s.slot).isSome) :
    c.place s = .error ⟨.duplicate s.slot.describe, s.span⟩ := by
  rw [place, if_pos h]

/-- A section that was placed is the one of its slot, and the other slots are as before. -/
theorem get_of_place {c d : Component} {s : Section} (h : c.place s = .ok d) (slot : Slot) :
    d.get slot = if slot = s.slot then some s else c.get slot := by
  unfold place at h
  split at h
  · cases h
  · cases h
    exact get_set c s.slot slot s

theorem place_keeps {c d : Component} {s t : Section} {slot : Slot} (h : c.place s = .ok d)
    (ht : c.get slot = some t) : d.get slot = some t := by
  rw [get_of_place h]
  split
  next hslot =>
    rw [place, ← hslot, ht] at h
    cases h
  next => exact ht

theorem placeAll_append (c : Component) (front back : List Section) :
    c.placeAll (front ++ back) = (c.placeAll front).bind (·.placeAll back) :=
  List.foldlM_append

/-- Sections that all belong in free slots of their own are placed there. -/
theorem placeAll_of_nodup {c : Component} {ss : List Section}
    (h : (ss.map Section.slot).Nodup) (hfree : ∀ s ∈ ss, c.get s.slot = none) :
    ∃ d, c.placeAll ss = .ok d ∧
      ∀ slot, d.get slot = (ss.find? (·.slot = slot)).or (c.get slot) := by
  induction ss generalizing c with
  | nil => exact ⟨c, rfl, fun slot => rfl⟩
  | cons s ss ih =>
    rw [List.map_cons, List.nodup_cons] at h
    have hs := place_of_free (hfree s (List.mem_cons_self ..))
    have hrest : ∀ t ∈ ss, (c.set s.slot s).get t.slot = none := by
      intro t ht
      have hne : t.slot ≠ s.slot := fun he => h.1 (he ▸ List.mem_map_of_mem ht)
      rw [get_set, if_neg hne]
      exact hfree t (List.mem_cons_of_mem _ ht)
    obtain ⟨d, hd, hget⟩ := ih h.2 hrest
    refine ⟨d, ?_, fun slot => ?_⟩
    · rw [placeAll, List.foldlM_cons, hs]
      exact hd
    · rw [hget, get_set, List.find?_cons]
      by_cases hslot : s.slot = slot
      · have hnone : ss.find? (·.slot = slot) = none := by
          rw [List.find?_eq_none]
          intro t ht he
          rw [decide_eq_true_eq] at he
          exact h.1 (hslot.trans he.symm ▸ List.mem_map_of_mem ht)
        simp [hslot, hnone]
      · simp [hslot, Ne.symm hslot]

/-- The sections in their slots, in each the first that belongs there. -/
def ofSections (ss : List Section) : Component :=
  ⟨ss.find? (·.slot = .moduleScript), ss.find? (·.slot = .instanceScript),
    ss.find? (·.slot = .style)⟩

theorem get_ofSections (ss : List Section) (slot : Slot) :
    (ofSections ss).get slot = ss.find? (·.slot = slot) := by
  cases slot <;> rfl

theorem placeAll_empty {ss : List Section} (h : (ss.map Section.slot).Nodup) :
    empty.placeAll ss = .ok (ofSections ss) := by
  obtain ⟨d, hd, hget⟩ := placeAll_of_nodup h fun s _ => get_empty s.slot
  rw [hd]
  refine congrArg Except.ok (ext_get fun slot => ?_)
  rw [hget, get_empty, Option.or_none, get_ofSections]

/-- Placing sections leaves the slots of others alone. -/
theorem get_of_placeAll {c d : Component} {ss : List Section} (h : c.placeAll ss = .ok d)
    {slot : Slot} (hslot : slot ∉ ss.map Section.slot) : d.get slot = c.get slot := by
  induction ss generalizing c with
  | nil =>
    cases h
    rfl
  | cons s ss ih =>
    rw [List.map_cons, List.mem_cons, not_or] at hslot
    rw [placeAll, List.foldlM_cons] at h
    obtain ⟨c', hs, h⟩ := exists_of_bind_ok h
    rw [ih h hslot.2, get_of_place hs, if_neg hslot.1]

/-- Of sections that do not all have a slot of their own, one is the first whose slot is taken. -/
theorem exists_first_taken {ss : List Section} (h : ¬ (ss.map Section.slot).Nodup) :
    ∃ front s back, ss = front ++ s :: back ∧ (front.map Section.slot).Nodup ∧
      s.slot ∈ front.map Section.slot := by
  -- From the back: either the last section is the first without a free slot, or the rest has one.
  induction ss using List.reverseRecOn with
  | nil => exact absurd List.nodup_nil h
  | append_singleton ss s ih =>
    by_cases hss : (ss.map Section.slot).Nodup
    · refine ⟨ss, s, [], rfl, hss, ?_⟩
      by_contra hs
      refine h ?_
      rw [List.map_append, List.map_singleton, ← List.concat_eq_append]
      exact hss.concat hs
    · obtain ⟨front, t, back, rfl, hfront, ht⟩ := ih hss
      exact ⟨front, t, back ++ [s], by simp, hfront, ht⟩

/-- The first section whose slot is taken ends the placing. -/
theorem placeAll_of_taken {c d : Component} {front back : List Section} {s : Section}
    (hfront : c.placeAll front = .ok d) (hs : (d.get s.slot).isSome) :
    c.placeAll (front ++ s :: back) = .error ⟨.duplicate s.slot.describe, s.span⟩ := by
  rw [placeAll_append, hfront]
  change (d.place s).bind (·.placeAll back) = _
  rw [place_of_taken hs]
  rfl

end Component

namespace Scan

theorem recordSection_eq (s : ScanState) (found : Section) :
    ScanState.recordSection s found =
      (s.component.place found).map fun c => { s with component := c } := by
  obtain ⟨⟨m, i, st⟩, html, stack⟩ := s
  unfold ScanState.recordSection Component.place Section.slot
  cases hk : found.kind with
  | style => cases st <;> rfl
  | script =>
    cases hc : found.context with
    | perModule => cases m <;> rfl
    | perInstance => cases i <;> rfl

end Scan

namespace ScanState

/-- The state with more sections and parts of a page. -/
def extend (s : ScanState) (sections : List Section) (parts : List HtmlPart) :
    Except ScanError ScanState :=
  (s.component.placeAll sections).map fun c => { s with component := c, html := s.html ++ parts }

theorem extend_nil (s : ScanState) : s.extend [] [] = .ok s := by
  obtain ⟨component, html, stack⟩ := s
  simp only [extend, List.append_nil]
  rfl

theorem extend_append (s : ScanState) (a b : List Section) (p q : List HtmlPart) :
    s.extend (a ++ b) (p ++ q) =
      (s.extend a p).bind fun u => u.extend b q := by
  simp only [extend, Component.placeAll_append]
  cases s.component.placeAll a with
  | error e => rfl
  | ok c =>
    simp only [← List.append_assoc]
    rfl

theorem extend_stack {s t : ScanState} {a : List Section} {p : List HtmlPart}
    (h : s.extend a p = .ok t) : t.stack = s.stack := by
  obtain ⟨c, -, rfl⟩ := exists_of_map_ok h
  rfl

theorem get_of_extend {s t : ScanState} {a : List Section} {p : List HtmlPart}
    (h : s.extend a p = .ok t) {slot : Slot} (hslot : slot ∉ a.map Section.slot) :
    t.component.get slot = s.component.get slot := by
  obtain ⟨c, hc, rfl⟩ := exists_of_map_ok h
  exact Component.get_of_placeAll hc hslot

end ScanState

end ComponentBuild
