import ComponentBuild.Proofs.Document.Sections
import ComponentBuild.Proofs.Document.Tree

namespace ComponentBuild

open Text (StandsAt)

theorem scan_of_nodup {ns : List Node} (h : ((sectionsAt 0 ns).map Section.slot).Nodup) :
    scan (String.ofList (renderNodes ns)) =
      .ok ⟨.ofSections (sectionsAt 0 ns), htmlParts ns⟩ := by
  rw [scan_renderNodes, Component.placeAll_empty h]
  rfl

theorem scan_of_not_nodup {ns : List Node} (h : ¬ ((sectionsAt 0 ns).map Section.slot).Nodup) :
    ∃ front s back, sectionsAt 0 ns = front ++ s :: back ∧ (front.map Section.slot).Nodup ∧
      s.slot ∈ front.map Section.slot ∧
      scan (String.ofList (renderNodes ns)) = .error ⟨.duplicate s.slot.describe, s.span⟩ := by
  obtain ⟨front, s, back, hsections, hfront, hs⟩ := Component.exists_first_taken h
  refine ⟨front, s, back, hsections, hfront, hs, ?_⟩
  have htaken : ((Component.ofSections front).get s.slot).isSome = true := by
    rw [Component.get_ofSections, List.find?_isSome]
    obtain ⟨t, ht, he⟩ := List.mem_map.1 hs
    exact ⟨t, ht, decide_eq_true he⟩
  rw [scan_renderNodes, hsections,
    Component.placeAll_of_taken (Component.placeAll_empty hfront) htaken]
  rfl

namespace Scan

variable {source : List Char} {s : ScanState} {offset : Nat}

/-- Where a closing tag begins in the content of a script or style, less than the content is
read. -/
theorem rawElement_cut {n : ElementName} {kind : SectionKind} {tag : TagEnd}
    {content rest : List Char} (hname : n.lowered = kind.elementName)
    (hopen : tag.selfClosing = false) (hrest : tag.rest = content ++ '<' :: rest)
    (hcut : EndsRaw kind.elementName.toList content) {u : Step}
    (h : rawElement s offset n.lowered tag = .ok u) :
    ∃ found : Section, found.kind = kind ∧ found.attributes = tag.attributes ∧
      found.content ≠ String.ofList content ∧ recordAtTop s found = .ok u.state := by
  obtain ⟨front, back, hsplit, hlength⟩ := splitAtClosing?_cut hcut rest
  rw [← hrest] at hsplit
  cases hd : back.dropWhile (· != '>') with
  | nil =>
    unfold rawElement at h
    simp [hname, hopen, hsplit, hd] at h
  | cons c after =>
    rw [eq_of_dropWhile_ne hd] at hd
    rw [rawElement_of_split hname hopen hsplit hd] at h
    let stop := tag.stop + Text.byteLength front + Text.byteLength (back.takeWhile (· != '>')) + 1
    let found : Section := ⟨kind, ⟨offset, stop⟩, ⟨tag.stop, tag.stop + Text.byteLength front⟩,
      String.ofList front, tag.attributes⟩
    change (recordAtTop s found).map (Step.mk · stop after) = .ok u at h
    refine ⟨found, rfl, rfl, fun he => ?_, ?_⟩
    · exact absurd (congrArg List.length (String.ofList_injective he)) (Nat.ne_of_lt hlength)
    · obtain ⟨v, hv, rfl⟩ := exists_of_map_ok h
      exact hv

/-- A script or style that is cut takes the slot of the whole one all the same, if that is free. -/
theorem run_cut_found {n : ElementName} {whole : Section} {tag : TagEnd}
    {cs content rest : List Char} {u : ScanState} (hname : n.lowered = whole.kind.elementName)
    (hcontent : whole.content = String.ofList content)
    (hattributes : whole.attributes = tag.attributes) (hopen : tag.selfClosing = false)
    (hrest : tag.rest = content ++ '<' :: rest)
    (hcut : EndsRaw whole.kind.elementName.toList content) (hs : s.stack = [])
    (hfree : s.component.get whole.slot = none)
    (htag : openTag s offset (n.chars ++ cs) = rawElement s offset n.lowered tag)
    (hstands : StandsAt source offset ('<' :: (n.chars ++ cs)))
    (h : run source s offset ('<' :: (n.chars ++ cs)) = .ok u) :
    ∃ found, u.component.get whole.slot = some found ∧ found.attributes = whole.attributes ∧
      found.content ≠ whole.content := by
  rw [run_name] at h
  obtain ⟨v, hv, h⟩ := exists_of_bind_ok h
  have hfollows : v.Follows source s := openTag_follows hv (hstands.drop ['<'])
  rw [htag] at hv
  obtain ⟨found, hkind, hfound, hne, hrecord⟩ := rawElement_cut hname hopen hrest hcut hv
  rw [← hattributes] at hfound
  have hslot : found.slot = whole.slot := Section.slot_congr hkind hfound
  rw [recordAtTop_top hs, Component.place_of_free (hslot ▸ hfree)] at hrecord
  have hget : v.state.component.get found.slot = some found := by
    rw [← Except.ok.inj hrecord, Component.get_set, if_pos rfl]
  -- Whatever is read behind it, the slot keeps what was cut.
  have hkept := run_keeps h hfollows.standsAt hget
  rw [hslot] at hkept
  exact ⟨found, hkept, hfound, hcontent ▸ hne⟩

theorem run_cut (t : SectionTag) {content back : List Char} {u : ScanState}
    (hcut : EndsRaw t.kind.elementName.toList content) (hs : s.stack = [])
    (hfree : s.component.get (t.toSection content offset).slot = none)
    (hstands : StandsAt source offset (t.render content ++ back))
    (h : run source s offset (t.render content ++ back) = .ok u) :
    u.component.get (t.toSection content offset).slot ≠ some (t.toSection content offset) := by
  have htext : t.render content ++ back =
      t.tag.render false ++ (content ++ (t.tag.name.closingTag ++ back)) := by
    simp only [SectionTag.render, List.append_assoc]
  have hraw := @openTag_render s offset t.tag false (content ++ (t.tag.name.closingTag ++ back))
  rw [if_pos t.isSection, OpeningTag.render, List.tail_cons,
    List.append_assoc t.tag.name.chars] at hraw
  rw [htext, OpeningTag.render, List.cons_append, List.append_assoc] at hstands h
  obtain ⟨found, hfound, -, hne⟩ :=
    run_cut_found t.named rfl rfl rfl rfl hcut hs hfree hraw hstands h
  rw [hfound]
  intro he
  exact hne (congrArg Section.content (Option.some.inj he))

end Scan

/-- Behind the nodes of a tree scanning goes on at the top level, with the slots that they leave. -/
theorem exists_run_of_scan {ns : List Node} {rest : List Char} {slot : Slot} {result : ScanResult}
    (h : scan (String.ofList (renderNodes ns ++ rest)) = .ok result)
    (hslot : slot ∉ (sectionsAt 0 ns).map Section.slot) :
    ∃ s t : ScanState, s.stack = [] ∧ s.component.get slot = none ∧
      StandsAt (renderNodes ns ++ rest) (Text.byteLength (renderNodes ns)) rest ∧
      Scan.run (renderNodes ns ++ rest) s (Text.byteLength (renderNodes ns)) rest = .ok t ∧
      result.component = t.component := by
  have hstands := StandsAt.zero (renderNodes ns ++ rest)
  obtain ⟨t, hrun, rfl⟩ := run_of_scan h
  rw [String.toList_ofList, @Scan.run_nodes _ 0 ns ⟨.empty, [], []⟩ rfl _ hstands] at hrun
  obtain ⟨s, hs, hrun⟩ := exists_of_bind_ok hrun
  have hfree : s.component.get slot = none := by
    rw [ScanState.get_of_extend hs hslot, Component.get_empty]
  have hrest := hstands.drop (renderNodes ns)
  rw [Nat.zero_add] at hrest hrun
  exact ⟨s, t, ScanState.extend_stack hs, hfree, hrest, hrun, rfl⟩

theorem scan_of_cut {ns : List Node} {t : SectionTag} {content back : List Char}
    (hcut : Scan.EndsRaw t.kind.elementName.toList content) {s : Section}
    (hs : s = t.toSection content (Text.byteLength (renderNodes ns)))
    (hslot : s.slot ∉ (sectionsAt 0 ns).map Section.slot) {result : ScanResult}
    (h : scan (String.ofList (renderNodes ns ++ (t.render content ++ back))) = .ok result) :
    result.component.get s.slot ≠ some s := by
  obtain ⟨u, v, hstack, hfree, hstands, hrun, hresult⟩ := exists_run_of_scan h hslot
  rw [hresult]
  subst hs
  exact Scan.run_cut t hcut hstack hfree hstands hrun

/-- What scanning finds in the text of a tree. The script and style that stand at the top level are
found in their slots, with their content, their attributes and where they stand, and nothing inside
an element is; the parts of a page are those at the top level, in order. Where the slots do not
suffice, the first section that finds its slot taken is the error. The content of a script or style
in the tree has to be free of the text that `Scan.EndsRaw` names, and no more than that: with such
content in it, an element whose slot is free is not found as it is written, whatever follows. -/
theorem scan_document (ns : List Node) :
    (((sectionsAt 0 ns).map Section.slot).Nodup →
      scan (String.ofList (renderNodes ns)) =
        .ok ⟨.ofSections (sectionsAt 0 ns), htmlParts ns⟩) ∧
    (¬ ((sectionsAt 0 ns).map Section.slot).Nodup →
      ∃ front s back, sectionsAt 0 ns = front ++ s :: back ∧ (front.map Section.slot).Nodup ∧
        s.slot ∈ front.map Section.slot ∧
        scan (String.ofList (renderNodes ns)) = .error ⟨.duplicate s.slot.describe, s.span⟩) ∧
    ∀ (t : SectionTag) (content back : List Char),
      Scan.EndsRaw t.kind.elementName.toList content →
      let s := t.toSection content (Text.byteLength (renderNodes ns))
      s.slot ∉ (sectionsAt 0 ns).map Section.slot →
      ∀ result, scan (String.ofList (renderNodes ns ++ (t.render content ++ back))) = .ok result →
        result.component.get s.slot ≠ some s := by
  refine ⟨scan_of_nodup, scan_of_not_nodup, ?_⟩
  intro t content back hcut s hslot result h
  exact scan_of_cut hcut rfl hslot h

/-- The tag of a script without attributes. -/
def SectionTag.script : SectionTag where
  tag := ⟨⟨'s', "cript".toList, by decide, List.all_eq_true.1 (by decide)⟩, [], [], by simp⟩
  kind := .script
  named := by decide

/-- A script behind an element, two scripts without content, and one whose content has a closing tag
of a longer name: a colon does not keep the name of a closing tag from ending. -/
theorem scan_document_of_scripts :
    scan "é{x}<script>a</script>" =
      .ok ⟨⟨none, some ⟨.script, ⟨5, 23⟩, ⟨13, 14⟩, "a", []⟩, none⟩, []⟩ ∧
    scan "<script/><script/>" =
      .error ⟨.duplicate (Slot.describe .instanceScript), ⟨9, 18⟩⟩ ∧
    Scan.EndsRaw "script".toList "a</script:x>b".toList ∧
      ∃ result, scan "<script>a</script:x>b</script>" = .ok result ∧
        result.component.instanceScript ≠
          some (SectionTag.script.toSection "a</script:x>b".toList 0) := by
  have hcut : Scan.EndsRaw "script".toList "a</script:x>b".toList :=
    ⟨['a'], "script".toList, ":x>b".toList, by decide, by decide, by simp; decide⟩
  have hscan : scan "<script>a</script:x>b</script>" =
      .ok ⟨⟨none, some ⟨.script, ⟨0, 20⟩, ⟨8, 9⟩, "a", []⟩, none⟩, []⟩ := by decide +kernel
  refine ⟨?_, ?_, hcut, _, hscan, ?_⟩
  · have hwhole : ¬ Scan.EndsRaw "script".toList ['a'] := by
      rintro ⟨front, written, back, htext, -⟩
      have hmem : '<' ∈ ['a'] := htext ▸ List.mem_append_right front (.head _)
      exact absurd hmem (by decide)
    have hplain : ∀ c ∈ ['é'], c ≠ '<' ∧ c ≠ '\x7b' := by simp
    have hbalanced : Balanced ['x'] := .plain rfl (by decide) .nil
    exact (scan_document [.text ['é'] hplain, .expression ['x'] hbalanced,
      .raw .script ['a'] hwhole]).1 (List.nodup_singleton _)
  · obtain ⟨front, s, back, hsections, -, hs, herror⟩ :=
      (scan_document [.emptyRaw .script, .emptyRaw .script]).2.1 (by decide)
    cases front with
    | nil => cases hs
    | cons first front =>
      cases front with
      | nil =>
        obtain rfl : SectionTag.script.toEmptySection 9 = s :=
          (List.cons.inj (List.cons.inj hsections).2).1
        exact herror
      | cons _ front =>
        have hlength := congrArg List.length hsections
        simp [sectionsAt, Node.section?] at hlength
  · exact (scan_document []).2.2 SectionTag.script "a</script:x>b".toList [] hcut
      (by simp [sectionsAt]) _ hscan

end ComponentBuild
