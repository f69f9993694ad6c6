import ComponentBuild.Build.Project
import ComponentBuild.Proofs.Files.Joined

namespace ComponentBuild

namespace Path

variable {p q base : Path} {here : FileLocation}

/-- A path that is made of names with one slash between two of them. -/
def IsPlain (p : Path) : Prop := ∀ piece ∈ p.pieces, IsName piece

theorem isName_of_length {piece : List Char} (h : 3 ≤ piece.length) : IsName piece := by
  match piece, h with
  | a :: b :: c :: rest, _ => exact ⟨by simp [isIdle], by simp⟩

theorem not_isAbsolute_iff : p.isAbsolute = false ↔ p.text.toList.head? ≠ some '/' := by
  unfold isAbsolute
  exact beq_eq_false_iff_ne

theorem IsPlain.not_empty (h : p.IsPlain) : p.text.toList ≠ [] := by
  intro hp
  have hmem : [] ∈ p.pieces := by
    unfold pieces
    rw [hp]
    exact List.mem_singleton_self _
  cases (h [] hmem).1

theorem IsPlain.not_isAbsolute (h : p.IsPlain) : p.isAbsolute = false := by
  rw [not_isAbsolute_iff]
  intro hp
  obtain ⟨cs, hcs⟩ := List.head?_eq_some_iff.1 hp
  have hmem : [] ∈ p.pieces := by
    unfold pieces
    rw [hcs, Text.splitOn_separator]
    exact List.mem_cons_self
  cases (h [] hmem).1

theorem IsPlain.components (h : p.IsPlain) :
    p.components = p.pieces.map fun piece => .name (String.ofList piece) := by
  have hnames : (p.pieces.filter (!isIdle ·)).map Component.ofPiece =
      p.pieces.map fun piece => .name (String.ofList piece) := by
    rw [List.filter_eq_self.2 fun piece hpiece => by rw [(h piece hpiece).1]; rfl]
    refine List.map_congr_left fun piece hpiece => ?_
    obtain ⟨hidle, hparent⟩ := h piece hpiece
    have hcurrent : piece ≠ ['.'] := by
      rintro rfl
      cases hidle
    unfold Component.ofPiece
    rw [if_neg hcurrent, if_neg hparent]
  unfold Path.components
  rw [h.not_isAbsolute, if_neg Bool.false_ne_true]
  dsimp only
  split
  · next pieces hpieces =>
    cases (h ['.'] (hpieces ▸ List.mem_cons_self)).1
  · exact hnames

/-- Plain paths that mean the same are the same. -/
theorem IsPlain.sameAs_iff (hp : p.IsPlain) (hq : q.IsPlain) : p.sameAs q = true ↔ p = q := by
  constructor
  · intro h
    have hcomponents := beq_iff_eq.1 h
    rw [hp.components, hq.components] at hcomponents
    have hpieces : p.pieces = q.pieces :=
      List.map_injective_iff.2
        (fun a b hab => String.ofList_injective (Component.name.inj hab)) hcomponents
    obtain ⟨a⟩ := p
    obtain ⟨b⟩ := q
    exact congrArg Path.mk (String.toList_injective (Text.splitOn_injective hpieces))
  · rintro rfl
    exact beq_self_eq_true _

theorem IsPlain.location_join (h : q.IsPlain) (base : Path) :
    (base.join q).location here = base.location here ++ q.pieces.map String.ofList := by
  rw [Path.location_join base h.not_isAbsolute, follow_names h]

/-- More text behind a path below another one. -/
theorem join_append (base : Path) (hq : q.isAbsolute = false) (hne : q.text.toList ≠ [])
    (s : String) :
    (⟨(base.join q).text ++ s⟩ : Path) = base.join ⟨q.text ++ s⟩ := by
  have hqs : (⟨q.text ++ s⟩ : Path).isAbsolute = false := by
    rw [not_isAbsolute_iff] at hq ⊢
    obtain ⟨c, cs, hcs⟩ := List.exists_cons_of_ne_nil hne
    rw [hcs] at hq
    rw [String.toList_append, hcs]
    exact hq
  unfold join
  rw [hq, hqs]
  simp only [Bool.false_or]
  split
  · rfl
  · split
    · rw [String.append_assoc]
    · rw [String.append_assoc, String.append_assoc]

end Path

namespace Project

open Path

/-- What stands behind the name of a document in the names of its output. -/
def outputSuffixes : List String := [".js", ".js.map", ".head.html", ".body.html"]

/-- A file that a document may be built into. -/
def IsOutput (project : Project) (document file : Path) : Prop :=
  ∃ s ∈ outputSuffixes, file = ⟨(project.outDir.join document).text ++ s⟩

variable {project : Project} {document : Path} {compiled : Compiled}

theorem isOutput_of_mem {file : Path × String} (h : file ∈ project.outputs document compiled) :
    project.IsOutput document file.1 := by
  obtain ⟨file, content⟩ := file
  cases compiled with
  | component code map? =>
    cases map? with
    | none =>
      obtain ⟨rfl, -⟩ := Prod.mk.inj (List.mem_singleton.1 h)
      exact ⟨".js", by decide, rfl⟩
    | some map =>
      rcases List.mem_cons.1 h with h | h
      · obtain ⟨rfl, -⟩ := Prod.mk.inj h
        refine ⟨".js.map", by decide, ?_⟩
        rw [String.append_assoc]
        rfl
      · obtain ⟨rfl, -⟩ := Prod.mk.inj (List.mem_singleton.1 h)
        exact ⟨".js", by decide, rfl⟩
  | markup parts =>
    obtain ⟨region, -, h⟩ := List.mem_filterMap.1 h
    obtain ⟨text, -, h⟩ := Option.map_eq_some_iff.1 h
    obtain ⟨rfl, -⟩ := Prod.mk.inj h
    cases region with
    | head => exact ⟨".head.html", by decide, by rw [String.append_assoc, String.append_assoc]; rfl⟩
    | body => exact ⟨".body.html", by decide, by rw [String.append_assoc, String.append_assoc]; rfl⟩

theorem outputSuffixes_spec :
    ∀ s ∈ outputSuffixes, 3 ≤ s.toList.length ∧ '/' ∉ s.toList ∧
      ∀ t ∈ outputSuffixes, s.toList.isSuffixOf t.toList = true → s = t := by
  decide

variable {here : FileLocation} {s t : String} {other : Path}

theorem isPlain_append (h : document.IsPlain) (hs : s ∈ outputSuffixes) :
    (⟨document.text ++ s⟩ : Path).IsPlain := by
  obtain ⟨hlength, hslash, -⟩ := outputSuffixes_spec s hs
  obtain ⟨pieces, last, hpieces, happend⟩ :=
    Text.splitOn_append_of_forall_ne (List.forall_mem_ne'.2 hslash) document.text.toList
  intro piece hpiece
  unfold Path.pieces at hpiece
  rw [String.toList_append, happend] at hpiece
  rcases List.mem_append.1 hpiece with hpiece | hpiece
  · refine h piece ?_
    unfold Path.pieces
    rw [hpieces]
    exact List.mem_append_left _ hpiece
  · rw [List.mem_singleton.1 hpiece]
    exact isName_of_length (by rw [List.length_append]; omega)

/-- Where the output of a document is. -/
theorem location_output (h : document.IsPlain) (hs : s ∈ outputSuffixes) :
    (⟨(project.outDir.join document).text ++ s⟩ : Path).location here =
      project.outDir.location here ++
        (⟨document.text ++ s⟩ : Path).pieces.map String.ofList := by
  rw [join_append _ h.not_isAbsolute h.not_empty, (isPlain_append h hs).location_join]

theorem map_ofList_injective {ps qs : List (List Char)}
    (h : ps.map String.ofList = qs.map String.ofList) : ps = qs :=
  List.map_injective_iff.2 (fun _ _ => String.ofList_injective) h

/-- The output of different documents is in different files. -/
theorem eq_of_location_output (h : document.IsPlain) (hother : other.IsPlain)
    (hs : s ∈ outputSuffixes) (ht : t ∈ outputSuffixes)
    (hlocation : (⟨(project.outDir.join document).text ++ s⟩ : Path).location here =
      (⟨(project.outDir.join other).text ++ t⟩ : Path).location here) :
    document = other ∧ s = t := by
  rw [location_output h hs, location_output hother ht] at hlocation
  have hpieces := map_ofList_injective (List.append_cancel_left hlocation)
  have htext : document.text.toList ++ s.toList = other.text.toList ++ t.toList := by
    have hsplit := Text.splitOn_injective hpieces
    rwa [String.toList_append, String.toList_append] at hsplit
  have hsuffix : s = t := by
    have hleft : s.toList <:+ other.text.toList ++ t.toList := ⟨_, htext⟩
    rcases List.suffix_or_suffix_of_suffix hleft (List.suffix_append _ _) with h | h
    · exact (outputSuffixes_spec s hs).2.2 t ht (List.isSuffixOf_iff_suffix.2 h)
    · exact ((outputSuffixes_spec t ht).2.2 s hs (List.isSuffixOf_iff_suffix.2 h)).symm
  subst hsuffix
  refine ⟨?_, rfl⟩
  obtain ⟨a⟩ := document
  obtain ⟨b⟩ := other
  exact congrArg Path.mk (String.toList_injective (List.append_cancel_right htext))

/-- No document is its own output. -/
theorem location_output_ne (h : document.IsPlain) (hs : s ∈ outputSuffixes) :
    (⟨(project.outDir.join document).text ++ s⟩ : Path).location here ≠
      (project.workspace.join document).location here := by
  obtain ⟨hlength, hslash, -⟩ := outputSuffixes_spec s hs
  obtain ⟨pieces, last, hpieces, happend⟩ :=
    Text.splitOn_append_of_forall_ne (List.forall_mem_ne'.2 hslash) document.text.toList
  intro hlocation
  rw [location_output h hs, h.location_join] at hlocation
  unfold Path.pieces at hlocation
  rw [String.toList_append, hpieces, happend, List.map_append, List.map_append] at hlocation
  have hlast := (List.append_inj' hlocation (by simp)).2
  have hends : last ++ s.toList = last := by simpa using hlast
  rw [List.append_right_eq_self.1 hends] at hlength
  cases hlength

end Project

end ComponentBuild
