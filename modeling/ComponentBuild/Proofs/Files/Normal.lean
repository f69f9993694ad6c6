import Mathlib.Data.List.Induction
import ComponentBuild.Proofs.Files.Joined

namespace ComponentBuild

namespace Path

open FileTree (pathOf)

/-- What can stand between two slashes. -/
def IsSegment (n : String) : Prop := n.toList ≠ [] ∧ '/' ∉ n.toList

variable {p q : Path} {l : FileLocation}

theorem IsFileName.isSegment {n : String} (h : IsFileName n) : IsSegment n := by
  refine ⟨fun hnil => ?_, h.2⟩
  have hidle := h.1.1
  rw [hnil] at hidle
  cases hidle

theorem IsSegment.not_isAbsolute {n : String} (h : IsSegment n) :
    (⟨n⟩ : Path).isAbsolute = false := by
  unfold isAbsolute
  rw [beq_eq_false_iff_ne]
  intro hhead
  exact h.2 (List.mem_of_mem_head? hhead)

theorem getLast?_pathOf (l : FileLocation) {n : String} (hn : n.toList ≠ []) :
    (pathOf (l ++ [n])).text.toList.getLast? = n.toList.getLast? := by
  obtain ⟨front, hfront⟩ : ∃ front, (pathOf (l ++ [n])).text.toList = front ++ n.toList := by
    unfold pathOf
    by_cases hl : l = []
    · rw [hl, List.nil_append, String.intercalate_singleton, String.toList_append]
      exact ⟨_, rfl⟩
    · rw [String.intercalate_append_of_ne_nil hl (List.cons_ne_nil _ _),
        String.intercalate_singleton, ← String.append_assoc, String.toList_append]
      exact ⟨_, rfl⟩
  rw [hfront, List.getLast?_append_of_ne_nil _ hn]

theorem join_pathOf (hl : ∀ n ∈ l, IsSegment n) {n : String} (hn : IsSegment n) :
    (pathOf l).join ⟨n⟩ = pathOf (l ++ [n]) := by
  have hempty : (pathOf l).text.isEmpty = false := by
    rw [Bool.eq_false_iff]
    intro h
    have hlist := String.toList_eq_nil_iff.2 (String.isEmpty_iff.1 h)
    unfold pathOf at hlist
    rw [String.toList_append] at hlist
    cases hlist
  unfold join
  rw [hn.not_isAbsolute, hempty, Bool.or_self, if_neg Bool.false_ne_true]
  rcases List.eq_nil_or_concat' l with rfl | ⟨front, last, rfl⟩
  · have hslash : (pathOf []).text.toList.getLast? = some '/' := by decide
    rw [hslash, if_pos (beq_self_eq_true _)]
    unfold pathOf
    rw [List.nil_append, String.intercalate_nil, String.intercalate_singleton, String.append_empty]
  · have hlast := hl last (List.mem_append_right _ (List.mem_singleton_self _))
    have hslash : (pathOf (front ++ [last])).text.toList.getLast? ≠ some '/' := by
      rw [getLast?_pathOf front hlast.1]
      exact fun h => hlast.2 (List.mem_of_getLast? h)
    rw [if_neg (by simpa using hslash)]
    unfold pathOf
    have hne : front ++ [last] ≠ [] := List.append_ne_nil_of_right_ne_nil _ (List.cons_ne_nil _ _)
    rw [String.intercalate_append_of_ne_nil hne (List.cons_ne_nil _ _),
      String.intercalate_singleton]
    simp only [String.append_assoc]

theorem ofComponents_root {cs : List Component} (h : ∀ c ∈ cs, IsSegment c.text) :
    ofComponents (.root :: cs) = pathOf (cs.map Component.text) := by
  induction cs using List.reverseRecOn with
  | nil => rfl
  | append_singleton cs c ih =>
    have hcs : ∀ d ∈ cs, IsSegment d.text := fun d hd => h d (List.mem_append_left _ hd)
    have hc := h c (List.mem_append_right _ (List.mem_singleton_self c))
    rw [← List.cons_append, ofComponents_concat, ih hcs,
      join_pathOf (List.forall_mem_map.2 hcs) hc, List.map_append, List.map_singleton]

theorem resolveStep_name (stack : List Component) (n : String) :
    resolveStep stack (.name n) = .name n :: stack := by
  rcases stack with _ | ⟨c, stack⟩
  · rfl
  · cases c <;> rfl

/-- Resolving components from the root on follows their pieces. -/
theorem foldl_resolveStep {ps : List (List Char)} (h : ∀ piece ∈ ps, isIdle piece = false)
    (l : FileLocation) :
    (ps.map Component.ofPiece).foldl resolveStep ((l.map Component.name).reverse ++ [.root]) =
      ((follow l ps).map Component.name).reverse ++ [.root] := by
  induction ps generalizing l with
  | nil => rfl
  | cons piece ps ih =>
    obtain ⟨hpiece, hps⟩ := List.forall_mem_cons.1 h
    rw [List.map_cons, List.foldl_cons, follow, hpiece, if_neg Bool.false_ne_true]
    by_cases hparent : piece = ['.', '.']
    · rw [if_pos hparent, ← ih hps, hparent]
      congr 1
      rcases List.eq_nil_or_concat' l with rfl | ⟨front, last, rfl⟩
      · rfl
      · simp [Component.ofPiece, resolveStep]
    · have hname : Component.ofPiece piece = .name (String.ofList piece) := by
        have hn : IsName (String.ofList piece).toList := by
          rw [String.toList_ofList]
          exact ⟨hpiece, hparent⟩
        have hofPiece := ofPiece_name hn
        rwa [String.toList_ofList] at hofPiece
      rw [if_neg hparent, ← ih hps, hname]
      congr 1
      rw [List.map_append, List.reverse_append, resolveStep_name]
      rfl

theorem location_isFileName (h : p.isAbsolute = true) (here : FileLocation) :
    ∀ n ∈ p.location here, IsFileName n := by
  unfold location
  rw [h, if_pos rfl]
  exact isFileName_of_follow (List.forall_mem_nil _) fun _ hpiece =>
    Text.not_mem_of_mem_splitOn hpiece

/-- A path from the root on is resolved to the path of its location. -/
theorem normalize_of_isAbsolute (h : p.isAbsolute = true) (here : FileLocation) :
    p.normalize = pathOf (p.location here) := by
  have hidle : ∀ piece ∈ p.pieces.filter (!isIdle ·), isIdle piece = false := by
    intro piece hpiece
    simpa using (List.mem_filter.1 hpiece).2
  have hresolved := foldl_resolveStep hidle []
  have hlocation : follow [] (p.pieces.filter (!isIdle ·)) = p.location here := by
    rw [follow_filter, location, h, if_pos rfl]
  rw [hlocation] at hresolved
  unfold normalize
  rw [components_of_isAbsolute h, List.foldl_cons]
  have hstart : resolveStep [] .root = ([] : FileLocation).map Component.name ++ [.root] := rfl
  rw [hstart]
  rw [List.map_nil, List.reverse_nil] at hresolved
  rw [List.map_nil, hresolved, List.reverse_append, List.reverse_reverse]
  change ofComponents (.root :: (p.location here).map Component.name) = _
  rw [ofComponents_root, List.map_map]
  · exact congrArg pathOf (List.map_id _)
  · intro c hc
    obtain ⟨n, hn, rfl⟩ := List.mem_map.1 hc
    exact (location_isFileName h here n hn).isSegment

theorem sameAs_normalize_iff (hp : p.isAbsolute = true) (hq : q.isAbsolute = true)
    (here : FileLocation) :
    p.normalize.sameAs q.normalize = true ↔ p.location here = q.location here := by
  have hnames := location_isFileName hp here
  have hnames' := location_isFileName hq here
  rw [normalize_of_isAbsolute hp here, normalize_of_isAbsolute hq here, sameAs, beq_iff_eq,
    FileTree.components_pathOf hnames, FileTree.components_pathOf hnames', List.cons.injEq,
    and_iff_right rfl]
  exact (List.map_injective_iff.2 fun m n => Component.name.inj).eq_iff

theorem join_not_isAbsolute (hp : p.isAbsolute = false) (hq : q.isAbsolute = false) :
    (p.join q).isAbsolute = false := by
  cases hempty : p.text.isEmpty with
  | true => rw [join_of_isEmpty hempty, hq]
  | false => rw [isAbsolute_join_relative hempty hq, hp]

theorem ofComponents_not_isAbsolute {cs : List Component}
    (h : ∀ c ∈ cs, (⟨c.text⟩ : Path).isAbsolute = false) : (ofComponents cs).isAbsolute = false := by
  cases cs with
  | nil => rfl
  | cons c cs =>
    obtain ⟨hc, hcs⟩ := List.forall_mem_cons.1 h
    change (List.foldl _ (⟨c.text⟩ : Path) cs).isAbsolute = false
    generalize (⟨c.text⟩ : Path) = p at hc ⊢
    induction cs generalizing p with
    | nil => exact hc
    | cons d cs ih =>
      obtain ⟨hd, hcs⟩ := List.forall_mem_cons.1 hcs
      exact ih (List.forall_mem_cons.2 ⟨h _ List.mem_cons_self, hcs⟩) hcs _
        (join_not_isAbsolute hc hd)

theorem mem_resolveStep {stack : List Component} {c d : Component}
    (h : d ∈ resolveStep stack c) : d ∈ stack ∨ d = c := by
  unfold resolveStep at h
  split at h
  · exact .inl h
  · exact .inl (List.mem_cons_of_mem _ h)
  · exact .inl h
  · rcases List.mem_cons.1 h with h | h
    · exact .inr h
    · exact .inl h

theorem mem_foldl_resolveStep {cs stack : List Component} {c : Component}
    (h : c ∈ cs.foldl resolveStep stack) : c ∈ stack ∨ c ∈ cs := by
  induction cs generalizing stack with
  | nil => exact .inl h
  | cons d cs ih =>
    rcases ih h with h | h
    · rcases mem_resolveStep h with h | rfl
      · exact .inl h
      · exact .inr List.mem_cons_self
    · exact .inr (List.mem_cons_of_mem _ h)

theorem text_ofPiece (piece : List Char) : (Component.ofPiece piece).text.toList = piece := by
  unfold Component.ofPiece
  split
  next h => exact h.symm
  next =>
    split
    next h => exact h.symm
    next => exact String.toList_ofList

theorem isSegment_ofPiece {piece : List Char} (h : piece ∈ p.pieces.filter (!isIdle ·)) :
    IsSegment (Component.ofPiece piece).text := by
  obtain ⟨hmem, hidle⟩ := List.mem_filter.1 h
  unfold IsSegment
  rw [text_ofPiece]
  refine ⟨?_, Text.not_mem_of_mem_splitOn hmem⟩
  rintro rfl
  cases hidle

theorem text_of_mem_components (hp : p.isAbsolute = false) {c : Component}
    (hc : c ∈ p.components) : (⟨c.text⟩ : Path).isAbsolute = false := by
  have hrest : ∀ ps, ps ⊆ p.pieces → c ∈ (ps.filter (!isIdle ·)).map Component.ofPiece →
      (⟨c.text⟩ : Path).isAbsolute = false := by
    intro ps hps hc
    obtain ⟨piece, hpiece, rfl⟩ := List.mem_map.1 hc
    obtain ⟨hmem, hidle⟩ := List.mem_filter.1 hpiece
    have hsegment := isSegment_ofPiece (List.mem_filter.2 ⟨hps hmem, hidle⟩)
    exact hsegment.not_isAbsolute
  unfold components at hc
  rw [hp, if_neg Bool.false_ne_true] at hc
  dsimp only at hc
  split at hc
  next pieces hpieces =>
    rcases List.mem_cons.1 hc with rfl | hc
    · rfl
    · refine hrest pieces ?_ hc
      rw [hpieces]
      exact List.subset_cons_self _ _
  next => exact hrest _ (List.Subset.refl _) hc

theorem normalize_not_isAbsolute (h : p.isAbsolute = false) : p.normalize.isAbsolute = false := by
  refine ofComponents_not_isAbsolute fun c hc => ?_
  rcases mem_foldl_resolveStep (List.mem_reverse.1 hc) with hc | hc
  · cases hc
  · exact text_of_mem_components h hc

/-- A path from the root on never means the same as another one. -/
theorem sameAs_of_isAbsolute (hp : p.isAbsolute = true) (hq : q.isAbsolute = false) :
    p.sameAs q = false := by
  rw [sameAs, components_of_isAbsolute hp, beq_eq_false_iff_ne]
  intro h
  rw [isAbsolute_of_root h.symm] at hq
  cases hq

theorem location_pathOf_segments (hl : ∀ n ∈ l, IsSegment n) (here : FileLocation) :
    (pathOf l).location here = follow [] (l.map String.toList) := by
  unfold location
  rw [FileTree.isAbsolute_pathOf, if_pos rfl]
  by_cases hne : l = []
  · subst hne
    rfl
  · rw [FileTree.pieces_pathOf hne (List.forall_mem_map.2 fun n hn => (hl n hn).2)]
    rfl

theorem parent?_of_pieces (hp : p.isAbsolute = true) {front : List (List Char)}
    {piece : List Char} (h : p.pieces.filter (!isIdle ·) = front ++ [piece]) :
    p.parent? = some (pathOf (front.map fun piece => (Component.ofPiece piece).text)) := by
  have hcomponents : p.components =
      (.root :: front.map Component.ofPiece) ++ [Component.ofPiece piece] := by
    rw [components_of_isAbsolute hp, h, List.map_append]
    rfl
  have hsegments : ∀ c ∈ front.map Component.ofPiece, IsSegment c.text := by
    refine List.forall_mem_map.2 fun piece hpiece => isSegment_ofPiece (p := p) ?_
    rw [h]
    exact List.mem_append_left _ hpiece
  unfold parent?
  rw [hcomponents, List.getLast?_concat, List.dropLast_concat, ofComponents_root hsegments,
    List.map_map]
  have hroot := ofPiece_ne_root piece
  split
  next hlast => cases hlast
  next hlast => exact absurd (Option.some.inj hlast) hroot
  next => rfl

/-- The parent of a path from the root on leads where all but the last of its pieces lead. -/
theorem location_parent? (hp : p.isAbsolute = true) (h : p.parent? = some q) (here : FileLocation) :
    q.isAbsolute = true ∧
      q.location here = follow [] (p.pieces.filter (!isIdle ·)).dropLast := by
  rcases List.eq_nil_or_concat' (p.pieces.filter (!isIdle ·)) with hps | ⟨front, piece, hps⟩
  · unfold parent? at h
    rw [components_of_isAbsolute hp, hps] at h
    cases h
  · rw [parent?_of_pieces hp hps] at h
    obtain rfl := Option.some.inj h
    refine ⟨FileTree.isAbsolute_pathOf _, ?_⟩
    rw [location_pathOf_segments, List.map_map, hps, List.dropLast_concat]
    · exact congrArg (follow []) ((List.map_congr_left fun piece _ => text_ofPiece piece).trans
        (List.map_id front))
    · refine List.forall_mem_map.2 fun piece hpiece => isSegment_ofPiece (p := p) ?_
      rw [hps]
      exact List.mem_append_left _ hpiece

/-- The folder of a file is one name above it. -/
theorem location_parent?_of_fileName? (hp : p.isAbsolute = true) {n : String}
    (hn : p.fileName? = some n) (here : FileLocation) :
    ∃ folder, p.parent? = some folder ∧ folder.location here = (p.location here).dropLast := by
  rcases List.eq_nil_or_concat' (p.pieces.filter (!isIdle ·)) with hps | ⟨front, piece, hps⟩
  · unfold fileName? at hn
    rw [components_of_isAbsolute hp, hps] at hn
    cases hn
  · have hparent := parent?_of_pieces hp hps
    refine ⟨_, hparent, ?_⟩
    have hpiece : IsName piece := by
      have hmem : piece ∈ p.pieces.filter (!isIdle ·) := by
        rw [hps]
        exact List.mem_append_right _ (List.mem_singleton_self _)
      refine ⟨by simpa using (List.mem_filter.1 hmem).2, ?_⟩
      rintro rfl
      unfold fileName? at hn
      rw [components_of_isAbsolute hp, hps, List.map_append, List.map_singleton,
        ← List.cons_append, List.getLast?_concat] at hn
      cases hn
    have hlocation : p.location here = follow [] (front ++ [piece]) := by
      rw [location, hp, if_pos rfl, ← hps, follow_filter]
    have hnames : follow (follow [] front) [piece] = follow [] front ++ [String.ofList piece] :=
      follow_names (List.forall_mem_singleton.2 hpiece) _
    rw [(location_parent? hp hparent here).2, hps, List.dropLast_concat, hlocation, follow_append,
      hnames, List.dropLast_concat]

end Path

end ComponentBuild
