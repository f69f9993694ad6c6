import ComponentBuild.Proofs.Files.Normal

namespace ComponentBuild

namespace Path

open FileTree (pathOf)

variable {p q : Path} {c : Component} {cs stack stack' : List Component}

/-- What can stand behind the start of a path. -/
inductive Component.IsStep : Component → Prop where
  | parent : IsStep .parent
  | name {n : String} (isFileName : IsFileName n) : IsStep (.name n)

theorem isStep_of_mem_steps (p : Path) : ∀ c ∈ p.steps, c.IsStep := by
  intro c hc
  obtain ⟨piece, hpiece, rfl⟩ := List.mem_map.1 hc
  obtain ⟨hmem, hidle⟩ := List.mem_filter.1 hpiece
  have hslash : '/' ∉ (String.ofList piece).toList := by
    rw [String.toList_ofList]
    exact Text.not_mem_of_mem_splitOn hmem
  by_cases hparent : piece = ['.', '.']
  · rw [hparent]
    exact .parent
  · have hname : IsName (String.ofList piece).toList := by
      rw [String.toList_ofList]
      exact ⟨by simpa using hidle, hparent⟩
    have hofPiece := ofPiece_name hname
    rw [String.toList_ofList] at hofPiece
    rw [hofPiece]
    exact .name ⟨hname, hslash⟩

theorem Component.IsStep.isSegment (hc : c.IsStep) : IsSegment c.text := by
  cases hc with
  | parent => exact ⟨by decide, by decide⟩
  | name hn => exact hn.isSegment

theorem Component.IsStep.not_isIdle (hc : c.IsStep) : isIdle c.text.toList = false := by
  cases hc with
  | parent => decide
  | name hn => exact hn.1.1

theorem Component.IsStep.ofPiece_text (hc : c.IsStep) : ofPiece c.text.toList = c := by
  cases hc with
  | parent => decide
  | name hn => exact ofPiece_name hn.1

theorem pieces_text (hc : c.IsStep) : (⟨c.text⟩ : Path).pieces = [c.text.toList] := by
  apply Text.splitOn_of_forall_ne
  intro d hd hslash
  rw [hslash] at hd
  exact hc.isSegment.2 hd

theorem steps_text (hc : c.IsStep) : (⟨c.text⟩ : Path).steps = [c] := by
  simp [steps, pieces_text hc, hc.not_isIdle, hc.ofPiece_text]

theorem start_text (hc : c.IsStep) : (⟨c.text⟩ : Path).start = [] := by
  have hdot : c.text.toList ≠ ['.'] := by
    intro h
    have hidle := hc.not_isIdle
    rw [h] at hidle
    cases hidle
  simp [start, hc.isSegment.not_isAbsolute, pieces_text hc, hdot]

theorem components_join_text (p : Path) (hc : c.IsStep) :
    (p.join ⟨c.text⟩).components = p.components ++ [c] := by
  cases hp : p.text.isEmpty with
  | true =>
    rw [join_of_isEmpty hp, eq_of_isEmpty hp, components_eq, start_text hc, steps_text hc]
    rfl
  | false => rw [components_join hp hc.isSegment.not_isAbsolute, steps_text hc]

/-- Resolved components, the last one first. Parents lie on nothing but parents. -/
inductive IsNormal : List Component → Prop where
  | empty : IsNormal []
  | root : IsNormal [.root]
  | parent {stack : List Component} (parents : ∀ c ∈ stack, c = .parent) :
      IsNormal (.parent :: stack)
  | name {n : String} {stack : List Component} (isFileName : IsFileName n)
      (below : IsNormal stack) : IsNormal (.name n :: stack)

theorem resolveStep_parent (h : ∀ c ∈ stack, c = .parent) :
    resolveStep stack .parent = .parent :: stack := by
  cases stack with
  | nil => rfl
  | cons c stack =>
    obtain rfl := h c List.mem_cons_self
    rfl

theorem IsNormal.step (h : IsNormal stack) (hc : c.IsStep) : IsNormal (resolveStep stack c) := by
  cases hc with
  | name hn =>
    rw [resolveStep_name]
    exact .name hn h
  | parent =>
    cases h with
    | empty => exact .parent (List.forall_mem_nil _)
    | root => exact .root
    | parent parents => exact .parent (List.forall_mem_cons.2 ⟨rfl, parents⟩)
    | name isFileName below => exact below

theorem IsNormal.steps (h : IsNormal stack) (hcs : ∀ c ∈ cs, c.IsStep) :
    IsNormal (cs.foldl resolveStep stack) := by
  induction cs generalizing stack with
  | nil => exact h
  | cons c cs ih =>
    obtain ⟨hc, hcs⟩ := List.forall_mem_cons.1 hcs
    exact ih (h.step hc) hcs

theorem IsNormal.of_parents (h : ∀ c ∈ stack, c = .parent) : IsNormal stack := by
  cases stack with
  | nil => exact .empty
  | cons c stack =>
    obtain ⟨rfl, hstack⟩ := List.forall_mem_cons.1 h
    exact .parent hstack

/-- Names on the root, or on parents. -/
theorem IsNormal.shape (h : IsNormal stack) :
    ∃ names : List String,
      stack = names.map Component.name ++ [.root] ∨
        ∃ count, stack = names.map Component.name ++ List.replicate count .parent := by
  induction h with
  | empty => exact ⟨[], .inr ⟨0, rfl⟩⟩
  | root => exact ⟨[], .inl rfl⟩
  | @parent stack parents =>
    refine ⟨[], .inr ⟨stack.length + 1, ?_⟩⟩
    rw [List.replicate_succ, ← List.eq_replicate_of_mem parents]
    rfl
  | @name n stack isFileName below ih =>
    obtain ⟨names, rfl | ⟨count, rfl⟩⟩ := ih
    · exact ⟨n :: names, .inl rfl⟩
    · exact ⟨n :: names, .inr ⟨count, rfl⟩⟩

theorem IsNormal.resolve (h : IsNormal stack) : stack.reverse.foldl resolveStep [] = stack := by
  -- Not by induction on `h`: that what lies below a parent is normal is no part of it.
  induction stack with
  | nil => rfl
  | cons c stack ih =>
    rw [List.reverse_cons, List.foldl_append]
    cases h with
    | root => rfl
    | parent parents =>
      rw [ih (.of_parents parents)]
      exact resolveStep_parent parents
    | name isFileName below =>
      rw [ih below]
      exact resolveStep_name stack _

theorem ofComponents_push (stack : List Component) (c : Component) :
    ofComponents (c :: stack).reverse = (ofComponents stack.reverse).join ⟨c.text⟩ := by
  rw [List.reverse_cons, ofComponents_concat]

theorem IsNormal.components (h : IsNormal stack) :
    (ofComponents stack.reverse).components = stack.reverse := by
  induction stack with
  | nil => decide
  | cons c stack ih =>
    cases h with
    | root => decide
    | parent parents =>
      rw [ofComponents_push, components_join_text _ .parent, ih (.of_parents parents),
        List.reverse_cons]
    | name isFileName below =>
      rw [ofComponents_push, components_join_text _ (.name isFileName), ih below,
        List.reverse_cons]

/-- The components of a path with their dots resolved, the last one first. -/
def resolved (p : Path) : List Component := p.components.foldl resolveStep []

theorem resolved_eq (p : Path) :
    p.resolved = p.steps.foldl resolveStep (p.start.foldl resolveStep []) := by
  rw [resolved, components_eq, List.foldl_append]

theorem isNormal_start (p : Path) : IsNormal (p.start.foldl resolveStep []) := by
  unfold start
  split
  · exact .root
  · split <;> exact .empty

theorem isNormal_resolved (p : Path) : IsNormal p.resolved := by
  rw [resolved_eq]
  exact (isNormal_start p).steps (isStep_of_mem_steps p)

theorem components_normalize (p : Path) : p.normalize.components = p.resolved.reverse :=
  (isNormal_resolved p).components

theorem resolved_normalize (p : Path) : p.normalize.resolved = p.resolved := by
  rw [resolved, components_normalize, (isNormal_resolved p).resolve]

theorem normalize_congr (h : p.resolved = q.resolved) : p.normalize = q.normalize := by
  show ofComponents p.resolved.reverse = ofComponents q.resolved.reverse
  rw [h]

theorem resolved_join (p : Path) (hq : q.isAbsolute = false) :
    (p.join q).resolved = q.steps.foldl resolveStep p.resolved := by
  cases hp : p.text.isEmpty with
  | true =>
    -- The joined path is `q`, with the `.` that it may start with.
    have hstart : q.start.foldl resolveStep [] = [] := by
      simp only [start, hq, Bool.false_eq_true, if_false]
      split <;> rfl
    rw [join_of_isEmpty hp, eq_of_isEmpty hp, resolved_eq q, hstart]
    rfl
  | false => rw [resolved, components_join hp hq, List.foldl_append, resolved]

theorem normalize_join (p q : Path) : (p.join q).normalize = (p.normalize.join q).normalize := by
  cases hq : q.isAbsolute with
  | true => rw [join_of_isAbsolute p hq, join_of_isAbsolute p.normalize hq]
  | false =>
    apply normalize_congr
    rw [resolved_join p hq, resolved_join p.normalize hq, resolved_normalize]

theorem isAbsolute_normalize (p : Path) : p.normalize.isAbsolute = p.isAbsolute := by
  cases h : p.isAbsolute with
  | true => rw [normalize_of_isAbsolute h [], FileTree.isAbsolute_pathOf]
  | false => exact normalize_not_isAbsolute h

theorem components_normalize_of_isAbsolute (h : p.isAbsolute = true) :
    ∃ names : List String, p.normalize.components = .root :: names.map Component.name := by
  rw [normalize_of_isAbsolute h [], FileTree.components_pathOf (location_isFileName h [])]
  exact ⟨_, rfl⟩

theorem components_normalize_of_not_isAbsolute (h : p.isAbsolute = false) :
    ∃ (count : Nat) (names : List String),
      p.normalize.components = List.replicate count .parent ++ names.map Component.name := by
  obtain ⟨names, hroot | ⟨count, hparents⟩⟩ := (isNormal_resolved p).shape
  · have hcomponents : p.normalize.components = .root :: (names.map Component.name).reverse := by
      rw [components_normalize, hroot]
      simp
    rw [← isAbsolute_normalize, isAbsolute_of_root hcomponents] at h
    cases h
  · refine ⟨count, names.reverse, ?_⟩
    rw [components_normalize, hparents]
    simp

/-- Goes on from a place, its last name first. Nothing lies above the root. -/
def move : List String → Component → List String
  | _, .root => []
  | place, .current => place
  | place, .parent => place.tail
  | place, .name n => n :: place

theorem foldl_move_names (names place : List String) :
    (names.map Component.name).reverse.foldl move place = names ++ place := by
  induction names with
  | nil => rfl
  | cons n names ih =>
    rw [List.map_cons, List.reverse_cons, List.foldl_append, ih]
    rfl

theorem foldl_move_parents (count : Nat) (place : List String) :
    (List.replicate count Component.parent).foldl move place = place.drop count := by
  induction count generalizing place with
  | zero => rfl
  | succ count ih =>
    rw [List.replicate_succ, List.foldl_cons, ih]
    simp [move]

theorem follow_eq_foldl {ps : List (List Char)} (h : ∀ piece ∈ ps, isIdle piece = false)
    (l : FileLocation) :
    (follow l ps).reverse = (ps.map Component.ofPiece).foldl move l.reverse := by
  induction ps generalizing l with
  | nil => rfl
  | cons piece ps ih =>
    obtain ⟨hpiece, hps⟩ := List.forall_mem_cons.1 h
    have hdot : piece ≠ ['.'] := by
      rintro rfl
      cases hpiece
    rw [follow, hpiece, if_neg Bool.false_ne_true, List.map_cons, List.foldl_cons]
    by_cases hparent : piece = ['.', '.']
    · rw [if_pos hparent, ih hps]
      simp [Component.ofPiece, hparent, move]
    · rw [if_neg hparent, ih hps]
      simp [Component.ofPiece, hdot, hparent, move]

/-- A path leads where its components lead, one after the other. -/
theorem location_eq (p : Path) (here : FileLocation) :
    p.location here = (p.components.foldl move here.reverse).reverse := by
  have hidle : ∀ piece ∈ p.pieces.filter (!isIdle ·), isIdle piece = false := by
    intro piece hpiece
    simpa using (List.mem_filter.1 hpiece).2
  have hstart : p.start.foldl move here.reverse = (if p.isAbsolute then [] else here).reverse := by
    unfold start
    split
    · rfl
    · split <;> rfl
  rw [components_eq, List.foldl_append, hstart, steps, ← follow_eq_foldl hidle, follow_filter,
    List.reverse_reverse, location]

/-- Resolving a component changes nothing about where components lead. -/
theorem foldl_move_resolveStep (stack : List Component) (c : Component) (place : List String) :
    (resolveStep stack c).reverse.foldl move place = move (stack.reverse.foldl move place) c := by
  have hpush : (c :: stack).reverse.foldl move place =
      move (stack.reverse.foldl move place) c := by
    simp
  -- A parent takes back the name in front of it, and does not leave the root.
  unfold resolveStep
  split
  · rfl
  · simp [move]
  · simp [move]
  · exact hpush

theorem foldl_move_foldl_resolveStep (cs stack : List Component) (place : List String) :
    (cs.foldl resolveStep stack).reverse.foldl move place =
      cs.foldl move (stack.reverse.foldl move place) := by
  induction cs generalizing stack with
  | nil => rfl
  | cons c cs ih => rw [List.foldl_cons, ih, foldl_move_resolveStep, List.foldl_cons]

theorem foldl_move_resolved (p : Path) (place : List String) :
    p.resolved.reverse.foldl move place = p.components.foldl move place :=
  foldl_move_foldl_resolveStep p.components [] place

/-- Components in normal form are told by where they lead. -/
theorem IsNormal.ext (h : IsNormal stack) (h' : IsNormal stack')
    (hplaces : ∀ place, stack.reverse.foldl move place = stack'.reverse.foldl move place) :
    stack = stack' := by
  have hroot (names place : List String) :
      (names.map Component.name ++ [Component.root]).reverse.foldl move place = names := by
    rw [List.reverse_append, List.foldl_append, foldl_move_names]
    exact List.append_nil names
  have hparents (names place : List String) (count : Nat) :
      (names.map Component.name ++ List.replicate count Component.parent).reverse.foldl move
        place = names ++ place.drop count := by
    rw [List.reverse_append, List.foldl_append, List.reverse_replicate, foldl_move_parents,
      foldl_move_names]
  -- Names are told from the root, and parents from a place deeper than all of them lead up.
  obtain ⟨names, rfl | ⟨count, rfl⟩⟩ := h.shape <;>
    obtain ⟨names', rfl | ⟨count', rfl⟩⟩ := h'.shape
  · have hnames := hplaces []
    simp only [hroot] at hnames
    rw [hnames]
  · have hlow := congrArg List.length (hplaces [])
    have hdeep := congrArg List.length (hplaces (List.replicate (count' + 1) ""))
    simp only [hroot, hparents, List.length_append, List.length_drop, List.length_nil,
      List.length_replicate] at hlow hdeep
    omega
  · have hlow := congrArg List.length (hplaces [])
    have hdeep := congrArg List.length (hplaces (List.replicate (count + 1) ""))
    simp only [hroot, hparents, List.length_append, List.length_drop, List.length_nil,
      List.length_replicate] at hlow hdeep
    omega
  · have hnames := hplaces []
    simp only [hparents, List.drop_nil, List.append_nil] at hnames
    have hdeep := congrArg List.length (hplaces (List.replicate (count + count') ""))
    simp only [hparents, hnames, List.length_append, List.length_drop,
      List.length_replicate] at hdeep
    have hcount : count = count' := by omega
    rw [hnames, hcount]

/-- Paths that lead to the same places, wherever they start, have one normal form. -/
theorem normalize_eq_iff :
    p.normalize = q.normalize ↔ ∀ here, p.location here = q.location here := by
  constructor
  · intro h here
    have hresolved : p.resolved = q.resolved := by
      rw [← resolved_normalize, h, resolved_normalize]
    rw [location_eq, location_eq, ← foldl_move_resolved, ← foldl_move_resolved, hresolved]
  · intro h
    apply normalize_congr
    apply (isNormal_resolved p).ext (isNormal_resolved q)
    intro place
    have hplace := h place.reverse
    rw [location_eq, location_eq, List.reverse_reverse] at hplace
    rw [foldl_move_resolved, foldl_move_resolved, List.reverse_injective hplace]

/-- Goes on from a resolved path, whose own last component tells what a parent does. -/
def extend (done : Path) : Component → Path
  | .current => done
  | .parent =>
    match done.components.getLast? with
    | some (.name _) => done.parent?.getD done
    | some .root => done
    | _ => done.join ⟨Component.parent.text⟩
  | c => done.join ⟨c.text⟩

theorem IsNormal.extend (h : IsNormal stack) (hc : c.IsStep) :
    (ofComponents stack.reverse).extend c = ofComponents (resolveStep stack c).reverse := by
  cases hc with
  | name hn =>
    rw [resolveStep_name, ofComponents_push]
    rfl
  | parent =>
    have hlast : (ofComponents stack.reverse).components.getLast? = stack.head? := by
      rw [h.components, List.getLast?_reverse]
    cases h with
    | empty => decide
    | root => decide
    | parent parents =>
      simp only [Path.extend, hlast, List.head?_cons]
      rw [resolveStep_parent (List.forall_mem_cons.2 ⟨rfl, parents⟩)]
      exact (ofComponents_push _ _).symm
    | @name n stack isFileName below =>
      have hcomponents := (IsNormal.name isFileName below).components
      simp only [Path.extend, parent?, hcomponents]
      simp [resolveStep]

theorem IsNormal.foldl_extend (h : IsNormal stack) (hcs : ∀ c ∈ cs, c.IsStep) :
    cs.foldl Path.extend (ofComponents stack.reverse) =
      ofComponents (cs.foldl resolveStep stack).reverse := by
  induction cs generalizing stack with
  | nil => rfl
  | cons c cs ih =>
    obtain ⟨hc, hcs⟩ := List.forall_mem_cons.1 hcs
    rw [List.foldl_cons, h.extend hc, ih (h.step hc) hcs, List.foldl_cons]

theorem normalize_eq_foldl (p : Path) : p.normalize = p.components.foldl extend ⟨""⟩ := by
  have hstart : p.start.foldl extend ⟨""⟩ =
      ofComponents (p.start.foldl resolveStep []).reverse := by
    unfold start
    split
    · decide
    · split <;> decide
  have hsteps := (isNormal_start p).foldl_extend (isStep_of_mem_steps p)
  rw [components_eq, List.foldl_append, hstart, hsteps, ← resolved_eq]
  rfl

/-- Resolving gives a path its one normal form, whatever the path is put together from. -/
theorem one_normal_form (p q : Path) :
    p.normalize.normalize = p.normalize ∧
      Component.current ∉ p.normalize.components ∧
      (p.normalize.isAbsolute = true → Component.parent ∉ p.normalize.components) ∧
      (p.normalize.isAbsolute = false → ∃ (count : Nat) (names : List String),
        p.normalize.components = List.replicate count .parent ++ names.map Component.name) ∧
      (p.join q).normalize = (p.normalize.join q).normalize ∧
      (p.isAbsolute = true → p.normalize = pathOf (p.components.foldl move []).reverse) ∧
      p.normalize = p.components.foldl extend ⟨""⟩ ∧
      (p.normalize = q.normalize ↔ ∀ here, p.location here = q.location here) := by
  refine ⟨normalize_congr (resolved_normalize p), ?_, ?_, ?_, normalize_join p q, ?_,
    normalize_eq_foldl p, normalize_eq_iff⟩
  · cases h : p.isAbsolute with
    | true =>
      obtain ⟨names, hcomponents⟩ := components_normalize_of_isAbsolute h
      simp [hcomponents]
    | false =>
      obtain ⟨count, names, hcomponents⟩ := components_normalize_of_not_isAbsolute h
      simp [hcomponents]
  · intro h
    rw [isAbsolute_normalize] at h
    obtain ⟨names, hcomponents⟩ := components_normalize_of_isAbsolute h
    simp [hcomponents]
  · intro h
    rw [isAbsolute_normalize] at h
    exact components_normalize_of_not_isAbsolute h
  · intro h
    rw [normalize_of_isAbsolute h [], location_eq]
    rfl

/-- A path that goes up beyond the root, and one that goes up beyond where it starts. -/
theorem one_normal_form_of_parents :
    (⟨"/a/./../..//b/c/.."⟩ : Path).isAbsolute = true ∧
      (⟨"/a/./../..//b/c/.."⟩ : Path).normalize.isAbsolute = true ∧
      Component.parent ∉ (⟨"/a/./../..//b/c/.."⟩ : Path).normalize.components ∧
      (⟨"/a/./../..//b/c/.."⟩ : Path).normalize = pathOf ["b"] ∧
      (⟨"./a/../..//b/"⟩ : Path).normalize.isAbsolute = false ∧
      (∃ (count : Nat) (names : List String), (⟨"./a/../..//b/"⟩ : Path).normalize.components =
        List.replicate count .parent ++ names.map Component.name) ∧
      (⟨"./a/../..//b/../../c"⟩ : Path).normalize = (⟨"../b/../../c"⟩ : Path).normalize := by
  have habsolute : (⟨"/a/./../..//b/c/.."⟩ : Path).isAbsolute = true := by decide
  have hnormal : (⟨"/a/./../..//b/c/.."⟩ : Path).normalize.isAbsolute = true := by decide
  have hrelative : (⟨"./a/../..//b/"⟩ : Path).normalize.isAbsolute = false := by decide
  obtain ⟨-, -, hparent, -, -, hplace, -⟩ := one_normal_form ⟨"/a/./../..//b/c/.."⟩ ⟨"d"⟩
  obtain ⟨-, -, -, hshape, hjoin, -⟩ := one_normal_form ⟨"./a/../..//b/"⟩ ⟨"../../c"⟩
  refine ⟨habsolute, hnormal, hparent hnormal, ?_, hrelative, hshape hrelative, hjoin⟩
  exact hplace habsolute

end Path

end ComponentBuild
