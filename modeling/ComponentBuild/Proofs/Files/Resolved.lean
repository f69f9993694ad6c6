import ComponentBuild.Proofs.Files.Location

namespace ComponentBuild

namespace Path

variable {p q base : Path} {here : FileLocation}

theorem follow_filter (l : FileLocation) (ps : List (List Char)) :
    follow l (ps.filter (!isIdle ·)) = follow l ps := by
  induction ps generalizing l with
  | nil => rfl
  | cons piece ps ih =>
    rw [List.filter_cons]
    cases hidle : isIdle piece with
    | true =>
      rw [Bool.not_true, if_neg Bool.false_ne_true, follow, hidle, if_pos rfl]
      exact ih l
    | false =>
      rw [Bool.not_false, if_pos rfl, follow, follow, hidle, if_neg Bool.false_ne_true]
      split <;> exact ih _

theorem dropPieces_idle {piece : List Char} (h : isIdle piece = true) (n : Nat)
    (ps : List (List Char)) : dropPieces n (piece :: ps) = dropPieces n ps := by
  rw [dropPieces.eq_def]
  dsimp only
  rw [if_pos h]

theorem dropPieces_zero {piece : List Char} (h : isIdle piece = false) (ps : List (List Char)) :
    dropPieces 0 (piece :: ps) = piece :: ps := by
  rw [dropPieces.eq_def]
  dsimp only
  rw [h, if_neg Bool.false_ne_true]

theorem dropPieces_succ {piece : List Char} (h : isIdle piece = false) (n : Nat)
    (ps : List (List Char)) : dropPieces (n + 1) (piece :: ps) = dropPieces n ps := by
  rw [dropPieces.eq_def]
  dsimp only
  rw [h, if_neg Bool.false_ne_true]

theorem dropPieces_nil (n : Nat) : dropPieces n [] = [] := by
  cases n <;> rfl

theorem filter_dropPieces (n : Nat) (ps : List (List Char)) :
    (dropPieces n ps).filter (!isIdle ·) = (ps.filter (!isIdle ·)).drop n := by
  induction ps generalizing n with
  | nil => rw [dropPieces_nil, List.filter_nil, List.drop_nil]
  | cons piece ps ih =>
    cases hidle : isIdle piece with
    | true =>
      rw [dropPieces_idle hidle, List.filter_cons, hidle, Bool.not_true, if_neg Bool.false_ne_true]
      exact ih n
    | false =>
      cases n with
      | zero => rw [dropPieces_zero hidle, List.drop_zero]
      | succ n =>
        rw [dropPieces_succ hidle, List.filter_cons, hidle, Bool.not_false, if_pos rfl]
        exact ih n

theorem filter_trimPieces (ps : List (List Char)) :
    (trimPieces ps).filter (!isIdle ·) = ps.filter (!isIdle ·) := by
  have hdrop (qs : List (List Char)) :
      (qs.dropWhile isIdle).filter (!isIdle ·) = qs.filter (!isIdle ·) := by
    induction qs with
    | nil => rfl
    | cons piece qs ih =>
      rw [List.dropWhile_cons, List.filter_cons]
      cases hidle : isIdle piece with
      | true => exact ih
      | false => rw [if_neg Bool.false_ne_true, List.filter_cons, hidle]
  unfold trimPieces
  rw [List.filter_reverse, hdrop, ← List.filter_reverse, List.reverse_reverse]

theorem components_of_isAbsolute (h : p.isAbsolute = true) :
    p.components = .root :: (p.pieces.filter (!isIdle ·)).map Component.ofPiece := by
  unfold components
  rw [h]
  rfl

theorem ofPiece_eq_name {piece : List Char} {n : String} :
    Component.ofPiece piece = .name n → piece = n.toList := by
  unfold Component.ofPiece
  split
  · exact nofun
  · split
    · exact nofun
    · intro h
      rw [← Component.name.inj h, String.toList_ofList]

theorem ofPiece_ne_root (piece : List Char) : Component.ofPiece piece ≠ .root := by
  unfold Component.ofPiece
  split
  · exact nofun
  · split <;> exact nofun

theorem isAbsolute_of_root {cs : List Component} (h : p.components = .root :: cs) :
    p.isAbsolute = true := by
  cases habsolute : p.isAbsolute with
  | true => rfl
  | false =>
    have hrest (ps : List (List Char)) :
        (ps.filter (!isIdle ·)).map Component.ofPiece ≠ .root :: cs := by
      intro heq
      obtain ⟨piece, ps', -, hpiece, -⟩ := List.map_eq_cons_iff.1 heq
      exact ofPiece_ne_root piece hpiece
    unfold components at h
    rw [habsolute, if_neg Bool.false_ne_true] at h
    dsimp only at h
    split at h
    · cases h
    · exact absurd h (hrest _)

/-- A name that a file can have. -/
def IsFileName (n : String) : Prop := IsName n.toList ∧ '/' ∉ n.toList

theorem ofPiece_name {n : String} (h : IsName n.toList) : Component.ofPiece n.toList = .name n := by
  have hcurrent : n.toList ≠ ['.'] := fun hn => by
    have hidle := h.1
    rw [hn] at hidle
    cases hidle
  unfold Component.ofPiece
  rw [if_neg hcurrent, if_neg h.2, String.ofList_toList]

variable {l : FileLocation}

theorem isName_of_mem (hl : ∀ n ∈ l, IsFileName n) : ∀ piece ∈ l.map String.toList, IsName piece :=
  List.forall_mem_map.2 fun n hn => (hl n hn).1

theorem not_slash_of_mem (hl : ∀ n ∈ l, IsFileName n) :
    ∀ piece ∈ l.map String.toList, '/' ∉ piece :=
  List.forall_mem_map.2 fun n hn => (hl n hn).2

theorem filter_names {ps : List (List Char)} (h : ∀ piece ∈ ps, IsName piece) :
    ps.filter (!isIdle ·) = ps :=
  List.filter_eq_self.2 fun piece hpiece => by rw [(h piece hpiece).1]; rfl

theorem map_ofList_toList (l : FileLocation) : (l.map String.toList).map String.ofList = l := by
  rw [List.map_map]
  exact List.map_id'' (fun n => String.ofList_toList) l

theorem isFileName_of_follow {l : FileLocation} {ps : List (List Char)}
    (hl : ∀ n ∈ l, IsFileName n) (hps : ∀ piece ∈ ps, '/' ∉ piece) :
    ∀ n ∈ follow l ps, IsFileName n := by
  induction ps generalizing l with
  | nil => exact hl
  | cons piece ps ih =>
    obtain ⟨hpiece, hps⟩ := List.forall_mem_cons.1 hps
    rw [follow]
    split
    · exact ih hl hps
    · next hidle =>
      split
      · exact ih (fun n hn => hl n (List.dropLast_subset l hn)) hps
      · next hparent =>
        refine ih (fun n hn => ?_) hps
        rcases List.mem_append.1 hn with hn | hn
        · exact hl n hn
        · rw [List.mem_singleton.1 hn]
          unfold IsFileName IsName
          rw [String.toList_ofList]
          exact ⟨⟨Bool.eq_false_iff.2 hidle, hparent⟩, hpiece⟩

end Path

namespace FileTree

open Path

variable {l base : FileLocation}

theorem isAbsolute_pathOf (l : FileLocation) : (pathOf l).isAbsolute = true := by
  unfold pathOf isAbsolute
  rw [String.toList_append]
  rfl

theorem pieces_pathOf (hne : l ≠ []) (hl : ∀ piece ∈ l.map String.toList, '/' ∉ piece) :
    (pathOf l).pieces = [] :: l.map String.toList := by
  unfold pathOf pieces
  rw [String.toList_append, String.toList_intercalate]
  change Text.splitOn '/' ('/' :: ['/'].intercalate (l.map String.toList)) = _
  rw [Text.splitOn_separator, Text.splitOn_intercalate (by simpa using hne) hl]

theorem dropPieces_names (n : Nat) (hl : ∀ m ∈ l, IsFileName m) :
    dropPieces n (l.map String.toList) = (l.drop n).map String.toList := by
  induction l generalizing n with
  | nil => rw [List.drop_nil, List.map_nil, dropPieces_nil]
  | cons m l ih =>
    obtain ⟨hm, hl⟩ := List.forall_mem_cons.1 hl
    rw [List.map_cons]
    cases n with
    | zero => rw [dropPieces_zero hm.1.1, List.drop_zero, List.map_cons]
    | succ n => rw [dropPieces_succ hm.1.1, List.drop_succ_cons, ih n hl]

theorem trimPieces_names (hl : ∀ m ∈ l, IsFileName m) :
    trimPieces (l.map String.toList) = l.map String.toList := by
  unfold trimPieces
  rw [← List.map_reverse]
  cases hreverse : l.reverse with
  | nil =>
    rw [List.reverse_eq_nil_iff.1 hreverse]
    rfl
  | cons m ms =>
    have hm : m ∈ l := List.mem_reverse.1 (hreverse ▸ List.mem_cons_self)
    rw [List.map_cons, List.dropWhile_cons_of_neg (by rw [(hl m hm).1.1]; exact Bool.false_ne_true),
      ← List.map_cons, ← hreverse, ← List.map_reverse, List.reverse_reverse]

theorem filter_pieces_pathOf (hl : ∀ n ∈ l, IsFileName n) :
    (pathOf l).pieces.filter (!isIdle ·) = l.map String.toList := by
  by_cases hne : l = []
  · subst hne
    rfl
  · rw [pieces_pathOf hne (not_slash_of_mem hl), List.filter_cons_of_neg (by decide), filter_names (isName_of_mem hl)]

theorem components_pathOf (hl : ∀ n ∈ l, IsFileName n) :
    (pathOf l).components = .root :: l.map Component.name := by
  rw [components_of_isAbsolute (isAbsolute_pathOf l), filter_pieces_pathOf hl, List.map_map]
  exact congrArg _ (List.map_congr_left fun n hn => ofPiece_name (hl n hn).1)

theorem isPrefixOf_components (hl : ∀ n ∈ l, IsFileName n) (hbase : ∀ n ∈ base, IsFileName n) :
    (pathOf base).components.isPrefixOf (pathOf l).components = base.isPrefixOf l := by
  rw [components_pathOf hl, components_pathOf hbase, Bool.eq_iff_iff, List.isPrefixOf_iff_prefix,
    List.isPrefixOf_iff_prefix, List.cons_prefix_cons, and_iff_right rfl]
  exact List.prefix_map_iff_of_injective fun m n => Component.name.inj

/-- What is left of a location below another one. -/
theorem below?_pathOf (hl : ∀ n ∈ l, IsFileName n) (hbase : ∀ n ∈ base, IsFileName n) :
    (pathOf l).below? (pathOf base) =
      if base.isPrefixOf l then some (ofPieces ((l.drop base.length).map String.toList))
      else none := by
  have hlength : (pathOf base).components.length - 1 = base.length := by
    rw [components_pathOf hbase, List.length_cons, List.length_map]
    rfl
  unfold below?
  rw [isPrefixOf_components hl hbase, hlength]
  by_cases hne : l = []
  · subst hne
    split
    · next hprefix =>
      rw [List.prefix_nil.1 (List.isPrefixOf_iff_prefix.1 hprefix)]
      rfl
    · rfl
  · rw [pieces_pathOf hne (not_slash_of_mem hl), dropPieces_idle (by decide), dropPieces_names _ hl,
      trimPieces_names fun m hm => hl m (List.drop_subset _ _ hm)]

theorem location_pathOf {here : FileLocation} (hl : ∀ n ∈ l, IsFileName n) :
    (pathOf l).location here = l := by
  unfold location
  rw [isAbsolute_pathOf, if_pos rfl, ← follow_filter, filter_pieces_pathOf hl,
    follow_names (isName_of_mem hl), map_ofList_toList, List.nil_append]

/-- Where folders lead, the path from the root on leads. -/
theorem locate_pathOf {t : FileTree} (hl : ∀ n ∈ l, IsFileName n) (h : t.Leads l) :
    t.locate (pathOf l) = .ok l := by
  have hempty : (pathOf l).text.isEmpty = false := by
    rw [← Bool.not_eq_true]
    intro hempty
    have habsolute := isAbsolute_pathOf l
    unfold isAbsolute at habsolute
    rw [String.isEmpty_iff.1 hempty] at habsolute
    cases habsolute
  unfold locate
  rw [hempty, if_neg Bool.false_ne_true, isAbsolute_pathOf, if_pos rfl]
  by_cases hne : l = []
  · subst hne
    rfl
  · rw [pieces_pathOf hne (not_slash_of_mem hl)]
    have hwalk := walk_names (t := t) (l := []) (isName_of_mem hl)
    rw [map_ofList_toList] at hwalk
    exact hwalk h

end FileTree

end ComponentBuild
