import ComponentBuild.Files.Tree
import ComponentBuild.Proofs.Text.Split

namespace ComponentBuild

namespace Path

/-- Where pieces lead from a location. -/
def follow (l : FileLocation) : List (List Char) → FileLocation
  | [] => l
  | piece :: pieces =>
    if isIdle piece then follow l pieces
    else if piece = ['.', '.'] then follow l.dropLast pieces
    else follow (l ++ [String.ofList piece]) pieces

/-- The location that a path spells out. -/
def location (here : FileLocation) (p : Path) : FileLocation :=
  follow (if p.isAbsolute then [] else here) p.pieces

theorem follow_append (l : FileLocation) (ps qs : List (List Char)) :
    follow l (ps ++ qs) = follow (follow l ps) qs := by
  induction ps generalizing l with
  | nil => rfl
  | cons piece ps ih =>
    rw [List.cons_append, follow, follow]
    split
    · exact ih l
    · split <;> exact ih _

/-- Pieces that are names. -/
def IsName (piece : List Char) : Prop := isIdle piece = false ∧ piece ≠ ['.', '.']

theorem follow_names {ps : List (List Char)} (h : ∀ piece ∈ ps, IsName piece) (l : FileLocation) :
    follow l ps = l ++ ps.map String.ofList := by
  induction ps generalizing l with
  | nil => exact (List.append_nil l).symm
  | cons piece ps ih =>
    obtain ⟨⟨hidle, hparent⟩, hps⟩ := List.forall_mem_cons.1 h
    rw [follow, hidle, if_neg Bool.false_ne_true, if_neg hparent, ih hps, List.append_assoc]
    rfl

end Path

def FileEntry.text? : FileEntry → Option String
  | file s => some s
  | folder => none

namespace FileTree

variable {t t' : FileTree} {p : Path} {l : FileLocation} {s : String}

theorem walk_ok {pieces : List (List Char)} {l' : FileLocation} (h : t.walk l pieces = .ok l') :
    l' = Path.follow l pieces := by
  induction pieces generalizing l with
  | nil => exact (Except.ok.inj h).symm
  | cons piece pieces ih =>
    unfold walk at h
    unfold Path.follow
    split at h
    · cases h
    · cases h
    · split at h
      · next hidle =>
        rw [if_pos hidle]
        exact ih h
      · next hidle =>
        rw [if_neg hidle]
        split at h
        · next hparent =>
          rw [if_pos hparent]
          exact ih h
        · next hparent =>
          rw [if_neg hparent]
          exact ih h

theorem locate_ok (h : t.locate p = .ok l) : l = p.location t.here := by
  unfold locate at h
  split at h
  · cases h
  · exact walk_ok h

/-- The text of the file at a location. -/
def fileAt (t : FileTree) (l : FileLocation) : Option String := (t.find? l).bind FileEntry.text?

theorem lookup_filter_ne {entries : List (FileLocation × FileEntry)} {l' : FileLocation}
    (h : l' ≠ l) : (entries.filter (·.1 != l)).lookup l' = entries.lookup l' := by
  induction entries with
  | nil => rfl
  | cons entry entries ih =>
    obtain ⟨k, e⟩ := entry
    rw [List.filter_cons, List.lookup_cons]
    by_cases hk : k = l
    · subst hk
      rw [if_neg (by simp), ih, beq_eq_false_iff_ne.2 h]
    · rw [if_pos (by simpa using hk), List.lookup_cons, ih]

theorem find?_put {e : FileEntry} (hl : l ≠ []) (l' : FileLocation) :
    (t.put l e).find? l' = if l' = l then some e else t.find? l' := by
  cases l' with
  | nil => rw [if_neg (Ne.symm hl)]; rfl
  | cons n ns =>
    change ((l, e) :: t.entries.filter (·.1 != l)).lookup (n :: ns) = _
    rw [List.lookup_cons]
    by_cases h : n :: ns = l
    · rw [if_pos h, h, beq_self_eq_true]
    · rw [if_neg h, beq_eq_false_iff_ne.2 h]
      exact lookup_filter_ne h

theorem fileAt_put {e : FileEntry} (hl : l ≠ []) (l' : FileLocation) :
    (t.put l e).fileAt l' = if l' = l then e.text? else t.fileAt l' := by
  unfold fileAt
  rw [find?_put hl]
  split <;> rfl

theorem read_ok (h : t.read p = .ok s) : t.fileAt (p.location t.here) = some s := by
  unfold read at h
  cases hl : t.locate p with
  | error e =>
    rw [hl] at h
    cases h
  | ok l =>
    rw [hl] at h
    rw [← locate_ok hl]
    unfold fileAt
    cases hfind : t.find? l with
    | none => simp [hfind, bind, Except.bind, throw, throwThe, MonadExceptOf.throw] at h
    | some e =>
      cases e with
      | folder => simp [hfind, bind, Except.bind, throw, throwThe, MonadExceptOf.throw] at h
      | file content =>
        simp only [hfind, bind, Except.bind, pure, Except.pure, Except.ok.injEq] at h
        exact congrArg some h

/-- A file is written where there is no folder. -/
theorem write_put (h : t.write p s = .ok t') :
    t.find? (p.location t.here) ≠ some .folder ∧ t' = t.put (p.location t.here) (.file s) := by
  unfold write at h
  cases hl : t.locate p with
  | error e =>
    rw [hl] at h
    cases h
  | ok l =>
    rw [hl] at h
    rw [← locate_ok hl]
    by_cases hfolder : t.find? l = some .folder
    · simp [hfolder, bind, Except.bind, throw, throwThe, MonadExceptOf.throw] at h
    · simp only [hfolder, bind, Except.bind, pure, Except.pure, if_false, Except.ok.injEq] at h
      exact ⟨hfolder, h.symm⟩

theorem write_ok (h : t.write p s = .ok t') :
    t'.here = t.here ∧
      ∀ l, t'.fileAt l = if l = p.location t.here then some s else t.fileAt l := by
  obtain ⟨hfolder, rfl⟩ := write_put h
  exact ⟨rfl, fileAt_put fun hroot => hfolder (by rw [hroot]; rfl)⟩

/-- A folder is made where there is nothing. -/
theorem makeFolder_put (h : t.makeFolder p = .ok t') :
    t.find? (p.location t.here) = none ∧ t' = t.put (p.location t.here) .folder := by
  unfold makeFolder at h
  cases hl : t.locate p with
  | error e =>
    rw [hl] at h
    cases h
  | ok l =>
    rw [hl] at h
    rw [← locate_ok hl]
    by_cases hsome : (t.find? l).isSome
    · simp [hsome, bind, Except.bind, throw, throwThe, MonadExceptOf.throw] at h
    · simp only [hsome, bind, Except.bind, pure, Except.pure, if_false, Except.ok.injEq,
        Bool.false_eq_true] at h
      exact ⟨Option.not_isSome_iff_eq_none.1 hsome, h.symm⟩

theorem makeFolder_ok (h : t.makeFolder p = .ok t') :
    t'.here = t.here ∧ ∀ l, t'.fileAt l = t.fileAt l := by
  obtain ⟨hnone, rfl⟩ := makeFolder_put h
  have hne : p.location t.here ≠ [] := fun hroot => by
    rw [hroot] at hnone
    cases hnone
  refine ⟨rfl, fun l => ?_⟩
  rw [fileAt_put hne]
  split
  · next hl =>
    unfold fileAt
    rw [hl, hnone]
    rfl
  · rfl

/-- What the making of one folder keeps, the making of folders keeps. -/
theorem makeFolders_keeps {P : FileTree → Prop}
    (hstep : ∀ p t t', t.makeFolder p = .ok t' → P t → P t') {cs : List Path.Component}
    (h : t.makeFolders cs = .ok t') (ht : P t) : P t' := by
  induction cs generalizing t' with
  | nil =>
    cases h
    exact ht
  | cons c cs ih =>
    have hsettle {t u : FileTree} {e : FileError} {b : Bool}
        (h : (if b then .ok t else .error e : Except FileError FileTree) = .ok u) : u = t := by
      cases b <;> cases h
      rfl
    unfold makeFolders at h
    dsimp only at h
    split at h
    · next hmade =>
      cases h
      exact hstep _ _ _ hmade ht
    · split at h
      · cases h
      · next above habove =>
        split at h
        · next hmade =>
          cases h
          exact hstep _ _ _ hmade (ih habove)
        · cases hsettle h
          exact ih habove
    · cases hsettle h
      exact ht

/-- Making folders changes no file. -/
theorem makeFolders_ok {cs : List Path.Component} (h : t.makeFolders cs = .ok t') :
    t'.here = t.here ∧ ∀ l, t'.fileAt l = t.fileAt l :=
  makeFolders_keeps (P := fun u => u.here = t.here ∧ ∀ l, u.fileAt l = t.fileAt l)
    (fun _ _ _ hmade ⟨hhere, hfiles⟩ =>
      ⟨(makeFolder_ok hmade).1.trans hhere, fun l => ((makeFolder_ok hmade).2 l).trans (hfiles l)⟩)
    h ⟨rfl, fun _ => rfl⟩

/-- What holds behind a change that succeeds, and before it, holds behind any try. -/
theorem attempt_keeps {P : FileTree → Prop} {change : FileTree → Except FileError FileTree}
    (ht : P t) (hchange : ∀ t', change t = .ok t' → P t') : P (attempt change t).2 := by
  unfold attempt
  cases h : change t with
  | error e => exact ht
  | ok t' => exact hchange t' h

/-- All that lies above a location is a folder. -/
def Leads (t : FileTree) (l : FileLocation) : Prop :=
  ∀ k < l.length, t.find? (l.take k) = some .folder

theorem Leads.append (h : t.Leads l) (hl : t.find? l = some .folder) (n : String) :
    t.Leads (l ++ [n]) := by
  intro k hk
  rw [List.length_append, List.length_singleton, Nat.lt_succ_iff] at hk
  rw [List.take_append_of_le_length hk]
  rcases Nat.lt_or_eq_of_le hk with hk | rfl
  · exact h k hk
  · rw [List.take_length]
    exact hl

theorem Leads.dropLast (h : t.Leads l) : t.Leads l.dropLast := by
  intro k hk
  rw [List.length_dropLast] at hk
  rw [List.dropLast_eq_take, List.take_take, Nat.min_eq_left (Nat.le_of_lt hk)]
  exact h k (Nat.lt_of_lt_of_le hk (Nat.sub_le _ _))

theorem leads_of_walk {pieces : List (List Char)} {l' : FileLocation} (hl : t.Leads l)
    (h : t.walk l pieces = .ok l') : t.Leads l' := by
  induction pieces generalizing l with
  | nil =>
    cases h
    exact hl
  | cons piece pieces ih =>
    unfold walk at h
    split at h
    · cases h
    · cases h
    · next hfolder =>
      split at h
      · exact ih hl h
      · split at h
        · exact ih hl.dropLast h
        · exact ih (hl.append hfolder _) h

theorem leads_of_locate (hp : p.isAbsolute = true) (h : t.locate p = .ok l) : t.Leads l := by
  unfold locate at h
  split at h
  · cases h
  · have hroot : t.Leads [] := fun k hk => absurd hk (Nat.not_lt_zero k)
    exact leads_of_walk hroot h

/-- Names lead down through folders. -/
theorem walk_names {ps : List (List Char)} (hps : ∀ piece ∈ ps, Path.IsName piece)
    (h : t.Leads (l ++ ps.map String.ofList)) : t.walk l ps = .ok (l ++ ps.map String.ofList) := by
  induction ps generalizing l with
  | nil => exact congrArg _ (List.append_nil l).symm
  | cons piece ps ih =>
    obtain ⟨⟨hidle, hparent⟩, hps⟩ := List.forall_mem_cons.1 hps
    have hfolder : t.find? l = some .folder := by
      have hfind := h l.length (by simp)
      rwa [List.take_left] at hfind
    have hcons : l ++ (piece :: ps).map String.ofList =
        (l ++ [String.ofList piece]) ++ ps.map String.ofList := by
      rw [List.append_assoc]
      rfl
    rw [hcons] at h ⊢
    rw [walk, hfolder, hidle]
    dsimp only
    rw [if_neg Bool.false_ne_true, if_neg hparent]
    exact ih hps h

/-- What is a folder stays one. -/
theorem Leads.mono (h : t.Leads l) (hfolders : ∀ l, t.find? l = some .folder →
    t'.find? l = some .folder) : t'.Leads l :=
  fun k hk => hfolders _ (h k hk)

theorem find?_put_folder {e : FileEntry} (hl : t.find? l ≠ some .folder) {l' : FileLocation}
    (h : t.find? l' = some .folder) : (t.put l e).find? l' = some .folder := by
  have hne : l ≠ [] := fun hroot => hl (by rw [hroot]; rfl)
  have hl' : l' ≠ l := fun heq => hl (heq ▸ h)
  rw [find?_put hne, if_neg hl']
  exact h

end FileTree

end ComponentBuild
