import ComponentBuild.Text.Offset
import Mathlib.Data.List.Basic

namespace ComponentBuild.Text

variable {separator : Char}

theorem splitOn_separator (separator : Char) (cs : List Char) :
    splitOn separator (separator :: cs) = [] :: splitOn separator cs := by
  rw [splitOn, if_pos rfl]

theorem splitOn_ne_nil (separator : Char) (cs : List Char) : splitOn separator cs ≠ [] := by
  cases cs with
  | nil => exact List.cons_ne_nil _ _
  | cons c cs =>
    unfold splitOn
    split
    · exact List.cons_ne_nil _ _
    · split <;> exact List.cons_ne_nil _ _

/-- Text without a separator belongs to the first piece of what follows it. -/
theorem splitOn_append {front cs piece : List Char} {pieces : List (List Char)}
    (h : ∀ c ∈ front, c ≠ separator) (hcs : splitOn separator cs = piece :: pieces) :
    splitOn separator (front ++ cs) = (front ++ piece) :: pieces := by
  induction front with
  | nil => exact hcs
  | cons c front ih =>
    obtain ⟨hc, hfront⟩ := List.forall_mem_cons.1 h
    rw [List.cons_append, splitOn, if_neg hc, ih hfront]
    rfl

theorem splitOn_replicate_append (separator : Char) (n : Nat) (cs : List Char) :
    splitOn separator (List.replicate n separator ++ cs) =
      List.replicate n [] ++ splitOn separator cs := by
  induction n with
  | zero => rfl
  | succ n ih =>
    rw [List.replicate_succ, List.cons_append, splitOn_separator, ih]
    rfl

theorem splitOn_of_forall_ne {cs : List Char} (h : ∀ c ∈ cs, c ≠ separator) :
    splitOn separator cs = [cs] := by
  have hnil : splitOn separator [] = [[]] := rfl
  have happend := splitOn_append h hnil
  rwa [List.append_nil] at happend

/-- A separator ends the pieces in front of it. -/
theorem splitOn_append_separator (front back : List Char) :
    splitOn separator (front ++ separator :: back) =
      splitOn separator front ++ splitOn separator back := by
  induction front with
  | nil => exact splitOn_separator separator back
  | cons c front ih =>
    rw [List.cons_append, splitOn, splitOn, ih]
    split
    · rfl
    · obtain ⟨piece, pieces, hpieces⟩ :=
        List.exists_cons_of_ne_nil (splitOn_ne_nil separator front)
      rw [hpieces]
      rfl

/-- Text without a separator belongs to the last piece of what it follows. -/
theorem splitOn_append_of_forall_ne {back : List Char} (h : ∀ c ∈ back, c ≠ separator)
    (cs : List Char) :
    ∃ pieces last, splitOn separator cs = pieces ++ [last] ∧
      splitOn separator (cs ++ back) = pieces ++ [last ++ back] := by
  induction cs with
  | nil => exact ⟨[], [], rfl, splitOn_of_forall_ne h⟩
  | cons c cs ih =>
    obtain ⟨pieces, last, hcs, hback⟩ := ih
    rw [List.cons_append, splitOn, splitOn, hcs, hback]
    split
    · exact ⟨[] :: pieces, last, rfl, rfl⟩
    · cases pieces with
      | nil => exact ⟨[], c :: last, rfl, rfl⟩
      | cons piece pieces => exact ⟨(c :: piece) :: pieces, last, rfl, rfl⟩

theorem intercalate_splitOn (separator : Char) (cs : List Char) :
    [separator].intercalate (splitOn separator cs) = cs := by
  induction cs with
  | nil => rfl
  | cons c cs ih =>
    obtain ⟨piece, pieces, hpieces⟩ := List.exists_cons_of_ne_nil (splitOn_ne_nil separator cs)
    rw [splitOn, hpieces]
    rw [hpieces] at ih
    split
    · next hc =>
      rw [List.intercalate_cons_cons, ih, hc]
      rfl
    · cases pieces with
      | nil =>
        rw [List.intercalate_singleton] at ih ⊢
        rw [ih]
      | cons next pieces =>
        rw [List.intercalate_cons_cons] at ih ⊢
        rw [← ih]
        rfl

theorem not_mem_of_mem_splitOn {cs piece : List Char} (h : piece ∈ splitOn separator cs) :
    separator ∉ piece := by
  induction cs generalizing piece with
  | nil =>
    rw [List.mem_singleton.1 h]
    exact List.not_mem_nil
  | cons c cs ih =>
    obtain ⟨first, rest, hpieces⟩ := List.exists_cons_of_ne_nil (splitOn_ne_nil separator cs)
    rw [splitOn, hpieces] at h
    rw [hpieces] at ih
    split at h
    · rcases List.mem_cons.1 h with rfl | h
      · exact List.not_mem_nil
      · exact ih h
    · next hc =>
      rcases List.mem_cons.1 h with rfl | h
      · exact List.not_mem_cons_of_ne_of_not_mem (Ne.symm hc) (ih List.mem_cons_self)
      · exact ih (List.mem_cons_of_mem _ h)

theorem splitOn_intercalate {pieces : List (List Char)} (hne : pieces ≠ [])
    (h : ∀ piece ∈ pieces, separator ∉ piece) :
    splitOn separator ([separator].intercalate pieces) = pieces := by
  induction pieces with
  | nil => exact absurd rfl hne
  | cons piece pieces ih =>
    obtain ⟨hpiece, hpieces⟩ := List.forall_mem_cons.1 h
    have hone : splitOn separator piece = [piece] :=
      splitOn_of_forall_ne fun c hc heq => hpiece (heq ▸ hc)
    cases pieces with
    | nil => rwa [List.intercalate_singleton]
    | cons next pieces =>
      rw [List.intercalate_cons_cons, List.append_assoc, List.singleton_append,
        splitOn_append_separator, hone, ih (List.cons_ne_nil _ _) hpieces]
      rfl

theorem splitOn_injective {cs ds : List Char} (h : splitOn separator cs = splitOn separator ds) :
    cs = ds := by
  rw [← intercalate_splitOn separator cs, h, intercalate_splitOn]

end ComponentBuild.Text
