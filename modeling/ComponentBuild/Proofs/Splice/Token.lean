import ComponentBuild.Splice
import ComponentBuild.Proofs.Text.Offset
import Mathlib.Data.List.Induction

namespace ComponentBuild.Splice

/-- The start of the token that holds an offset of a text. -/
structure IsTokenOf (text : List Char) (offset start : Nat) : Prop where
  mem : start ∈ tokenStarts 0 none text
  le : start ≤ offset
  greatest : ∀ n ∈ tokenStarts 0 none text, n ≤ offset → n ≤ start

/-- Tokens start in front of the characters that start one behind the character in front of them. -/
theorem mem_tokenStarts {n offset : Nat} {previous : Option Char} {cs : List Char} :
    n ∈ tokenStarts offset previous cs ↔
      ∃ front c back, cs = front ++ c :: back ∧ n = offset + Text.byteLength front ∧
        startsToken (front.getLast?.or previous) c = true := by
  induction cs generalizing offset previous with
  | nil => simp [tokenStarts]
  | cons d ds ih =>
    have hrest : n ∈ tokenStarts (offset + d.utf8Size) (some d) ds ↔
        ∃ front c back, ds = front ++ c :: back ∧
          n = offset + Text.byteLength (d :: front) ∧
          startsToken ((d :: front).getLast?.or previous) c = true := by
      simp only [ih, Text.byteLength_cons, Nat.add_assoc, List.getLast?_cons, Option.some_or,
        Option.or_some]
    have hmem : n ∈ tokenStarts offset previous (d :: ds) ↔
        (n = offset ∧ startsToken previous d = true) ∨
          n ∈ tokenStarts (offset + d.utf8Size) (some d) ds := by
      simp only [tokenStarts]
      split
      next h => simp only [List.mem_cons, h, and_true]
      next h => simp only [h, Bool.false_eq_true, and_false, false_or]
    rw [hmem, hrest]
    constructor
    · rintro (⟨rfl, h⟩ | ⟨front, c, back, rfl, hn, h⟩)
      · exact ⟨[], d, ds, rfl, rfl, h⟩
      · exact ⟨d :: front, c, back, rfl, hn, h⟩
    · rintro ⟨front, c, back, hcs, hn, h⟩
      cases front with
      | nil =>
        obtain ⟨rfl, rfl⟩ := List.cons.inj hcs
        exact .inl ⟨hn, h⟩
      | cons e front =>
        obtain ⟨rfl, rfl⟩ := List.cons.inj hcs
        exact .inr ⟨front, c, back, rfl, hn, h⟩

/-- A character of punctuation is a token of its own. -/
theorem startsToken_of_punctuation (previous : Option Char) {c : Char}
    (hc : classify c = .punctuation) : startsToken previous c = true := by
  cases previous with
  | none => rfl
  | some p => simp [startsToken, hc]

theorem lt_of_mem_tokenStarts {n : Nat} {cs : List Char} (h : n ∈ tokenStarts 0 none cs) :
    n < Text.byteLength cs := by
  obtain ⟨front, c, back, rfl, rfl, -⟩ := mem_tokenStarts.1 h
  have hc := c.utf8Size_pos
  rw [Text.byteLength_append, Text.byteLength_cons]
  omega

theorem zero_mem_tokenStarts {cs : List Char} (h : cs ≠ []) : 0 ∈ tokenStarts 0 none cs := by
  cases cs with
  | nil => exact absurd rfl h
  | cons c cs => exact mem_tokenStarts.2 ⟨[], c, cs, rfl, rfl, rfl⟩

/-- Each place in front of a character is in a token, and no line ends between the start of the
token and the place. -/
theorem exists_isTokenOf (front : List Char) (c : Char) (back : List Char) :
    ∃ start token, front = start ++ token ∧ '\n' ∉ token ∧
      IsTokenOf (front ++ c :: back) (Text.byteLength front) (Text.byteLength start) := by
  induction front using List.reverseRecOn generalizing c back with
  | nil =>
    refine ⟨[], [], rfl, List.not_mem_nil, zero_mem_tokenStarts (List.cons_ne_nil _ _),
      Nat.le_refl _, fun n _ hn => hn⟩
  | append_singleton front d ih =>
    by_cases hstarts : startsToken (some d) c = true
    · refine ⟨front ++ [d], [], (List.append_nil _).symm, List.not_mem_nil, ?_, Nat.le_refl _,
        fun n _ hn => hn⟩
      refine mem_tokenStarts.2 ⟨front ++ [d], c, back, rfl, (Nat.zero_add _).symm, ?_⟩
      rwa [List.getLast?_concat]
    · -- No token starts here, so this is in the token of the character in front.
      have hd : d ≠ '\n' := by
        rintro rfl
        exact hstarts rfl
      obtain ⟨start, token, rfl, hline, hmem, hle, hgreatest⟩ := ih d (c :: back)
      rw [List.append_assoc (start ++ token), List.singleton_append]
      refine ⟨start, token ++ [d], List.append_assoc _ _ _, ?_, hmem, ?_, ?_⟩
      · rw [List.mem_append, List.mem_singleton, not_or]
        exact ⟨hline, Ne.symm hd⟩
      · rw [Text.byteLength_append]
        omega
      · intro n hn hle'
        refine hgreatest n hn ?_
        obtain ⟨x, e, y, hxy, hx, he⟩ := mem_tokenStarts.1 hn
        rw [Nat.zero_add] at hx
        rw [hx] at hle' ⊢
        by_contra hlt
        -- The only boundary left is the one in front of `c`.
        obtain ⟨m, rfl, hm⟩ := Text.exists_middle hxy (by omega)
        cases m with
        | nil =>
          rw [List.append_nil] at hlt
          exact hlt (Nat.le_refl _)
        | cons d' m =>
          obtain ⟨rfl, hrest⟩ := List.cons.inj hm
          simp only [Text.byteLength_append, Text.byteLength_cons, Text.byteLength_nil] at hle'
          obtain rfl := Text.byteLength_eq_zero.1 (show Text.byteLength m = 0 by omega)
          obtain ⟨rfl, -⟩ := List.cons.inj hrest
          rw [List.getLast?_concat] at he
          exact hstarts he

end ComponentBuild.Splice
