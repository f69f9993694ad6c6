import ComponentBuild.Build.Glob
import Mathlib.Data.List.Basic

namespace ComponentBuild.Glob

theorem toList_loop (b : ByteArray) (i : Nat) (bs : List UInt8) :
    ByteArray.toList.loop b i bs = bs.reverse ++ b.data.toList.drop i := by
  induction h : b.size - i generalizing i bs with
  | zero =>
    have hi : b.data.toList.length ≤ i := by
      rw [Array.length_toList]
      exact Nat.le_of_sub_eq_zero h
    rw [ByteArray.toList.loop, if_neg (Nat.not_lt.2 (Nat.le_of_sub_eq_zero h)),
      List.drop_eq_nil_of_le hi, List.append_nil]
  | succ n ih =>
    have hi : i < b.size := by omega
    have hlength : i < b.data.toList.length := hi
    have hget : b.get! i = b.data.toList.get ⟨i, hlength⟩ := by
      change b.data[i]! = _
      rw [getElem!_pos b.data i hi]
      rfl
    rw [ByteArray.toList.loop, if_pos hi, ih (i + 1) _ (by omega), List.reverse_cons,
      List.append_assoc, hget, List.singleton_append]
    exact congrArg _ (List.getElem_cons_drop hlength)

/-- The bytes of a text. -/
def bytesOf (s : String) : List UInt8 := s.toUTF8.toList

theorem bytesOf_eq (s : String) : bytesOf s = s.toByteArray.data.toList :=
  toList_loop s.toUTF8 0 []

theorem bytesOf_append (s t : String) : bytesOf (s ++ t) = bytesOf s ++ bytesOf t := by
  rw [bytesOf_eq, bytesOf_eq, bytesOf_eq, String.toByteArray_append, ByteArray.toList_data_append]

theorem bytesOf_slash : bytesOf "/" = [47] := by
  rw [bytesOf_eq]
  rfl

theorem flatMap_bytes (s : String) : s.toList.flatMap bytes = bytesOf s := by
  obtain ⟨cs, rfl⟩ : ∃ cs, s = String.ofList cs := ⟨s.toList, (String.ofList_toList).symm⟩
  rw [String.toList_ofList]
  induction cs with
  | nil =>
    rw [bytesOf_eq]
    rfl
  | cons c cs ih =>
    rw [List.flatMap_cons, ih, String.ofList_cons, bytesOf_append]
    rfl

/-- A character that stands for itself, other than in a group or a class. -/
def IsLetter (c : Char) : Prop := c ∉ ['?', '*', '[', '\x7b', '\x7d', '\\']

instance (c : Char) : Decidable (IsLetter c) := inferInstanceAs (Decidable (_ ∉ _))

variable {c : Char} {branch : List Token} {cs : List Char}

theorem readTokens_letter (hc : IsLetter c) (fuel : Nat) (previous : Option Char) :
    readTokens (fuel + 1) ⟨[branch], [], previous⟩ (c :: cs) =
      readTokens fuel ⟨[.literal c :: branch], [], some c⟩ cs := by
  unfold IsLetter at hc
  simp only [List.mem_cons, List.not_mem_nil, or_false, not_or] at hc
  obtain ⟨h1, h2, h3, h4, h5, h6⟩ := hc
  by_cases hcomma : c = ','
  · subst hcomma
    rfl
  · rw [readTokens] <;> first | assumption | rfl

theorem readTokens_letters {front : List Char} (h : ∀ c ∈ front, IsLetter c) (cs : List Char)
    (fuel : Nat) (branch : List Token) (previous : Option Char) :
    ∃ last, readTokens (fuel + front.length) ⟨[branch], [], previous⟩ (front ++ cs) =
      readTokens fuel ⟨[(front.map .literal).reverse ++ branch], [], last⟩ cs := by
  induction front generalizing branch previous with
  | nil => exact ⟨previous, rfl⟩
  | cons c front ih =>
    obtain ⟨hc, hfront⟩ := List.forall_mem_cons.1 h
    obtain ⟨last, hlast⟩ := ih hfront (.literal c :: branch) (some c)
    refine ⟨last, (readTokens_letter hc _ previous).trans (hlast.trans ?_)⟩
    rw [List.map_cons, List.reverse_cons, List.append_assoc]
    rfl

/-- Letters, and all that is below them. -/
def below (text : String) : Glob := text.toList.map .literal ++ [.trailingFolders]

theorem parse_below {text : String} (h : ∀ c ∈ text.toList, IsLetter c) :
    parse (text ++ "/**") = .ok (below text) := by
  have hfuel : (text ++ "/**").length + 1 = 4 + text.toList.length := by
    rw [← String.length_toList, String.toList_append, List.length_append, Nat.add_comm 4]
    rfl
  have hend : "/**".toList = ['/', '*', '*'] := rfl
  obtain ⟨last, hread⟩ := readTokens_letters h ['/', '*', '*'] 4 [] none
  unfold parse Reading.start
  rw [hfuel, String.toList_append, hend, hread, List.append_nil, readTokens_letter (by decide)]
  have hstars : readTokens 3 ⟨[.literal '/' :: (text.toList.map .literal).reverse], [], some '/'⟩
      ['*', '*'] = .ok ⟨[.trailingFolders :: (text.toList.map .literal).reverse], [], some '*'⟩ := by
    rfl
  rw [hstars]
  change Except.ok (List.reverse _) = _
  rw [List.reverse_cons, List.reverse_reverse]
  rfl

theorem any_distinct (found : List (List UInt8)) :
    (distinct found).any List.isEmpty = found.any List.isEmpty := by
  induction found with
  | nil => rfl
  | cons r rs ih =>
    change (if (distinct rs).any (·.length == r.length) then distinct rs
      else r :: distinct rs).any List.isEmpty = _
    rw [List.any_cons, ← ih]
    split
    · next hany =>
      cases r with
      | nil =>
        obtain ⟨x, hx, hlength⟩ := List.any_eq_true.1 hany
        have hempty : x = [] := List.length_eq_zero_iff.1 (beq_iff_eq.1 hlength)
        exact (List.any_eq_true.2 ⟨x, hx, List.isEmpty_iff.2 hempty⟩).trans (Bool.true_or _).symm
      | cons b bs => rfl
    · rfl

theorem afterAll_literal (c : Char) (ts : List Token) (bs : List UInt8) :
    (afterAll (.literal c :: ts) bs).any List.isEmpty = true ↔
      ∃ rest, bs = bytes c ++ rest ∧ (afterAll ts rest).any List.isEmpty = true := by
  rw [afterAll, any_distinct, Token.after]
  split
  · next hprefix =>
    obtain ⟨rest, rfl⟩ := List.isPrefixOf_iff_prefix.1 hprefix
    rw [List.flatMap_singleton, List.drop_left]
    constructor
    · exact fun h => ⟨rest, rfl, h⟩
    · rintro ⟨rest', heq, h⟩
      rwa [List.append_cancel_left heq]
  · next hprefix =>
    constructor
    · exact nofun
    · rintro ⟨rest, rfl, -⟩
      exact absurd (List.isPrefixOf_iff_prefix.2 (List.prefix_append _ _)) hprefix

theorem nil_mem_rests (bs : List UInt8) : [] ∈ rests bs := by
  induction bs with
  | nil => exact List.mem_singleton_self _
  | cons b bs ih => exact List.mem_cons_of_mem _ ih

theorem afterAll_trailingFolders (bs : List UInt8) :
    (afterAll [.trailingFolders] bs).any List.isEmpty = true ↔ ∃ rest, bs = 47 :: rest := by
  rw [afterAll, any_distinct, Token.after]
  constructor
  · intro h
    split at h
    · next hhead =>
      obtain ⟨rest, hrest⟩ := List.head?_eq_some_iff.1 hhead
      exact ⟨rest, hrest⟩
    · cases h
  · rintro ⟨rest, rfl⟩
    rw [if_pos List.head?_cons, List.any_eq_true]
    exact ⟨[], List.mem_flatMap.2 ⟨[], nil_mem_rests rest, List.mem_singleton_self _⟩, rfl⟩

theorem afterAll_below (cs : List Char) (bs : List UInt8) :
    (afterAll (cs.map .literal ++ [.trailingFolders]) bs).any List.isEmpty = true ↔
      ∃ rest, bs = cs.flatMap bytes ++ 47 :: rest := by
  induction cs generalizing bs with
  | nil => exact afterAll_trailingFolders bs
  | cons c cs ih =>
    rw [List.map_cons, List.cons_append, afterAll_literal]
    constructor
    · rintro ⟨rest, rfl, h⟩
      obtain ⟨rest', rfl⟩ := (ih rest).1 h
      exact ⟨rest', by rw [List.flatMap_cons, List.append_assoc]⟩
    · rintro ⟨rest, rfl⟩
      exact ⟨cs.flatMap bytes ++ 47 :: rest, by rw [List.flatMap_cons, List.append_assoc],
        (ih _).2 ⟨rest, rfl⟩⟩

/-- The paths that letters take with all that is below them. -/
theorem isMatch_below (text path : String) :
    (below text).isMatch path = true ↔ ∃ rest, path = text ++ "/" ++ rest := by
  have hmatch : (below text).isMatch path =
      (afterAll (text.toList.map .literal ++ [.trailingFolders]) (bytesOf path)).any
        List.isEmpty := by
    unfold below isMatch
    cases text.toList <;> rfl
  rw [hmatch, afterAll_below, flatMap_bytes]
  constructor
  · rintro ⟨rest, hrest⟩
    have hencode : (text ++ "/").toList.utf8Encode ++ ⟨rest.toArray⟩ = path.toList.utf8Encode := by
      rw [String.utf8Encode_toList, String.utf8Encode_toList]
      refine ByteArray.ext (Array.toList_inj.1 ?_)
      rw [ByteArray.toList_data_append, ← bytesOf_eq, ← bytesOf_eq, bytesOf_append, hrest,
        List.append_assoc, bytesOf_slash]
      rfl
    obtain ⟨cs, hcs⟩ := List.isPrefix_of_utf8Encode_append_eq_utf8Encode _ hencode
    refine ⟨String.ofList cs, String.toList_injective ?_⟩
    simp only [← hcs, String.toList_append, String.toList_ofList]
  · rintro ⟨rest, rfl⟩
    refine ⟨bytesOf rest, ?_⟩
    rw [bytesOf_append, bytesOf_append, List.append_assoc, bytesOf_slash]
    rfl

end ComponentBuild.Glob
