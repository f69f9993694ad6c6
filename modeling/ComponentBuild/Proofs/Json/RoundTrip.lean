import ComponentBuild.Json.Reader
import ComponentBuild.Json.Writer
import Mathlib.Data.List.Basic

namespace ComponentBuild.Json

mutual

/-- Whether a value nests at most so deep and has only numbers written with digits alone. -/
def FitsDepth (depth : Nat) : Json → Prop
  | .null | .bool _ | .string _ => True
  | .number (.natural _) => True
  | .number (.other _) => False
  | .array items => depth ≠ 0 ∧ ItemsFitDepth (depth - 1) items
  | .object fields => depth ≠ 0 ∧ FieldsFitDepth (depth - 1) fields

def ItemsFitDepth (depth : Nat) : List Json → Prop
  | [] => True
  | v :: vs => FitsDepth depth v ∧ ItemsFitDepth depth vs

def FieldsFitDepth (depth : Nat) : List (String × Json) → Prop
  | [] => True
  | (_, v) :: vs => FitsDepth depth v ∧ FieldsFitDepth depth vs

end

theorem itemsFitDepth_iff {depth : Nat} {items : List Json} :
    ItemsFitDepth depth items ↔ ∀ v ∈ items, FitsDepth depth v := by
  induction items with
  | nil => simp [ItemsFitDepth]
  | cons v vs ih => rw [ItemsFitDepth, ih, List.forall_mem_cons]

theorem fieldsFitDepth_iff {depth : Nat} {fields : List (String × Json)} :
    FieldsFitDepth depth fields ↔ ∀ f ∈ fields, FitsDepth depth f.2 := by
  induction fields with
  | nil => simp [FieldsFitDepth]
  | cons f fs ih => rw [FieldsFitDepth, ih, List.forall_mem_cons]

theorem hexDigit?_hexChar : ∀ n < 16, hexDigit? (hexChar n) = some n := by decide

theorem hex4?_hexChar {n : Nat} (h : n < 256) :
    hex4? '0' '0' (hexChar (n / 16)) (hexChar (n % 16)) = some n := by
  have hhigh := hexDigit?_hexChar (n / 16) (by omega)
  have hlow := hexDigit?_hexChar (n % 16) (by omega)
  have hzero : hexDigit? '0' = some 0 := by decide
  simp only [hex4?, hzero, hhigh, hlow, bind, Option.bind, pure, Option.some.injEq]
  omega

theorem readString_plain {c : Char} (hquote : c ≠ '"') (hslash : c ≠ '\\') (hlow : ¬ c.val < 0x20)
    (rest : List Char) :
    readString (c :: rest) = (readString rest).map fun (s, r) => (c :: s, r) := by
  rw [readString.eq_def]
  split
  · contradiction
  · rename_i h
    exact absurd (List.cons.inj h).1 hquote
  · rename_i h
    exact absurd (List.cons.inj h).1 hslash
  · rename_i h
    exact absurd (List.cons.inj h).1 hslash
  · rename_i h
    obtain ⟨rfl, rfl⟩ := List.cons.inj h
    rw [if_neg (by simp [hlow, hslash])]

/-- One character of a string is read back from its escape. -/
theorem readString_escape (c : Char) (rest : List Char) :
    readString (escape c ++ rest) = (readString rest).map fun (s, r) => (c :: s, r) := by
  unfold escape
  split_ifs with h1 h2 h3 h4 h5 h6 h7 h8
  · subst h1; rfl
  · subst h2; rfl
  · subst h3; rfl
  · subst h4; rfl
  · subst h5; rfl
  · subst h6; rfl
  · subst h7; rfl
  · have hsmall : c.toNat < 32 := h8
    have hhigh : isHighSurrogate c.toNat = false := by
      simp only [isHighSurrogate, Bool.and_eq_false_iff, decide_eq_false_iff_not]
      omega
    have hlow : isLowSurrogate c.toNat = false := by
      simp only [isLowSurrogate, Bool.and_eq_false_iff, decide_eq_false_iff_not]
      omega
    have hhex := hex4?_hexChar (by omega : c.toNat < 256)
    simp only [List.cons_append, List.nil_append, readString, hhex, hhigh, hlow, Char.ofNat_toNat,
      Bool.false_eq_true, if_false]
  · exact readString_plain h1 h2 h8 rest

theorem readString_quote (s rest : List Char) :
    readString (s.flatMap escape ++ '"' :: rest) = some (s, rest) := by
  induction s with
  | nil => rfl
  | cons c s ih => rw [List.flatMap_cons, List.append_assoc, readString_escape, ih, Option.map_some]

/-- Whether a text behind a number cannot be taken for more of it. -/
def EndsNumber (rest : List Char) : Prop :=
  ∀ c ∈ rest.head?, c.isDigit = false ∧ c ≠ '.' ∧ c ≠ 'e' ∧ c ≠ 'E'

theorem readFraction_ends {rest : List Char} (h : EndsNumber rest) :
    readFraction rest = some ([], rest) := by
  unfold readFraction
  split
  next r => exact absurd rfl (h '.' rfl).2.1
  next => rfl

theorem readExponent_ends {rest : List Char} (h : EndsNumber rest) :
    readExponent rest = some ([], rest) := by
  cases rest with
  | nil => rfl
  | cons c r =>
    obtain ⟨_, _, he, hE⟩ := h c rfl
    simp only [readExponent, he, hE, or_self, if_false]

theorem natOfDigits_toDigits (n : Nat) : natOfDigits (Nat.toDigits 10 n) = n := by
  have hstep : (fun n d => n * 10 + (d.toNat - '0'.toNat)) =
      fun (sofar : Nat) (c : Char) => 10 * sofar + (c.toNat - '0'.toNat) := by
    funext n d
    rw [Nat.mul_comm]
  rw [natOfDigits, hstep, ← Nat.ofDigitChars_eq_foldl, Nat.ofDigitChars_ten_toDigits]

theorem head?_toDigits {n : Nat} (h : 0 < n) : (Nat.toDigits 10 n).head? ≠ some '0' := by
  induction n using Nat.strongRecOn with
  | ind n ih =>
    by_cases hn : n < 10
    · have hall : ∀ n < 10, 0 < n → (Nat.toDigits 10 n).head? ≠ some '0' := by decide
      exact hall n hn h
    · rw [Nat.toDigits_of_base_le (by decide) (by omega),
        List.head?_append_of_ne_nil _ Nat.toDigits_ne_nil]
      exact ih (n / 10) (by omega) (by omega)

theorem toDigits_leading {n : Nat} (h : 1 < (Nat.toDigits 10 n).length) :
    (Nat.toDigits 10 n).head? ≠ some '0' := by
  apply head?_toDigits
  by_contra hn
  obtain rfl : n = 0 := by omega
  exact absurd h (by decide)

theorem takeWhile_digits (n : Nat) {rest : List Char} (h : EndsNumber rest) :
    (Nat.toDigits 10 n ++ rest).takeWhile Char.isDigit = Nat.toDigits 10 n ∧
      (Nat.toDigits 10 n ++ rest).dropWhile Char.isDigit = rest := by
  have hdigits : ∀ c ∈ Nat.toDigits 10 n, c.isDigit = true := fun c hc =>
    Nat.isDigit_of_mem_toDigits (by decide) (by decide) hc
  have hrest : rest.takeWhile Char.isDigit = [] ∧ rest.dropWhile Char.isDigit = rest := by
    cases rest with
    | nil => exact ⟨rfl, rfl⟩
    | cons c r =>
      have hc := (h c rfl).1
      simp [hc]
  rw [List.takeWhile_append_of_pos hdigits, List.dropWhile_append_of_pos hdigits, hrest.1, hrest.2]
  exact ⟨List.append_nil _, rfl⟩

theorem exists_toDigits (n : Nat) : ∃ d ds, Nat.toDigits 10 n = d :: ds ∧ d.isDigit = true := by
  obtain ⟨d, ds, hdigits⟩ := List.exists_cons_of_ne_nil (Nat.toDigits_ne_nil (n := n) (b := 10))
  have hd : d ∈ Nat.toDigits 10 n := by
    rw [hdigits]
    exact List.mem_cons_self ..
  exact ⟨d, ds, hdigits, Nat.isDigit_of_mem_toDigits (by decide) (by decide) hd⟩

theorem isBlank_of_isDigit {d : Char} (hd : d.isDigit = true) : isBlank d = false := by
  rw [Bool.eq_false_iff]
  intro hblank
  have hcases : d = ' ' ∨ d = '\n' ∨ d = '\r' ∨ d = '\t' := by
    simpa only [isBlank, Bool.or_eq_true, beq_iff_eq, or_assoc] using hblank
  rcases hcases with rfl | rfl | rfl | rfl <;> exact absurd hd (by decide)

theorem readNumber_natural (n : Nat) {rest : List Char} (h : EndsNumber rest) :
    readNumber (Nat.toDigits 10 n ++ rest) = some (.natural n, rest) := by
  obtain ⟨htake, hdrop⟩ := takeWhile_digits n h
  have hzero : ¬ ((Nat.toDigits 10 n).isEmpty = true ∨
      (1 < (Nat.toDigits 10 n).length ∧ (Nat.toDigits 10 n).head? = some '0')) := by
    rintro (hempty | ⟨hlength, hhead⟩)
    · exact Nat.toDigits_ne_nil (List.isEmpty_iff.1 hempty)
    · exact toDigits_leading hlength hhead
  unfold readNumber
  split
  next negative unsigned heq =>
    split at heq
    next r hr =>
      -- A minus is no digit.
      obtain ⟨d, ds, hdigits, hd⟩ := exists_toDigits n
      rw [hdigits] at hr
      rw [(List.cons.inj hr).1] at hd
      exact absurd hd (by decide)
    next =>
      cases heq
      simp only [htake, hdrop, readFraction_ends h, readExponent_ends h, bind, Option.bind,
        gt_iff_lt, hzero, if_false, pure, Bool.not_false, List.isEmpty_nil, Bool.and_self, if_true,
        natOfDigits_toDigits]

theorem skipBlanks_cons {c : Char} (h : isBlank c = false) (cs : List Char) :
    skipBlanks (c :: cs) = c :: cs := by
  rw [skipBlanks, List.dropWhile_cons_of_neg (by simp [h])]

theorem endsNumber_cons {c : Char} (h : c = ',' ∨ c = ']' ∨ c = '\x7d') (cs : List Char) :
    EndsNumber (c :: cs) := by
  intro d hd
  cases hd
  rcases h with rfl | rfl | rfl <;> decide

theorem endsNumber_writeItems (vs : List Json) (rest : List Char) :
    EndsNumber (writeItems vs ++ rest) := by
  cases vs with
  | nil => exact endsNumber_cons (.inr (.inl rfl)) _
  | cons v vs => exact endsNumber_cons (.inl rfl) _

theorem endsNumber_writeFields (fs : List (String × Json)) (rest : List Char) :
    EndsNumber (writeFields fs ++ rest) := by
  cases fs with
  | nil => exact endsNumber_cons (.inr (.inr rfl)) _
  | cons f fs => exact endsNumber_cons (.inl rfl) _

/-- A value starts with no blank and with nothing that ends an array. -/
theorem write_head {depth : Nat} {v : Json} (h : FitsDepth depth v) :
    ∃ c cs, write v = c :: cs ∧ isBlank c = false ∧ c ≠ ']' := by
  cases v with
  | null => exact ⟨'n', _, rfl, by decide, by decide⟩
  | bool b =>
    cases b
    · exact ⟨'f', _, rfl, by decide, by decide⟩
    · exact ⟨'t', _, rfl, by decide, by decide⟩
  | number n =>
    cases n with
    | natural n =>
      obtain ⟨d, ds, hdigits, hd⟩ := exists_toDigits n
      refine ⟨d, ds, hdigits, isBlank_of_isDigit hd, ?_⟩
      rintro rfl
      exact absurd hd (by decide)
    | other text => exact h.elim
  | string s => exact ⟨'"', _, rfl, by decide, by decide⟩
  | array items =>
    cases items with
    | nil => exact ⟨'[', _, rfl, by decide, by decide⟩
    | cons v vs => exact ⟨'[', _, rfl, by decide, by decide⟩
  | object fields =>
    cases fields with
    | nil => exact ⟨'\x7b', _, rfl, by decide, by decide⟩
    | cons f fs => exact ⟨'\x7b', _, rfl, by decide, by decide⟩

/-- With so much fuel, what is no longer than the fuel is read back from its text, and what stands
behind it is left. -/
structure ReadsBack (fuel : Nat) : Prop where
  value : ∀ v depth rest, FitsDepth depth v → (write v).length ≤ fuel → EndsNumber rest →
    readValue fuel depth (write v ++ rest) = some (v, rest)
  items : ∀ v vs depth rest, ItemsFitDepth depth (v :: vs) →
    (write v ++ writeItems vs).length ≤ fuel →
    readItems fuel depth (write v ++ (writeItems vs ++ rest)) = some (v :: vs, rest)
  fields : ∀ name v fs depth rest, FieldsFitDepth depth ((name, v) :: fs) →
    (quote name ++ ':' :: (write v ++ writeFields fs)).length ≤ fuel →
    readFields fuel depth (quote name ++ ':' :: (write v ++ (writeFields fs ++ rest))) =
      some ((name, v) :: fs, rest)

theorem readValue_string (fuel depth : Nat) (s : String) (rest : List Char) :
    readValue (fuel + 1) depth (quote s ++ rest) = some (.string s, rest) := by
  have hquote : quote s ++ rest = '"' :: (s.toList.flatMap escape ++ '"' :: rest) := by
    simp only [quote, List.cons_append, List.append_assoc, List.nil_append]
  simp only [hquote, readValue, skipBlanks_cons (by decide : isBlank '"' = false), readString_quote,
    Option.map_some, String.ofList_toList]

theorem readValue_digit (fuel depth : Nat) {d : Char} (hd : d.isDigit = true) (cs : List Char) :
    readValue (fuel + 1) depth (d :: cs) =
      (readNumber (d :: cs)).map fun (n, r) => (.number n, r) := by
  rw [readValue, skipBlanks_cons (isBlank_of_isDigit hd)]
  split
  all_goals try rfl
  all_goals
    rename_i heq
    rw [(List.cons.inj heq).1] at hd
    exact absurd hd (by decide)

theorem readValue_number (fuel depth n : Nat) {rest : List Char} (h : EndsNumber rest) :
    readValue (fuel + 1) depth (Nat.toDigits 10 n ++ rest) = some (.number (.natural n), rest) := by
  have hread := readNumber_natural n h
  obtain ⟨d, ds, hdigits, hd⟩ := exists_toDigits n
  rw [hdigits, List.cons_append] at hread ⊢
  rw [readValue_digit fuel depth hd, hread, Option.map_some]

theorem readValue_array (fuel : Nat) {depth : Nat} (hdepth : depth ≠ 0) {c : Char}
    (hblank : isBlank c = false) (hc : c ≠ ']') (cs : List Char) :
    readValue (fuel + 1) depth ('[' :: c :: cs) =
      (readItems fuel (depth - 1) (c :: cs)).map fun (xs, r) => (.array xs, r) := by
  simp only [readValue, skipBlanks_cons (by decide : isBlank '[' = false), if_neg hdepth,
    skipBlanks_cons hblank]
  split
  next r hr => exact absurd (List.cons.inj hr).1 hc
  next => rfl

theorem readValue_object (fuel : Nat) {depth : Nat} (hdepth : depth ≠ 0) (cs : List Char) :
    readValue (fuel + 1) depth ('\x7b' :: '"' :: cs) =
      (readFields fuel (depth - 1) ('"' :: cs)).map fun (xs, r) => (.object xs, r) := by
  simp only [readValue, skipBlanks_cons (by decide : isBlank '\x7b' = false), if_neg hdepth,
    skipBlanks_cons (by decide : isBlank '"' = false)]
  rfl

namespace ReadsBack

variable {fuel : Nat}

theorem succ_value (h : ReadsBack fuel) (v : Json) (depth : Nat) (rest : List Char)
    (hv : FitsDepth depth v) (hfuel : (write v).length ≤ fuel + 1) (hrest : EndsNumber rest) :
    readValue (fuel + 1) depth (write v ++ rest) = some (v, rest) := by
  cases v with
  | null => rfl
  | bool b => cases b <;> rfl
  | number n =>
    cases n with
    | natural n => exact readValue_number fuel depth n hrest
    | other text => exact hv.elim
  | string s => exact readValue_string fuel depth s rest
  | array items =>
    obtain ⟨hdepth, hitems⟩ := hv
    cases items with
    | nil => simp [write, readValue, skipBlanks, isBlank, hdepth]
    | cons v vs =>
      have hread := h.items v vs (depth - 1) rest hitems (Nat.le_of_succ_le_succ hfuel)
      obtain ⟨c, cs, hwrite, hblank, hbracket⟩ := write_head hitems.1
      simp only [write, hwrite, List.cons_append, List.append_assoc] at hread ⊢
      rw [readValue_array fuel hdepth hblank hbracket, hread, Option.map_some]
  | object fields =>
    obtain ⟨hdepth, hfields⟩ := hv
    cases fields with
    | nil => simp [write, readValue, skipBlanks, isBlank, hdepth]
    | cons f fs =>
      obtain ⟨name, v⟩ := f
      have hread := h.fields name v fs (depth - 1) rest hfields (Nat.le_of_succ_le_succ (by
        simpa [write] using hfuel))
      simp only [write, quote, List.cons_append, List.append_assoc] at hread ⊢
      rw [readValue_object fuel hdepth, hread, Option.map_some]

theorem succ_items (h : ReadsBack fuel) (v : Json) (vs : List Json) (depth : Nat)
    (rest : List Char) (hv : ItemsFitDepth depth (v :: vs))
    (hfuel : (write v ++ writeItems vs).length ≤ fuel + 1) :
    readItems (fuel + 1) depth (write v ++ (writeItems vs ++ rest)) = some (v :: vs, rest) := by
  rw [List.length_append] at hfuel
  have htail : 0 < (writeItems vs).length := by
    cases vs <;> exact Nat.zero_lt_succ _
  have hread := h.value v depth (writeItems vs ++ rest) hv.1 (by omega)
    (endsNumber_writeItems vs rest)
  rw [readItems, hread]
  cases vs with
  | nil => simp only [writeItems, List.cons_append, List.nil_append,
      skipBlanks_cons (by decide : isBlank ']' = false)]
  | cons w ws =>
    have hrest := h.items w ws depth rest hv.2 (by
      simp only [writeItems, List.length_append, List.length_cons] at hfuel ⊢
      omega)
    simp only [writeItems, List.cons_append, List.append_assoc,
      skipBlanks_cons (by decide : isBlank ',' = false), hrest, Option.map_some]

theorem succ_fields (h : ReadsBack fuel) (name : String) (v : Json) (fs : List (String × Json))
    (depth : Nat) (rest : List Char) (hv : FieldsFitDepth depth ((name, v) :: fs))
    (hfuel : (quote name ++ ':' :: (write v ++ writeFields fs)).length ≤ fuel + 1) :
    readFields (fuel + 1) depth (quote name ++ ':' :: (write v ++ (writeFields fs ++ rest))) =
      some ((name, v) :: fs, rest) := by
  simp only [List.length_append, List.length_cons] at hfuel
  have hquote : 0 < (quote name).length := Nat.zero_lt_succ _
  have hread := h.value v depth (writeFields fs ++ rest) hv.1 (by omega)
    (endsNumber_writeFields fs rest)
  have hname : readString (name.toList.flatMap escape ++
      '"' :: ':' :: (write v ++ (writeFields fs ++ rest))) = _ :=
    readString_quote name.toList _
  simp only [readFields, quote, List.cons_append, List.append_assoc, List.nil_append,
    skipBlanks_cons (by decide : isBlank '"' = false), hname,
    skipBlanks_cons (by decide : isBlank ':' = false), hread, String.ofList_toList]
  cases fs with
  | nil => simp only [writeFields, List.cons_append, List.nil_append,
      skipBlanks_cons (by decide : isBlank '\x7d' = false)]
  | cons g gs =>
    obtain ⟨other, w⟩ := g
    have hrest := h.fields other w gs depth rest hv.2 (by
      simp only [writeFields, List.length_append, List.length_cons] at hfuel ⊢
      omega)
    simp only [quote, List.cons_append, List.append_assoc, List.nil_append] at hrest
    simp only [writeFields, quote, List.cons_append, List.append_assoc, List.nil_append,
      skipBlanks_cons (by decide : isBlank ',' = false), hrest, Option.map_some]

end ReadsBack

theorem readsBack (fuel : Nat) : ReadsBack fuel := by
  induction fuel with
  | zero =>
    refine ⟨fun v depth rest hv hfuel _ => ?_, fun v vs depth rest hv hfuel => ?_,
      fun name v fs depth rest _ hfuel => ?_⟩
    · obtain ⟨c, cs, hwrite, _⟩ := write_head hv
      rw [hwrite] at hfuel
      exact absurd hfuel (Nat.not_succ_le_zero _)
    · obtain ⟨c, cs, hwrite, _⟩ := write_head hv.1
      rw [hwrite] at hfuel
      exact absurd hfuel (Nat.not_succ_le_zero _)
    · exact absurd hfuel (Nat.not_succ_le_zero _)
  | succ fuel ih => exact ⟨ih.succ_value, ih.succ_items, ih.succ_fields⟩

/-- A value comes back from its text. -/
theorem parse?_write {v : Json} (h : FitsDepth 127 v) : parse? (write v) = some v := by
  have hread := (readsBack (2 * (write v).length + 2)).value v 127 [] h (by omega) (by
    intro c hc
    cases hc)
  rw [List.append_nil] at hread
  rw [parse?, hread]
  rfl

theorem parse?_render {v : Json} (h : FitsDepth 127 v) : parse? v.render.toList = some v := by
  rw [render, String.toList_ofList, parse?_write h]

end ComponentBuild.Json
