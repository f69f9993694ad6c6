import Mathlib.Data.Bool.AllAny
import ComponentBuild.Proofs.Json.RoundTrip

namespace ComponentBuild.Json

/-- What of a text stands outside of strings. A backslash takes the character behind it into the
string. -/
def outside : Bool → List Char → List Char
  | _, [] => []
  | true, '\\' :: _ :: cs => outside true cs
  | true, c :: cs => outside (c != '"') cs
  | false, c :: cs => if c = '"' then outside true cs else c :: outside false cs

/-- A text whose strings are whole, without blanks outside of them. -/
structure Tight (text : List Char) : Prop where
  printed : ∀ c ∈ text, 0x20 ≤ c.val
  outside : ∃ kept, (∀ c ∈ kept, isBlank c = false) ∧
    ∀ rest, outside false (text ++ rest) = kept ++ outside false rest

theorem outside_true {c : Char} (hslash : c ≠ '\\') (hquote : c ≠ '"') (rest : List Char) :
    outside true (c :: rest) = outside true rest := by
  rw [outside.eq_def]
  split
  next h => contradiction
  next h => exact absurd (List.cons.inj h).1 hslash
  next h =>
    obtain ⟨rfl, rfl⟩ := List.cons.inj h
    rw [bne_iff_ne.2 hquote]
  next h => contradiction

theorem outside_slash (c : Char) (rest : List Char) :
    outside true ('\\' :: c :: rest) = outside true rest := rfl

theorem hexChar_printed : ∀ n < 16, 0x20 ≤ (hexChar n).val ∧ hexChar n ≠ '\\' ∧ hexChar n ≠ '"' := by
  decide

theorem hexChar_of_lt {c : Char} (h : c.val < 0x20) :
    c.toNat / 16 < 16 ∧ c.toNat % 16 < 16 := by
  have hlt : c.toNat < 32 := UInt32.lt_iff_toNat_lt.1 h
  omega

theorem outside_escape (c : Char) (rest : List Char) :
    outside true (escape c ++ rest) = outside true rest := by
  unfold escape
  split_ifs with hquote hslash _ _ _ _ _ hlow
  · rfl
  · rfl
  · rfl
  · rfl
  · rfl
  · rfl
  · rfl
  · obtain ⟨hhigh, hdigit⟩ := hexChar_of_lt hlow
    obtain ⟨-, hhigh⟩ := hexChar_printed _ hhigh
    obtain ⟨-, hdigit⟩ := hexChar_printed _ hdigit
    simp only [List.cons_append, List.nil_append]
    rw [outside_slash, outside_true (by decide) (by decide), outside_true (by decide) (by decide),
      outside_true hhigh.1 hhigh.2, outside_true hdigit.1 hdigit.2]
  · exact outside_true hslash hquote rest

theorem outside_string (s rest : List Char) :
    outside true (s.flatMap escape ++ '"' :: rest) = outside false rest := by
  induction s with
  | nil => rfl
  | cons c s ih => rw [List.flatMap_cons, List.append_assoc, outside_escape, ih]

theorem escape_printed (c : Char) : ∀ d ∈ escape c, 0x20 ≤ d.val := by
  unfold escape
  split_ifs with _ _ _ _ _ _ _ hlow
  · exact List.all_iff_forall_prop.1 (by decide)
  · exact List.all_iff_forall_prop.1 (by decide)
  · exact List.all_iff_forall_prop.1 (by decide)
  · exact List.all_iff_forall_prop.1 (by decide)
  · exact List.all_iff_forall_prop.1 (by decide)
  · exact List.all_iff_forall_prop.1 (by decide)
  · exact List.all_iff_forall_prop.1 (by decide)
  · obtain ⟨hhigh, hdigit⟩ := hexChar_of_lt hlow
    simp only [List.forall_mem_cons]
    exact ⟨by decide, by decide, by decide, by decide, (hexChar_printed _ hhigh).1,
      (hexChar_printed _ hdigit).1, List.forall_mem_nil _⟩
  · exact List.forall_mem_singleton.2 (UInt32.not_lt.1 hlow)

theorem tight_nil : Tight [] :=
  ⟨List.forall_mem_nil _, [], List.forall_mem_nil _, fun _ => rfl⟩

theorem Tight.append {front back : List Char} (hfront : Tight front) (hback : Tight back) :
    Tight (front ++ back) := by
  obtain ⟨kept, hkept, hread⟩ := hfront.outside
  obtain ⟨kept', hkept', hread'⟩ := hback.outside
  refine ⟨List.forall_mem_append.2 ⟨hfront.printed, hback.printed⟩, kept ++ kept',
    List.forall_mem_append.2 ⟨hkept, hkept'⟩, fun rest => ?_⟩
  rw [List.append_assoc, hread, hread', List.append_assoc]

theorem tight_singleton {c : Char} (hprinted : 0x20 ≤ c.val) (hquote : c ≠ '"')
    (hblank : isBlank c = false) : Tight [c] := by
  refine ⟨List.forall_mem_singleton.2 hprinted, [c], List.forall_mem_singleton.2 hblank,
    fun rest => ?_⟩
  rw [List.singleton_append, Json.outside, if_neg hquote]
  rfl

theorem Tight.cons {c : Char} {text : List Char} (h : Tight text) (hprinted : 0x20 ≤ c.val)
    (hquote : c ≠ '"') (hblank : isBlank c = false) : Tight (c :: text) :=
  (tight_singleton hprinted hquote hblank).append h

theorem tight_quote (s : String) : Tight (quote s) := by
  refine ⟨?_, [], List.forall_mem_nil _, fun rest => ?_⟩
  · rw [quote]
    refine List.forall_mem_append.2 ⟨List.forall_mem_cons.2 ⟨by decide, ?_⟩,
      List.forall_mem_singleton.2 (by decide)⟩
    intro d hd
    obtain ⟨c, -, hc⟩ := List.mem_flatMap.1 hd
    exact escape_printed c d hc
  · rw [quote, List.append_assoc, List.cons_append, List.singleton_append, Json.outside,
      if_pos rfl, outside_string]
    rfl

/-- Texts without strings and blanks. -/
theorem tight_literal {text : List Char}
    (h : ∀ c ∈ text, 0x20 ≤ c.val ∧ c ≠ '"' ∧ isBlank c = false) : Tight text := by
  induction text with
  | nil => exact tight_nil
  | cons c text ih =>
    obtain ⟨⟨hprinted, hquote, hblank⟩, htext⟩ := List.forall_mem_cons.1 h
    exact (ih htext).cons hprinted hquote hblank

theorem tight_digits {digits : List Char} (h : ∀ d ∈ digits, d.isDigit = true) :
    Tight digits := by
  refine tight_literal fun d hd => ⟨?_, ?_, isBlank_of_isDigit (h d hd)⟩
  · have hzero : '0'.val ≤ d.val := of_decide_eq_true (Bool.and_eq_true_iff.1 (h d hd)).1
    exact UInt32.le_trans (by decide) hzero
  · rintro rfl
    exact absurd (h _ hd) (by decide)

theorem tight_field {text : List Char} (name : String) (h : Tight text) :
    Tight (quote name ++ ':' :: text) :=
  (tight_quote name).append (h.cons (by decide) (by decide) rfl)

mutual

theorem tight_write {depth : Nat} : ∀ {v : Json}, FitsDepth depth v → Tight (write v)
  | .null, _ => tight_literal (List.all_iff_forall_prop.1 (by decide))
  | .bool true, _ => tight_literal (List.all_iff_forall_prop.1 (by decide))
  | .bool false, _ => tight_literal (List.all_iff_forall_prop.1 (by decide))
  | .number (.natural n), _ => tight_digits fun _ hd =>
      Nat.isDigit_of_mem_toDigits (by decide) (by decide) hd
  | .string s, _ => tight_quote s
  | .array [], _ => tight_literal (List.all_iff_forall_prop.1 (by decide))
  | .array (_ :: _), h =>
    ((tight_write h.2.1).cons (by decide) (by decide) rfl).append (tight_writeItems h.2.2)
  | .object [], _ => tight_literal (List.all_iff_forall_prop.1 (by decide))
  | .object ((name, _) :: _), h =>
    ((tight_field name (tight_write h.2.1)).cons (by decide) (by decide) rfl).append
      (tight_writeFields h.2.2)

theorem tight_writeItems {depth : Nat} : ∀ {vs : List Json}, ItemsFitDepth depth vs →
    Tight (writeItems vs)
  | [], _ => tight_literal (List.all_iff_forall_prop.1 (by decide))
  | _ :: _, h =>
    ((tight_write h.1).cons (by decide) (by decide) rfl).append (tight_writeItems h.2)

theorem tight_writeFields {depth : Nat} : ∀ {fs : List (String × Json)}, FieldsFitDepth depth fs →
    Tight (writeFields fs)
  | [], _ => tight_literal (List.all_iff_forall_prop.1 (by decide))
  | (name, _) :: _, h =>
    ((tight_field name (tight_write h.1)).cons (by decide) (by decide) rfl).append
      (tight_writeFields h.2)

end

/-- A control character that JSON lets stand in a string as it is. -/
def isPlainControl (c : Char) : Bool := 0x7f ≤ c.val && c.val ≤ 0x9f

mutual

/-- The texts in a value, with the names of its fields. -/
def texts : Json → List Char
  | .null | .bool _ | .number _ => []
  | .string s => s.toList
  | .array items => textsOfItems items
  | .object fields => textsOfFields fields

def textsOfItems : List Json → List Char
  | [] => []
  | v :: vs => texts v ++ textsOfItems vs

def textsOfFields : List (String × Json) → List Char
  | [] => []
  | (name, v) :: vs => name.toList ++ (texts v ++ textsOfFields vs)

end

theorem isPlainControl_of_lt {c : Char} (h : c.val < 0x7f) : isPlainControl c = false := by
  rw [isPlainControl, decide_eq_false (UInt32.not_le.2 h), Bool.false_and]

theorem filter_escape (c : Char) : (escape c).filter isPlainControl = [c].filter isPlainControl := by
  have hhex : ∀ n < 16, isPlainControl (hexChar n) = false := by decide
  unfold escape
  split_ifs with _ _ _ _ _ _ _ hlow
  · subst c; rfl
  · subst c; rfl
  · subst c; rfl
  · subst c; rfl
  · subst c; rfl
  · subst c; rfl
  · subst c; rfl
  · obtain ⟨hhigh, hdigit⟩ := hexChar_of_lt hlow
    have hc : isPlainControl c = false :=
      isPlainControl_of_lt (UInt32.lt_trans hlow (by decide))
    have hescaped : ∀ d ∈ ['\\', 'u', '0', '0', hexChar (c.toNat / 16), hexChar (c.toNat % 16)],
        ¬ isPlainControl d := by
      simp only [List.forall_mem_cons, hhex _ hhigh, hhex _ hdigit]
      exact ⟨by decide, by decide, by decide, by decide, nofun, nofun, List.forall_mem_nil _⟩
    rw [List.filter_eq_nil_iff.2 hescaped, List.filter_cons_of_neg (by simp [hc]), List.filter_nil]
  · rfl

theorem filter_quote (s : String) :
    (quote s).filter isPlainControl = s.toList.filter isPlainControl := by
  have hescaped (cs : List Char) :
      (cs.flatMap escape).filter isPlainControl = cs.filter isPlainControl := by
    induction cs with
    | nil => rfl
    | cons c cs ih =>
      rw [List.flatMap_cons, List.filter_append, filter_escape, ih, ← List.filter_append]
      rfl
  rw [quote, List.filter_append, List.filter_cons_of_neg (by decide), hescaped]
  exact List.append_nil _

theorem filter_digits {digits : List Char} (h : ∀ d ∈ digits, d.isDigit = true) :
    digits.filter isPlainControl = [] := by
  refine List.filter_eq_nil_iff.2 fun d hd => ?_
  have hnine : d.val ≤ '9'.val := of_decide_eq_true (Bool.and_eq_true_iff.1 (h d hd)).2
  simp [isPlainControl_of_lt (UInt32.lt_of_le_of_lt hnine (by decide))]

theorem filter_field {c : Char} (hc : ¬ isPlainControl c) (name : String) (text rest : List Char) :
    (c :: quote name ++ ':' :: text ++ rest).filter isPlainControl =
      name.toList.filter isPlainControl ++
        (text.filter isPlainControl ++ rest.filter isPlainControl) := by
  rw [List.append_assoc, List.cons_append, List.filter_cons_of_neg hc, List.filter_append,
    filter_quote, List.cons_append, List.filter_cons_of_neg (by decide), List.filter_append]

mutual

/-- What is written holds of these control characters just those of the texts. -/
theorem filter_write {depth : Nat} : ∀ {v : Json}, FitsDepth depth v →
    (write v).filter isPlainControl = (texts v).filter isPlainControl
  | .null, _ => rfl
  | .bool true, _ => rfl
  | .bool false, _ => rfl
  | .number (.natural _), _ => filter_digits fun _ hd =>
      Nat.isDigit_of_mem_toDigits (by decide) (by decide) hd
  | .string s, _ => filter_quote s
  | .array [], _ => rfl
  | .array (v :: vs), h => by
    rw [write, texts, textsOfItems, List.cons_append, List.filter_cons_of_neg (by decide),
      List.filter_append, List.filter_append, filter_write h.2.1, filter_writeItems h.2.2]
  | .object [], _ => rfl
  | .object ((name, v) :: vs), h => by
    rw [write, texts, textsOfFields, filter_field (by decide), filter_write h.2.1,
      filter_writeFields h.2.2, List.filter_append, List.filter_append]

theorem filter_writeItems {depth : Nat} : ∀ {vs : List Json}, ItemsFitDepth depth vs →
    (writeItems vs).filter isPlainControl = (textsOfItems vs).filter isPlainControl
  | [], _ => rfl
  | v :: vs, h => by
    rw [writeItems, textsOfItems, List.cons_append, List.filter_cons_of_neg (by decide),
      List.filter_append, List.filter_append, filter_write h.1, filter_writeItems h.2]

theorem filter_writeFields {depth : Nat} : ∀ {fs : List (String × Json)},
    FieldsFitDepth depth fs →
    (writeFields fs).filter isPlainControl = (textsOfFields fs).filter isPlainControl
  | [], _ => rfl
  | (name, v) :: fs, h => by
    rw [writeFields, textsOfFields, filter_field (by decide), filter_write h.1,
      filter_writeFields h.2, List.filter_append, List.filter_append]

end

end ComponentBuild.Json
