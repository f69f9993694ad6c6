import ComponentBuild.Position.Vlq
import Mathlib

namespace ComponentBuild.Vlq

/-- The greatest size of a number whose bits, sign included, fit a signed word of 64. -/
def limit : Nat := 2 ^ 62

theorem digit?_digitChar : ∀ n < 64, digit? (digitChar n) = some n := by decide

theorem utf8Size_digitChar : ∀ n < 64, (digitChar n).utf8Size = 1 := by decide

theorem digits_append (a b : List Char) : digits (a ++ b) = digits a ++ digits b :=
  List.flatMap_append

theorem digits_digitChar {n : Nat} (h : n < 64) (cs : List Char) :
    digits (digitChar n :: cs) = n :: digits cs := by
  simp only [digits, List.flatMap_cons, digit?_digitChar n h, utf8Size_digitChar n h,
    List.replicate_one, Option.getD_some, List.singleton_append]

/-- One digit more is read. -/
theorem decodeDigits_cons (bits shift d : Nat) (ds : List Nat) :
    decodeDigits bits shift (d :: ds) =
      if 64 ≤ shift then .error .overflow
      else if d < 32 then
        (decodeDigits 0 0 ds).map (ofBits (bits + d % 32 * 2 ^ shift % 2 ^ 64) :: ·)
      else decodeDigits (bits + d % 32 * 2 ^ shift % 2 ^ 64) (shift + 5) ds := rfl

theorem decodeDigits_last {bits shift n : Nat} (hshift : shift < 64) (hn : n < 32)
    (hfits : n * 2 ^ shift < 2 ^ 64) (ds : List Nat) :
    decodeDigits bits shift (n :: ds) =
      (decodeDigits 0 0 ds).map (ofBits (bits + n * 2 ^ shift) :: ·) := by
  have hdigit : n % 32 = n := Nat.mod_eq_of_lt hn
  have hnot : ¬ 64 ≤ shift := by omega
  simp only [decodeDigits_cons, hnot, hn, if_false, if_true, hdigit, Nat.mod_eq_of_lt hfits]

theorem decodeDigits_more {bits shift low : Nat} (hshift : shift < 64) (hlow : low < 32)
    (hfits : low * 2 ^ shift < 2 ^ 64) (ds : List Nat) :
    decodeDigits bits shift ((low + 32) :: ds) =
      decodeDigits (bits + low * 2 ^ shift) (shift + 5) ds := by
  have hdigit : (low + 32) % 32 = low := by omega
  have hnot : ¬ 64 ≤ shift := by omega
  have hmore : ¬ low + 32 < 32 := by omega
  simp only [decodeDigits_cons, hnot, hmore, if_false, hdigit, Nat.mod_eq_of_lt hfits]

/-- The digits of `n` add it to the bits already read, and end the number. -/
theorem decodeDigits_encodeBits {n bits shift : Nat} (hshift : shift < 64)
    (hfits : n * 2 ^ shift < 2 ^ 64) (ds : List Nat) :
    decodeDigits bits shift (digits (encodeBits n) ++ ds) =
      (decodeDigits 0 0 ds).map (ofBits (bits + n * 2 ^ shift) :: ·) := by
  induction n using Nat.strongRecOn generalizing bits shift with
  | ind n ih =>
    rw [encodeBits]
    split
    next hn =>
      rw [digits_digitChar (by omega)]
      exact decodeDigits_last hshift hn hfits ds
    next hn =>
      have hsplit : n = n % 32 + n / 32 * 32 := by omega
      have hpow : 2 ^ (shift + 5) = 32 * 2 ^ shift := by rw [Nat.pow_add, Nat.mul_comm]
      have hhigh : n / 32 * 2 ^ (shift + 5) = n / 32 * 32 * 2 ^ shift := by
        rw [hpow, Nat.mul_assoc]
      have hvalue : n * 2 ^ shift = n % 32 * 2 ^ shift + n / 32 * 2 ^ (shift + 5) := by
        rw [hhigh, ← Nat.add_mul, ← hsplit]
      -- The digits that follow stand above at least five more bits.
      have hone : 2 ^ (shift + 5) ≤ n / 32 * 2 ^ (shift + 5) :=
        Nat.le_mul_of_pos_left _ (by omega)
      have hroom : shift + 5 < 64 :=
        (Nat.pow_lt_pow_iff_right (by decide : 1 < 2)).1 (by omega : 2 ^ (shift + 5) < 2 ^ 64)
      rw [digits_digitChar (by omega), List.cons_append,
        decodeDigits_more hshift (Nat.mod_lt _ (by decide)) (by omega),
        ih (n / 32) (by omega) hroom (by omega), hvalue, Nat.add_assoc]

theorem ofBits_even {n : Nat} (h : n < limit) : ofBits (2 * n) = n := by
  have hlimit : limit = 2 ^ 62 := rfl
  have hsize : UInt64.size = 2 ^ 64 := rfl
  have hword : 2 * n < UInt64.size / 2 := by omega
  have heven : 2 * n % 2 = 0 := by omega
  simp only [ofBits, hword, heven, if_true]
  omega

theorem ofBits_odd {n : Nat} (h : n < limit) : ofBits (2 * n + 1) = -(n : Int) := by
  have hlimit : limit = 2 ^ 62 := rfl
  have hsize : UInt64.size = 2 ^ 64 := rfl
  have hword : 2 * n + 1 < UInt64.size / 2 := by omega
  have hodd : ¬ (2 * n + 1) % 2 = 0 := by omega
  simp only [ofBits, hword, hodd, if_true, if_false]
  omega

theorem decodeDigits_encode {d : Int} (h : d.natAbs < limit) (ds : List Nat) :
    decodeDigits 0 0 (digits (encode d) ++ ds) = (decodeDigits 0 0 ds).map (d :: ·) := by
  have hlimit : limit = 2 ^ 62 := rfl
  unfold encode
  split
  next hneg =>
    rw [decodeDigits_encodeBits (by decide) (by omega), Nat.pow_zero, Nat.mul_one, Nat.zero_add,
      ofBits_odd h, Int.ofNat_natAbs_of_nonpos (by omega : d ≤ 0), Int.neg_neg]
  next hpos =>
    rw [decodeDigits_encodeBits (by decide) (by omega), Nat.pow_zero, Nat.mul_one, Nat.zero_add,
      ofBits_even h, Int.natAbs_of_nonneg (by omega)]

theorem decodeDigits_flatMap_encode {ds : List Int} (h : ∀ d ∈ ds, d.natAbs < limit) :
    decodeDigits 0 0 (digits (ds.flatMap encode)) = .ok ds := by
  induction ds with
  | nil => rfl
  | cons d ds ih =>
    obtain ⟨hd, hds⟩ := List.forall_mem_cons.1 h
    rw [List.flatMap_cons, digits_append, decodeDigits_encode hd, ih hds]
    rfl

/-- Numbers written one behind the other are read back. -/
theorem decode_flatMap_encode {ds : List Int} (hds : ds ≠ []) (h : ∀ d ∈ ds, d.natAbs < limit) :
    decode (ds.flatMap encode) = .ok ds := by
  rw [decode, decodeDigits_flatMap_encode h]
  cases ds with
  | nil => exact absurd rfl hds
  | cons d ds => rfl

theorem digitChar_ne : ∀ n < 64, digitChar n ≠ ',' ∧ digitChar n ≠ ';' := by decide

theorem encodeBits_chars (n : Nat) : ∀ c ∈ encodeBits n, c ≠ ',' ∧ c ≠ ';' := by
  induction n using Nat.strongRecOn with
  | ind n ih =>
    intro c hc
    rw [encodeBits] at hc
    split at hc
    next hn =>
      rw [List.mem_singleton.1 hc]
      exact digitChar_ne n (by omega)
    next hn =>
      rcases List.mem_cons.1 hc with rfl | hc
      · exact digitChar_ne _ (by omega)
      · exact ih (n / 32) (by omega) c hc

theorem encode_chars (d : Int) : ∀ c ∈ encode d, c ≠ ',' ∧ c ≠ ';' := by
  unfold encode
  split
  · exact encodeBits_chars _
  · exact encodeBits_chars _

theorem encodeBits_ne_nil (n : Nat) : encodeBits n ≠ [] := by
  rw [encodeBits]
  split
  · exact List.cons_ne_nil _ _
  · exact List.cons_ne_nil _ _

theorem encode_ne_nil (d : Int) : encode d ≠ [] := by
  unfold encode
  split
  · exact encodeBits_ne_nil _
  · exact encodeBits_ne_nil _

end ComponentBuild.Vlq
