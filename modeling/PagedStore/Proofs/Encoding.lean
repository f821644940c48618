import Mathlib.Algebra.GroupWithZero.Nat
import PagedStore.Bytes

/-!
# Fields of byte strings

Each reader of a field takes back what the writer of that field put in front of a byte string,
whatever follows, and takes back nothing else: what it has read, with what it has left, is the
string again. A padded string begins with what was padded.
-/

set_option autoImplicit false

namespace PagedStore.Bytes

/-! ## Numbers -/

theorem toNatLE_ofNatLE (width n : Nat) : toNatLE (ofNatLE width n) = n % 256 ^ width := by
  induction width generalizing n with
  | zero => simp [ofNatLE, toNatLE, Nat.mod_one]
  | succ w ih =>
      rw [ofNatLE, toNatLE, ih, Nat.pow_succ, Nat.mul_comm (256 ^ w) 256, Nat.mod_mul,
        UInt8.toNat_ofNat']

@[simp] theorem length_ofU16 (n : Nat) : (ofU16 n).length = 2 := rfl

@[simp] theorem length_ofU32 (n : UInt32) : (ofU32 n).length = 4 := rfl

theorem toNatLE_ofU16 {n : Nat} (h : n < 65536) : toNatLE (ofU16 n) = n := by
  rw [ofU16, toNatLE_ofNatLE]
  exact Nat.mod_eq_of_lt h

theorem toNatLE_ofU32 (n : UInt32) : toNatLE (ofU32 n) = n.toNat := by
  rw [ofU32, toNatLE_ofNatLE]
  exact Nat.mod_eq_of_lt n.toNat_lt

theorem toNatLE_ofU64 (n : UInt64) : toNatLE (ofU64 n) = n.toNat := by
  rw [ofU64, toNatLE_ofNatLE]
  exact Nat.mod_eq_of_lt n.toNat_lt

theorem u8?_cons (b : UInt8) (rest : Bytes) : u8? (b :: rest) = some (b, rest) := rfl

theorem u16?_ofU16 {n : Nat} (h : n < 65536) (rest : Bytes) :
    u16? (ofU16 n ++ rest) = some (n, rest) := by
  show some (toNatLE (ofU16 n), rest) = _
  rw [toNatLE_ofU16 h]

theorem u32?_ofU32 (n : UInt32) (rest : Bytes) : u32? (ofU32 n ++ rest) = some (n, rest) := by
  show some (UInt32.ofNat (toNatLE (ofU32 n)), rest) = _
  rw [toNatLE_ofU32, UInt32.ofNat_toNat]

theorem u64?_ofU64 (n : UInt64) (rest : Bytes) : u64? (ofU64 n ++ rest) = some (n, rest) := by
  show some (UInt64.ofNat (toNatLE (ofU64 n)), rest) = _
  rw [toNatLE_ofU64, UInt64.ofNat_toNat]

/-- The four-byte number at the front of a byte string. -/
theorem take_four_ofU32 (n : UInt32) (rest : Bytes) :
    UInt32.ofNat (toNatLE ((ofU32 n ++ rest).take 4)) = n := by
  rw [List.take_left' (length_ofU32 n), toNatLE_ofU32, UInt32.ofNat_toNat]

theorem toNatLE_lt (bs : Bytes) : toNatLE bs < 256 ^ bs.length := by
  induction bs with
  | nil => exact Nat.one_pos
  | cons b bs ih =>
      rw [toNatLE, List.length_cons, Nat.pow_succ]
      have := b.toNat_lt
      omega

/-- Bytes are the digits of the number that they stand for. -/
theorem ofNatLE_toNatLE (bs : Bytes) : ofNatLE bs.length (toNatLE bs) = bs := by
  induction bs with
  | nil => rfl
  | cons b bs ih =>
      have hb : UInt8.ofNat (b.toNat + 256 * toNatLE bs) = b := by
        rw [← UInt8.toNat_inj, UInt8.toNat_ofNat', Nat.add_mul_mod_self_left,
          Nat.mod_eq_of_lt b.toNat_lt]
      have hbs : (b.toNat + 256 * toNatLE bs) / 256 = toNatLE bs := by
        have := b.toNat_lt
        omega
      rw [List.length_cons, toNatLE, ofNatLE, hb, hbs, ih]

theorem ofU16_toNatLE {bs : Bytes} (h : bs.length = 2) : ofU16 (toNatLE bs) = bs := by
  rw [ofU16, ← h, ofNatLE_toNatLE]

theorem ofU32_ofNat_toNatLE {bs : Bytes} (h : bs.length = 4) :
    ofU32 (UInt32.ofNat (toNatLE bs)) = bs := by
  have hlt := toNatLE_lt bs
  rw [h] at hlt
  rw [ofU32, UInt32.toNat_ofNat_of_lt' hlt, ← h, ofNatLE_toNatLE]

theorem ofU64_ofNat_toNatLE {bs : Bytes} (h : bs.length = 8) :
    ofU64 (UInt64.ofNat (toNatLE bs)) = bs := by
  have hlt := toNatLE_lt bs
  rw [h] at hlt
  rw [ofU64, UInt64.toNat_ofNat_of_lt' hlt, ← h, ofNatLE_toNatLE]

/-! ## What a reader took off the front -/

section

variable {bs field rest : Bytes} {n : Nat}

theorem eq_of_u8? {b : UInt8} (h : u8? bs = some (b, rest)) : bs = b :: rest := by
  cases bs with
  | nil => cases h
  | cons a bs =>
      obtain ⟨rfl, rfl⟩ := Prod.mk.inj (Option.some.inj h)
      rfl

theorem eq_of_u16? (h : u16? bs = some (n, rest)) : n < 65536 ∧ bs = ofU16 n ++ rest := by
  match bs, h with
  | a :: b :: bs, h =>
      obtain ⟨rfl, rfl⟩ := Prod.mk.inj (Option.some.inj h)
      have hlt := toNatLE_lt [a, b]
      rw [ofU16_toNatLE rfl]
      exact ⟨by simpa using hlt, rfl⟩

theorem eq_of_u32? {n : UInt32} (h : u32? bs = some (n, rest)) : bs = ofU32 n ++ rest := by
  match bs, h with
  | a :: b :: c :: d :: bs, h =>
      obtain ⟨rfl, rfl⟩ := Prod.mk.inj (Option.some.inj h)
      rw [ofU32_ofNat_toNatLE rfl]
      rfl

theorem eq_of_take? (h : take? n bs = some (field, rest)) :
    field.length = n ∧ bs = field ++ rest := by
  rw [take?] at h
  split at h
  · rename_i hlen
    obtain ⟨rfl, rfl⟩ := Prod.mk.inj (Option.some.inj h)
    exact ⟨hlen, (List.take_append_drop n bs).symm⟩
  · cases h

end

/-! ## Pieces of a known length -/

theorem take?_append_of_length {n : Nat} {xs : Bytes} (h : xs.length = n) (rest : Bytes) :
    take? n (xs ++ rest) = some (xs, rest) := h ▸ take?_append xs rest

theorem resize_of_length_le {n : Nat} {bs : Bytes} (h : bs.length ≤ n) :
    resize n bs = bs ++ List.replicate (n - bs.length) 0 := by
  rw [resize, List.take_of_length_le h]

end PagedStore.Bytes
