import Mathlib.Logic.Function.Iterate
import PagedStore.Checksum
import PagedStore.Proofs.Encoding

/-!
# Single bytes and checksums

A step of the checksum can be undone when the byte that was fed is known: the bit that left the
register at the low end is the one that the polynomial set at the high end. So registers that
differ go on to differ, and so do registers that took different bytes. Byte strings that differ
in one byte have different checksums, however long they are.
-/

set_option autoImplicit false

namespace PagedStore

open Bytes

/-! ## Strings that differ in one byte -/

/-- Two byte strings of one length that differ in one place and nowhere else. -/
inductive Altered : Nat → Bytes → Bytes → Prop
  | here {a b : UInt8} (h : a ≠ b) (rest : Bytes) : Altered 0 (a :: rest) (b :: rest)
  | there {i : Nat} {xs ys : Bytes} (a : UInt8) (h : Altered i xs ys) :
      Altered (i + 1) (a :: xs) (a :: ys)

namespace Altered

variable {i n : Nat} {xs ys : Bytes}

theorem of_set (h : i < xs.length) {b : UInt8} (hb : xs[i] ≠ b) : Altered i xs (xs.set i b) := by
  induction xs generalizing i with
  | nil => exact absurd h (Nat.not_lt_zero i)
  | cons a xs ih =>
      cases i with
      | zero => exact .here hb xs
      | succ i => exact .there a (ih (Nat.lt_of_succ_lt_succ h) hb)

theorem length_eq (h : Altered i xs ys) : ys.length = xs.length := by
  induction h with
  | here => rfl
  | there a h ih => exact congrArg (· + 1) ih

theorem take (h : Altered i xs ys) (hn : i < n) : Altered i (xs.take n) (ys.take n) := by
  induction h generalizing n with
  | here h rest =>
      obtain ⟨m, rfl⟩ := Nat.exists_eq_add_of_lt hn
      exact .here h _
  | there a h ih =>
      cases n with
      | zero => exact absurd hn (Nat.not_lt_zero _)
      | succ n => exact .there a (ih (Nat.lt_of_succ_lt_succ hn))

theorem take_eq (h : Altered i xs ys) (hn : n ≤ i) : ys.take n = xs.take n := by
  induction h generalizing n with
  | here => rw [Nat.le_zero.1 hn, List.take_zero, List.take_zero]
  | there a h ih =>
      cases n with
      | zero => rfl
      | succ n => exact congrArg (a :: ·) (ih (Nat.le_of_succ_le_succ hn))

theorem drop (h : Altered i xs ys) (hn : n ≤ i) : Altered (i - n) (xs.drop n) (ys.drop n) := by
  induction h generalizing n with
  | here h rest =>
      rw [Nat.le_zero.1 hn]
      exact .here h rest
  | there a h ih =>
      cases n with
      | zero => exact .there a h
      | succ n =>
          rw [Nat.succ_sub_succ]
          exact ih (Nat.le_of_succ_le_succ hn)

theorem drop_eq (h : Altered i xs ys) (hn : i < n) : ys.drop n = xs.drop n := by
  induction h generalizing n with
  | here => obtain ⟨m, rfl⟩ := Nat.exists_eq_succ_of_ne_zero (Nat.ne_zero_of_lt hn); rfl
  | there a h ih =>
      cases n with
      | zero => exact absurd hn (Nat.not_lt_zero _)
      | succ n => exact ih (Nat.lt_of_succ_lt_succ hn)

theorem toNatLE_ne (h : Altered i xs ys) : toNatLE xs ≠ toNatLE ys := by
  induction h with
  | @here a b h rest =>
      intro he
      have hab : a.toNat = b.toNat := Nat.add_right_cancel he
      exact h (UInt8.toNat_inj.1 hab)
  | there a h ih =>
      intro he
      exact ih (Nat.eq_of_mul_eq_mul_left (by decide : 0 < 256) (Nat.add_left_cancel he))

end Altered

/-- Four bytes of which one was changed are another number. -/
theorem Altered.ofNat_ne {i : Nat} {xs ys : Bytes} (h : Altered i xs ys) (hn : xs.length ≤ 4) :
    UInt32.ofNat (toNatLE xs) ≠ UInt32.ofNat (toNatLE ys) := by
  have hlt : ∀ {bs : Bytes}, bs.length ≤ 4 → toNatLE bs < UInt32.size := fun hbs =>
    Nat.lt_of_lt_of_le (toNatLE_lt _) (Nat.pow_le_pow_right (by decide) hbs)
  intro he
  have := congrArg UInt32.toNat he
  rw [UInt32.toNat_ofNat_of_lt' (hlt hn),
    UInt32.toNat_ofNat_of_lt' (hlt (h.length_eq ▸ hn))] at this
  exact h.toNatLE_ne this

namespace Checksum

/-! ## One step of the register -/

theorem and_one_eq_one_iff (r : UInt32) : r &&& 1 = 1 ↔ r.toBitVec.getLsbD 0 = true := by
  have h : (r &&& 1).toBitVec = BitVec.setWidth 32 (BitVec.ofBool (r.toBitVec.getLsbD 0)) := by
    rw [UInt32.toBitVec_and]
    exact BitVec.and_one_eq_setWidth_ofBool_getLsbD
  rw [← UInt32.toBitVec_inj, h]
  cases r.toBitVec.getLsbD 0 <;> decide

theorem toBitVec_shiftRight_one (r : UInt32) : (r >>> 1).toBitVec = r.toBitVec >>> 1 := by
  rw [UInt32.toBitVec_shiftRight]
  rfl

/-- The bit that leaves the register at the low end appears at the high end. -/
theorem getLsbD_shiftOut (r : UInt32) :
    (shiftOut r).toBitVec.getLsbD 31 = r.toBitVec.getLsbD 0 := by
  have hhigh : (r.toBitVec >>> 1).getLsbD 31 = false := by
    rw [BitVec.getLsbD_ushiftRight]
    exact BitVec.getLsbD_of_ge _ _ (Nat.le_refl 32)
  rw [shiftOut]
  split
  · rename_i h
    rw [UInt32.toBitVec_xor, BitVec.getLsbD_xor, toBitVec_shiftRight_one, hhigh,
      (and_one_eq_one_iff r).1 h]
    rfl
  · rename_i h
    rw [toBitVec_shiftRight_one, hhigh, eq_comm, ← Bool.not_eq_true]
    exact fun ht => h ((and_one_eq_one_iff r).2 ht)

/-- A register is known from its lowest bit and the others. -/
theorem eq_of_shiftRight_one {r s : UInt32} (h : r >>> 1 = s >>> 1)
    (h0 : r.toBitVec.getLsbD 0 = s.toBitVec.getLsbD 0) : r = s := by
  have h' : r.toBitVec >>> 1 = s.toBitVec >>> 1 := by
    rw [← toBitVec_shiftRight_one, ← toBitVec_shiftRight_one, h]
  refine UInt32.toBitVec_inj.1 (BitVec.eq_of_getLsbD_eq fun i _ => ?_)
  cases i with
  | zero => exact h0
  | succ i =>
      have := congrArg (·.getLsbD i) h'
      simpa only [BitVec.getLsbD_ushiftRight, Nat.add_comm] using this

theorem shiftOut_injective : Function.Injective shiftOut := by
  intro r s h
  have h0 : r.toBitVec.getLsbD 0 = s.toBitVec.getLsbD 0 := by
    rw [← getLsbD_shiftOut, ← getLsbD_shiftOut, h]
  refine eq_of_shiftRight_one ?_ h0
  have hiff : r &&& 1 = 1 ↔ s &&& 1 = 1 := by
    rw [and_one_eq_one_iff, and_one_eq_one_iff, h0]
  rw [shiftOut, shiftOut] at h
  split at h <;> rename_i hr
  · rw [if_pos (hiff.1 hr)] at h
    exact (UInt32.xor_left_inj polynomial).1 h
  · rwa [if_neg fun hs => hr (hiff.2 hs)] at h

-- Eight bits are shifted out of the register into which the byte was put.
theorem feed_left_injective (b : UInt8) : Function.Injective (feed · b) := fun _ _ h =>
  (UInt32.xor_left_inj b.toUInt32).1 (shiftOut_injective.iterate 8 h)

theorem feed_right_injective (r : UInt32) : Function.Injective (feed r) := fun _ _ h =>
  UInt8.toUInt32_inj.1 ((UInt32.xor_right_inj r).1 (shiftOut_injective.iterate 8 h))

/-! ## Byte strings -/

/-- Registers that differ still do so after any number of bytes. -/
theorem foldl_feed_injective (bs : Bytes) :
    Function.Injective fun r : UInt32 => bs.foldl feed r := by
  induction bs with
  | nil => exact fun _ _ h => h
  | cons b bs ih => exact fun _ _ h => feed_left_injective b (ih h)

theorem foldl_feed_ne {i : Nat} {xs ys : Bytes} (h : Altered i xs ys) (r : UInt32) :
    xs.foldl feed r ≠ ys.foldl feed r := by
  induction h generalizing r with
  | here h rest => exact fun he => h (feed_right_injective r (foldl_feed_injective rest he))
  | there a h ih => exact ih (feed r a)

/-- **A change of one byte changes the checksum.** -/
theorem crc32_ne {i : Nat} {xs ys : Bytes} (h : Altered i xs ys) : crc32 xs ≠ crc32 ys :=
  fun he => foldl_feed_ne h _ ((UInt32.xor_left_inj _).1 he)

/-- The check value of the IEEE polynomial: the checksum of the digits from 1 to 9. -/
example : crc32 [49, 50, 51, 52, 53, 54, 55, 56, 57] = 0xCBF43926 := by decide +kernel

/-- A checksum that fits its contents fits them no more when one byte of either was changed. -/
theorem ofNat_ne_crc32 {sum sum' contents contents' : Bytes} (hlen : sum.length ≤ 4)
    (hfit : UInt32.ofNat (toNatLE sum) = crc32 contents)
    (h : (∃ i, Altered i sum sum') ∧ contents' = contents ∨
      sum' = sum ∧ ∃ i, Altered i contents contents') :
    UInt32.ofNat (toNatLE sum') ≠ crc32 contents' := by
  obtain ⟨⟨i, hs⟩, rfl⟩ | ⟨rfl, i, hc⟩ := h
  · exact fun he => hs.ofNat_ne hlen (hfit.trans he.symm)
  · exact fun he => crc32_ne hc (hfit.symm.trans he)

end Checksum

end PagedStore
