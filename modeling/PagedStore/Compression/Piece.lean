import PagedStore.Bytes

/-!
# Pieces of compressed data

Compressed data is a length followed by pieces. A literal gives bytes as they are; a copy says
how far back in the output to look and how many bytes to take from there, and it may take bytes
that it has just written itself. A tag byte tells the kinds apart by its two low bits:

* `00`: a literal; the six high bits are its length less one, or, from 60 on, say how many length
  bytes follow;
* `01`: a copy of 4 to 11 bytes from less than 2048 back, one more byte of distance following;
* `10`: a copy of 1 to 64 bytes, two bytes of distance following;
* `11`: the same with four bytes of distance.
-/

set_option autoImplicit false

namespace PagedStore.Compression

/-- One piece of compressed data. -/
inductive Piece where
  | literal (bytes : Bytes)
  | copy (distance length : Nat)
  deriving DecidableEq, Repr

namespace Piece

/-! ## Writing -/

/-- A literal, its length in the tag or in one or two bytes of their own. -/
def encodeLiteral (bs : Bytes) : Bytes :=
  let n := bs.length - 1
  if n ≤ 59 then UInt8.ofNat (n * 4) :: bs
  else if n < 256 then 0xF0 :: UInt8.ofNat n :: bs
  else 0xF4 :: Bytes.ofU16 n ++ bs

/-- A copy of at most 64 bytes. -/
def encodeCopy (distance length : Nat) : Bytes :=
  if length ≤ 11 ∧ distance ≤ 2047 then
    [UInt8.ofNat (distance / 256 * 32 + (length - 4) * 4 + 1), UInt8.ofNat distance]
  else UInt8.ofNat ((length - 1) * 4 + 2) :: Bytes.ofU16 distance

/-- The lengths into which a long copy is divided: none exceeds 64, and the last is at least
four. -/
def copyLengths (length : Nat) : List Nat :=
  if 68 ≤ length then 64 :: copyLengths (length - 64)
  else if 64 < length then [60, length - 60]
  else [length]
termination_by length

/-- The bytes of a piece. -/
def encode : Piece → Bytes
  | literal bs => encodeLiteral bs
  | copy distance length => (copyLengths length).flatMap (encodeCopy distance)

/-! ## Reading -/

/-- Takes a literal of `n` bytes. -/
def takeLiteral? (n : Nat) (bs : Bytes) : Option (Piece × Bytes) :=
  (Bytes.take? n bs).map fun (lit, rest) => (literal lit, rest)

/-- One piece off the front. A literal with length bytes is refused unless four bytes follow its
tag. -/
def read? : Bytes → Option (Piece × Bytes)
  | [] => none
  | t :: bs =>
      let high := t.toNat / 4
      match t.toNat % 4 with
      | 0 =>
          if high < 60 then takeLiteral? (high + 1) bs
          else if bs.length < 4 then none
          else
            let (field, rest) := bs.splitAt (high - 59)
            takeLiteral? (Bytes.toNatLE field + 1) rest
      | 1 =>
          match bs with
          | d :: rest => some (copy (high / 8 * 256 + d.toNat) (4 + high % 8), rest)
          | [] => none
      | 2 => (Bytes.take? 2 bs).map fun (d, rest) => (copy (Bytes.toNatLE d) (high + 1), rest)
      | _ => (Bytes.take? 4 bs).map fun (d, rest) => (copy (Bytes.toNatLE d) (high + 1), rest)

theorem length_read? {bs rest : Bytes} {p : Piece} (h : read? bs = some (p, rest)) :
    rest.length < bs.length := by
  unfold read? at h
  split at h
  · simp at h
  · rename_i t bs
    simp only [takeLiteral?, Bytes.take?] at h
    split at h
    · split at h
      · split at h
        · simp only [Option.map_some, Option.some.injEq, Prod.mk.injEq] at h
          obtain ⟨-, rfl⟩ := h
          simp only [List.length_drop, List.length_cons]; omega
        · simp at h
      · split at h
        · simp at h
        · split at h
          · simp only [List.splitAt_eq, Option.map_some, Option.some.injEq, Prod.mk.injEq] at h
            obtain ⟨-, rfl⟩ := h
            simp only [List.length_drop, List.length_cons]; omega
          · simp at h
    · split at h
      · simp only [Option.some.injEq, Prod.mk.injEq] at h
        obtain ⟨-, rfl⟩ := h
        simp only [List.length_cons]; omega
      · simp at h
    · split at h
      · simp only [Option.map_some, Option.some.injEq, Prod.mk.injEq] at h
        obtain ⟨-, rfl⟩ := h
        simp only [List.length_drop, List.length_cons]; omega
      · simp at h
    · split at h
      · simp only [Option.map_some, Option.some.injEq, Prod.mk.injEq] at h
        obtain ⟨-, rfl⟩ := h
        simp only [List.length_drop, List.length_cons]; omega
      · simp at h

/-- Appends `n` bytes to the output, each the one that lies `distance` before it. -/
def copyBack (distance : Nat) : (n : Nat) → (out : Array UInt8) → Array UInt8
  | 0, out => out
  | n + 1, out => copyBack distance n (out.push (out.getD (out.size - distance) 0))

/-- Appends what a piece stands for to the output, which must not exceed `limit`. A copy from
before the beginning of the output is refused. -/
def perform? (limit : Nat) (out : Array UInt8) : Piece → Option (Array UInt8)
  | literal bs => if out.size + bs.length ≤ limit then some (out ++ bs) else none
  | copy distance n =>
      if distance = 0 ∨ out.size < distance then none
      else if limit < out.size + n then none
      else some (copyBack distance n out)

end Piece

end PagedStore.Compression
