import PagedStore.Compression
import PagedStore.Compression.Piece

/-!
# Compressing a byte string

The input is cut into blocks of 64 KiB that know nothing of each other. Within a block the
compressor walks forward with a table that remembers, for the hash of any four bytes, where they
were last seen. When the four bytes at hand equal those at the remembered place, what was passed
over goes out as a literal and the match, as long as it lasts, as a copy; while nothing matches,
the steps slowly widen. The choices made here fix the output byte for byte, so they belong to the
format in which files are compared.

`compress` writes the length and the pieces, and `decompress?` performs the pieces and insists on
the length.
-/

set_option autoImplicit false

namespace PagedStore.Compression

/-! ## Finding matches -/

/-- The largest input that is searched for matches at once. -/
def blockSize : Nat := 65536

/-- A block shorter than this is not searched. -/
def minSearched : Nat := 17

/-- No match begins in the last bytes of a block, of which there are one less than this. -/
def margin : Nat := 15

/-- The four bytes at a place, as a number. -/
@[inline] def wordAt (b : ByteArray) (i : Nat) : UInt32 :=
  let at' (j : Nat) : UInt32 := if h : j < b.size then b[j].toUInt32 else 0
  at' i ||| (at' (i + 1) <<< 8) ||| (at' (i + 2) <<< 16) ||| (at' (i + 3) <<< 24)

/-- The size of the table for a block: a power of two from 256 to 16384, no less than the block
is long where that is possible. -/
def tableSize (blockLength : Nat) : (fuel n : Nat) → Nat
  | 0, n => n
  | fuel + 1, n => if n < 16384 ∧ n < blockLength then tableSize blockLength fuel (2 * n) else n

/-- What the search knows of its block. -/
structure Search where
  block : ByteArray
  /-- How far a product is shifted to become a place in the table. -/
  shift : UInt32
  /-- The last place at which a match may begin. -/
  limit : Nat

namespace Search

/-- The place in the table of the four bytes at `i`. -/
@[inline] def hash (s : Search) (i : Nat) : Nat :=
  ((wordAt s.block i * 0x1E35A7BD) >>> s.shift).toNat

/-- The piece that gives the bytes from `first` up to `last`, when there are any. -/
def literalOf (s : Search) (first last : Nat) : List Piece :=
  if first < last then [.literal (s.block.extract first last).data.toList] else []

/-- The first place after `j`, or at it, at which the bytes from `i` and from `j` on no longer
agree; `j` is the later place. -/
def agreeUntil (b : ByteArray) (i j : Nat) : Nat :=
  if h : i < b.size ∧ j < b.size then
    if b[i] = b[j] then agreeUntil b (i + 1) (j + 1) else j
  else j
termination_by b.size - j

/-- What the search is doing. -/
inductive Phase where
  /-- It walks on from `next`, where the four bytes have the place `slot` in the table. Bytes from
  `emitted` on have not gone out yet, and `skip` grows by the steps taken. -/
  | seeking (emitted skip next slot : Nat)
  /-- It has found that the four bytes at `base` are those at the earlier `candidate`. -/
  | matched (base candidate : Nat)

/-- Runs the search to the end of the block; `done` are the pieces so far, the last one first.
Every step moves forward, so `fuel` need not exceed the length of the block. -/
def run (s : Search) : (fuel : Nat) → (table : Array Nat) → (done : List Piece) → Phase →
    List Piece
  | 0, _, done, _ => done
  | fuel + 1, table, done, .seeking emitted skip next slot =>
      let after := next + skip / 32
      if s.limit < after then s.literalOf emitted s.block.size ++ done
      else
        let candidate := table.getD slot 0
        let table := table.setIfInBounds slot next
        if wordAt s.block next = wordAt s.block candidate then
          s.run fuel table (s.literalOf emitted next ++ done) (.matched next candidate)
        else s.run fuel table done (.seeking emitted (skip + skip / 32) after (s.hash after))
  | fuel + 1, table, done, .matched base candidate =>
      let next := agreeUntil s.block candidate base
      let done := .copy (base - candidate) (next - base) :: done
      if s.limit ≤ next then s.literalOf next s.block.size ++ done
      else
        -- Of the places inside a copy only the last one enters the table.
        let table := table.setIfInBounds (s.hash (next - 1)) (next - 1)
        let slot := s.hash next
        let candidate := table.getD slot 0
        let table := table.setIfInBounds slot next
        if wordAt s.block next = wordAt s.block candidate then
          s.run fuel table done (.matched next candidate)
        else s.run fuel table done (.seeking next 32 (next + 1) (s.hash (next + 1)))

end Search

/-- The pieces of a block. -/
def blockPieces (b : ByteArray) : List Piece :=
  if b.size < minSearched then if b.size = 0 then [] else [.literal b.data.toList]
  else
    let size := tableSize b.size 7 256
    let s : Search := ⟨b, UInt32.ofNat (32 - Nat.log2 size), b.size - margin⟩
    (s.run (2 * b.size) (Array.replicate size 0) [] (.seeking 0 32 1 (s.hash 1))).reverse

/-! ## Whole inputs -/

/-- A number in groups of seven bits, the lowest first, the high bit of a byte telling that more
follow. -/
def varint (n : Nat) : Bytes :=
  if n < 128 then [UInt8.ofNat n] else UInt8.ofNat (n % 128 + 128) :: varint (n / 128)
termination_by n

/-- Reads such a number of at most `fuel` bytes. -/
def varint? : (fuel : Nat) → Bytes → Option (Nat × Bytes)
  | 0, _ => none
  | _, [] => none
  | fuel + 1, b :: bs =>
      if b.toNat < 128 then some (b.toNat, bs)
      else (varint? fuel bs).map fun (n, rest) => (b.toNat - 128 + 128 * n, rest)

/-- The blocks of an input. -/
def blocks (bs : Bytes) : List Bytes :=
  if bs = [] then [] else bs.take blockSize :: blocks (bs.drop blockSize)
termination_by bs.length
decreasing_by
  rename_i h
  have : 0 < bs.length := List.length_pos_iff.2 h
  simp [blockSize]; omega

/-- The pieces of an input. -/
def pieces (bs : Bytes) : List Piece :=
  (blocks bs).flatMap fun b => blockPieces b.toByteArray

/-- The greatest length that can be told. -/
def lengthLimit : Nat := UInt32.size - 1

/-- The length that the compressed form of an input may reach. -/
def compressedLimit (length : Nat) : Nat := 32 + length + length / 6

/-- The compressed form of an input. One whose compressed form might be too long is refused. -/
def compress (bs : Bytes) : Except String Bytes :=
  if lengthLimit < compressedLimit bs.length then
    .error ("snappy: input buffer (size = " ++ toString bs.length ++
      ") is larger than allowed (size = " ++ toString lengthLimit ++ ")")
  else .ok (varint bs.length ++ (pieces bs).flatMap Piece.encode)

/-- Performs pieces until none is left. -/
def performAll? (limit : Nat) (bs : Bytes) (out : Array UInt8) : Option (Array UInt8) :=
  if bs = [] then some out
  else
    match _ : Piece.read? bs with
    | none => none
    | some (p, rest) =>
        match p.perform? limit out with
        | none => none
        | some out => performAll? limit rest out
termination_by bs.length
decreasing_by exact Piece.length_read? ‹_›

/-- The input whose compressed form is given. -/
def decompress? (bs : Bytes) : Option Bytes := do
  let (n, body) ← varint? 5 bs
  guard (n < UInt32.size)
  let out ← performAll? n body #[]
  guard (out.size = n)
  return out.toList

end PagedStore.Compression

namespace PagedStore

/-- The codec of the format. -/
instance Codec.snappy : Codec where
  compress := Compression.compress
  decompress packed :=
    match Compression.decompress? packed with
    | some value => .ok value
    | none => .error "corrupt input"

end PagedStore
