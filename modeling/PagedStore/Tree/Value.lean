import PagedStore.Compression
import PagedStore.Tree.Chain
import PagedStore.Tree.Node

/-!
# Storing values

A value stands in the leaf beside its key when the cell is short enough. Otherwise it is spread
over a chain of pages and may be compressed before that; compression that does not shorten the
value is not kept.
-/

set_option autoImplicit false

namespace PagedStore.Tree

open PagedStore.Action

variable [Codec]

/-- The greatest length of a key. -/
def keyLimit (pageSize : Nat) : Nat := pageSize / 8

/-- The greatest length of a cell whose value stands in the leaf. -/
def inlineLimit (pageSize : Nat) : Nat := pageSize / 4

/-- What is stored for a long value, and whether it is compressed. The compressor may refuse. -/
def pack (compression : Compression) (value : Bytes) : Except Error (Bytes × Bool) :=
  match compression with
  | .off => .ok (value, false)
  | .snappy =>
      match Codec.compress value with
      | .error reason => .error (.serialization ("snappy: " ++ reason))
      | .ok packed =>
          .ok (if packed.length < value.length then (packed, true) else (value, false))

/-- Stores a value, in a chain of new pages if it is too long for a leaf. -/
def makeValue (compression : Compression) (key value : Bytes) : Action Pager CellValue := do
  if (Cell.mk key (.inline value)).size ≤ inlineLimit (← self).pageSize then
    return .inline value
  else if UInt32.size ≤ value.length then
    throw (.limitReached s!"value of {value.length} bytes is too large")
  else
    let (stored, compressed) ← ofResult (pack compression value)
    let head ← Chain.write stored
    return .chained (UInt32.ofNat value.length) head compressed

/-- The value that the bytes of a chain stand for. -/
def unpack (compressed : Bool) (stored : Bytes) : Except Error Bytes :=
  if compressed then
    match Codec.decompress stored with
    | .ok value => .ok value
    | .error reason => .error (.corrupt ("snappy: " ++ reason))
  else .ok stored

/-- The value of a cell. -/
def readValue : CellValue → Action Pager Bytes
  | .inline value => return value
  | .chained length head compressed => do
      let value ← ofResult (unpack compressed (← Chain.read head))
      if value.length ≠ length.toNat then
        throw (.corrupt
          s!"overflow value at page {head} has {value.length} bytes, expected {length}")
      return value

/-- Frees the pages of a value that is no longer used. -/
def releaseValue : CellValue → Action Pager Unit
  | .inline _ => pure ()
  | .chained _ head _ => Chain.free head

/-- A cell as the record that it stands for. -/
def record (c : Cell) : Action Pager (Bytes × Bytes) := return (c.key, ← readValue c.value)

end PagedStore.Tree
