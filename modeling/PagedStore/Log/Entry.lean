import PagedStore.Error

/-!
# Entries of the log

A commit is logged as a sequence of entries: the beginning of a transaction, the new image of
every page that changed, the new image of the file header, and the mark that the transaction is
complete. An entry is written as the number of its form in four bytes and its fields in order;
an image is preceded by its length in eight bytes. What follows the last field is not looked at.
-/

set_option autoImplicit false

namespace PagedStore.Log

/-- One entry of the log. -/
inductive Entry where
  /-- A transaction begins. -/
  | begin (txn : UInt64)
  /-- A page changes to this image. -/
  | page (id : UInt32) (image : Bytes)
  /-- The header page changes to this image. -/
  | header (image : Bytes)
  /-- The transaction, with so many page entries, is complete. -/
  | commit (txn : UInt64) (pages : UInt32)
  deriving DecidableEq, Repr

namespace Entry

/-- An image with its length in front. -/
def encodeImage (image : Bytes) : Bytes := Bytes.ofU64 (UInt64.ofNat image.length) ++ image

/-- The written form of an entry. -/
def encode : Entry → Bytes
  | begin txn => Bytes.ofU32 0 ++ Bytes.ofU64 txn
  | page id image => Bytes.ofU32 1 ++ Bytes.ofU32 id ++ encodeImage image
  | header image => Bytes.ofU32 2 ++ encodeImage image
  | commit txn pages => Bytes.ofU32 3 ++ Bytes.ofU64 txn ++ Bytes.ofU32 pages

/-- The failure of a byte string that is too short. -/
def tooShort : Error := .serialization "io error: unexpected end of file"

/-- Reads an image. -/
def readImage? (bs : Bytes) : Option Bytes := do
  let (n, rest) ← Bytes.u64? bs
  let (image, _) ← Bytes.take? n.toNat rest
  return image

/-- Reads the fields of the entry with a given form, if it is one of the four. -/
def readFields? (form : UInt32) (bs : Bytes) : Option Entry :=
  if form = 0 then do
    let (txn, _) ← Bytes.u64? bs
    return begin txn
  else if form = 1 then do
    let (id, rest) ← Bytes.u32? bs
    return page id (← readImage? rest)
  else if form = 2 then do
    return header (← readImage? bs)
  else do
    let (txn, rest) ← Bytes.u64? bs
    let (pages, _) ← Bytes.u32? rest
    return commit txn pages

/-- The entry at the front of a byte string. -/
def decode (bs : Bytes) : Except Error Entry :=
  match Bytes.u32? bs with
  | none => .error tooShort
  | some (form, rest) =>
      if 4 ≤ form then
        .error (.serialization
          s!"invalid value: integer `{form}`, expected variant index 0 <= i < 4")
      else
        match readFields? form rest with
        | none => .error tooShort
        | some e => .ok e

end Entry

end PagedStore.Log
