import PagedStore.Options
import PagedStore.Page

/-!
# The file header

Page 0 tells what the file is: a mark and the version of the format, then the fields of `Header`,
then a checksum over all of it. The rest of the page is zero. Decoding refuses what is no header
of this format and fields that no file can have.
-/

set_option autoImplicit false

namespace PagedStore

/-- The fields of the file header. -/
structure Header where
  pageSize : UInt32
  /-- How many pages there are, this one included. -/
  pageCount : UInt32
  /-- The first page of the free list, zero when the list is empty. -/
  freeHead : PageId
  /-- How many pages the free list has. -/
  freeCount : UInt32
  /-- The root of the tree, zero when the tree is empty. -/
  root : PageId
  /-- How many records the tree holds. -/
  recordCount : UInt64
  /-- The last transaction that was committed. -/
  lastTxn : UInt64
  deriving DecidableEq, Repr

namespace Header

/-- The mark at the beginning of a database file. -/
def magic : Bytes := [117, 110, 113, 100, 98, 0, 107, 118]

/-- The version of the format. -/
def version : UInt32 := 1

/-- The length of the fields with mark, version and checksum. -/
def encodedLength : Nat := 52

/-- The header of a new file. -/
def fresh (pageSize : Nat) : Header := ⟨UInt32.ofNat pageSize, 1, 0, 0, 0, 0, 0⟩

/-- Mark, version and fields. -/
def body (h : Header) : Bytes :=
  magic ++ Bytes.ofU32 version ++ Bytes.ofU32 h.pageSize ++ Bytes.ofU32 h.pageCount ++
    Bytes.ofU32 h.freeHead ++ Bytes.ofU32 h.freeCount ++ Bytes.ofU32 h.root ++
    Bytes.ofU64 h.recordCount ++ Bytes.ofU64 h.lastTxn

/-- The image of the header page. -/
def encode (h : Header) : Bytes :=
  Bytes.resize h.pageSize.toNat (h.body ++ Bytes.ofU32 (Checksum.crc32 h.body))

/-- Whether the fields are such as a file can have. -/
def check (h : Header) : Except Error Header :=
  if h.pageSize.toNat ∉ pageSizes then
    .error (.corrupt s!"invalid page size: {h.pageSize}")
  else if h.pageCount = 0 ∨ h.pageCount ≤ h.root ∨ h.pageCount ≤ h.freeHead ∨
      h.pageCount ≤ h.freeCount then
    .error (.corrupt "file header page references out of range")
  else .ok h

/-- The four-byte field at a place. -/
def u32At (bs : Bytes) (at' : Nat) : UInt32 :=
  UInt32.ofNat (Bytes.toNatLE ((bs.drop at').take 4))

/-- The eight-byte field at a place. -/
def u64At (bs : Bytes) (at' : Nat) : UInt64 :=
  UInt64.ofNat (Bytes.toNatLE ((bs.drop at').take 8))

/-- The header at the front of a byte string. -/
def decode (bs : Bytes) : Except Error Header :=
  if bs.length < encodedLength then
    .error (.corrupt s!"file header too short: {bs.length} bytes")
  else if bs.take magic.length ≠ magic then .error (.corrupt "not a unqdb database file")
  else if u32At bs 8 ≠ version then
    .error (.corrupt s!"unsupported format version: {u32At bs 8}")
  else
    let stored := u32At bs 48
    let actual := Checksum.crc32 (bs.take 48)
    if stored ≠ actual then .error (.checksumMismatch stored actual)
    else
      check ⟨u32At bs 12, u32At bs 16, u32At bs 20, u32At bs 24, u32At bs 28, u64At bs 32,
        u64At bs 40⟩

/-- A header as reports show it. -/
def debug (h : Header) : String :=
  "FileHeader \x7b page_size: " ++ toString h.pageSize ++ ", page_count: " ++
    toString h.pageCount ++ ", free_head: " ++ toString h.freeHead ++ ", free_count: " ++
    toString h.freeCount ++ ", root: " ++ toString h.root ++ ", record_count: " ++
    toString h.recordCount ++ ", last_txn: " ++ toString h.lastTxn ++ " \x7d"

end Header

end PagedStore
