import PagedStore.Checksum
import PagedStore.Error

/-!
# Pages

The file is divided into pages of one size. Page 0 holds the file header; every other page is

    checksum (4 bytes), kind (1 byte), payload

where the checksum covers everything after it. A page in memory need not carry the right checksum:
`sealed` puts it in and `verify` compares.
-/

set_option autoImplicit false

namespace PagedStore

/-- The number of a page in its file. -/
abbrev PageId := UInt32

/-- What a page is used for. -/
inductive PageKind where
  /-- Nothing: the page is on the free list. -/
  | free
  /-- A leaf of the tree. -/
  | leaf
  /-- A node of the tree with children. -/
  | interior
  /-- A part of a value too large for a leaf. -/
  | overflow
  deriving DecidableEq, Repr

namespace PageKind

/-- The number of a kind. -/
def tag : PageKind → UInt8
  | free => 1
  | leaf => 2
  | interior => 3
  | overflow => 4

/-- The name of a kind. -/
def name : PageKind → String
  | free => "Free"
  | leaf => "Leaf"
  | interior => "Interior"
  | overflow => "Overflow"

/-- The kind with a given number. -/
def ofTag (n : UInt8) : Except Error PageKind :=
  if n = 1 then .ok free
  else if n = 2 then .ok leaf
  else if n = 3 then .ok interior
  else if n = 4 then .ok overflow
  else .error (.corrupt s!"invalid page type: {n}")

theorem ofTag_tag (k : PageKind) : ofTag k.tag = .ok k := by cases k <;> rfl

end PageKind

/-- A page with its number. -/
structure Page where
  id : PageId
  image : Bytes
  deriving DecidableEq, Repr

namespace Page

/-- The length of what stands before the payload. -/
def frontLength : Nat := 5

/-- An unsealed page of `size` bytes whose payload begins with the given bytes and goes on with
zeros. There has to be room for the bytes, as there is in every page for a link of a list and in
every page of a chain for its part; `fill` is for bytes that may be too many. -/
def make (id : PageId) (size : Nat) (kind : PageKind) (payload : Bytes) : Page :=
  ⟨id, [0, 0, 0, 0, kind.tag] ++ Bytes.resize (size - frontLength) payload⟩

/-- The same page; where there is no room for the bytes the program stops. -/
def fill (id : PageId) (size : Nat) (kind : PageKind) (payload : Bytes) : Except Error Page :=
  if payload.length ≤ size - frontLength then .ok (make id size kind payload)
  else .error .panicked

/-- The number that stands for the kind. -/
def kindTag (p : Page) : UInt8 := (p.image.drop 4).headD 0

/-- What the page is used for. -/
def kind (p : Page) : Except Error PageKind := PageKind.ofTag p.kindTag

/-- What follows the checksum and the kind. -/
def payload (p : Page) : Bytes := p.image.drop frontLength

/-- The checksum of the contents. -/
def checksum (p : Page) : UInt32 := Checksum.crc32 (p.image.drop 4)

/-- The checksum that is stored. -/
def stored (p : Page) : UInt32 := UInt32.ofNat (Bytes.toNatLE (p.image.take 4))

/-- Stores the checksum of the contents. -/
def sealed (p : Page) : Page := { p with image := Bytes.ofU32 p.checksum ++ p.image.drop 4 }

/-- Compares the stored checksum with that of the contents. -/
def verify (p : Page) : Except Error Unit :=
  if p.stored = p.checksum then .ok () else .error (.checksumMismatch p.stored p.checksum)

/-- A page as reports show it. -/
def debug (p : Page) : String :=
  let kind := match p.kind with
    | .ok k => "Some(" ++ k.name ++ ")"
    | .error _ => "None"
  "Page \x7b id: " ++ toString p.id ++ ", page_type: " ++ kind ++ ", len: " ++
    toString p.image.length ++ " \x7d"

end Page

end PagedStore
