import PagedStore.Page
import PagedStore.Tree.Bisect

/-!
# Nodes of the tree

A leaf holds cells in the order of their keys. An interior node has a first child and after it
pairs of a key and a child: a key separates what lies to its left, which is less, from what lies
to its right, which is not. So there is always one child more than there are keys.

The payload of a page that holds a node is

* for a leaf, the number of cells (2 bytes) and the cells: the length of the key (2), the key, the
  form of the value (1), the length of the value (4), and the value itself or, when it is stored
  in a chain of pages of its own, the first page of that chain (4);
* for an interior node, the number of keys (2), the first child (4), and for each key its length
  (2), the key and the child to its right (4).

A node fits a page when this is not longer than the payload. A node that has grown too large is
split near the middle of its length.
-/

set_option autoImplicit false

namespace PagedStore.Tree

/-! ## Cells -/

/-- Where the value of a record is. -/
inductive CellValue where
  /-- In the leaf. -/
  | inline (bytes : Bytes)
  /-- In a chain of pages, perhaps compressed; `length` is that of the value itself. -/
  | chained (length : UInt32) (head : PageId) (compressed : Bool)
  deriving DecidableEq, Repr

/-- A record in a leaf. -/
structure Cell where
  key : Bytes
  value : CellValue
  deriving DecidableEq, Repr

/-- The written form of a value. -/
def CellValue.encode : CellValue → Bytes
  | inline bs => 0 :: Bytes.ofU32 (UInt32.ofNat bs.length) ++ bs
  | chained length head compressed =>
      (if compressed then 2 else 1) :: Bytes.ofU32 length ++ Bytes.ofU32 head

/-- The length of the written form of a value. -/
def CellValue.size : CellValue → Nat
  | inline bs => 5 + bs.length
  | chained .. => 9

/-- A key with its length in front. -/
def encodeKey (key : Bytes) : Bytes := Bytes.ofU16 key.length ++ key

/-- The written form of a cell. -/
def Cell.encode (c : Cell) : Bytes := encodeKey c.key ++ c.value.encode

/-- The length of the written form of a cell. -/
def Cell.size (c : Cell) : Nat := 2 + c.key.length + c.value.size

/-! ## Nodes -/

/-- A node of the tree. -/
inductive Node where
  | leaf (cells : List Cell)
  | interior (first : PageId) (rest : List (Bytes × PageId))
  deriving DecidableEq, Repr

namespace Node

/-- The kind of the page that holds a node. -/
def kind : Node → PageKind
  | leaf _ => .leaf
  | interior .. => .interior

/-- The written form of a key and the child to its right. -/
def encodeBranch (b : Bytes × PageId) : Bytes := encodeKey b.1 ++ Bytes.ofU32 b.2

/-- The length of the written form of a key and its child. -/
def branchSize (b : Bytes × PageId) : Nat := b.1.length + 6

/-- The payload of a node. -/
def encode : Node → Bytes
  | leaf cells => Bytes.ofU16 cells.length ++ cells.flatMap Cell.encode
  | interior first rest =>
      Bytes.ofU16 rest.length ++ Bytes.ofU32 first ++ rest.flatMap encodeBranch

/-- The page that holds a node; where the node does not fit the program stops. -/
def toPage (n : Node) (id : PageId) (pageSize : Nat) : Except Error Page :=
  Page.fill id pageSize n.kind n.encode

/-- The sum of lengths. -/
def total (lengths : List Nat) : Nat := lengths.foldr (· + ·) 0

/-- The length of the payload of a node. -/
def size : Node → Nat
  | leaf cells => 2 + total (cells.map Cell.size)
  | interior _ rest => 6 + total (rest.map branchSize)

/-- Whether a node fits a page. -/
def fits (pageSize : Nat) (n : Node) : Bool := n.size ≤ pageSize - Page.frontLength

/-! ## Reading nodes -/

/-- The failure of a payload that ends too soon. -/
def truncated : Error := .corrupt "tree node truncated"

/-- What was read, or the failure of a payload that ends too soon. -/
def orTruncated {α : Type} : Option α → Except Error α
  | some x => .ok x
  | none => .error truncated

/-- Reads a key. -/
def readKey? (bs : Bytes) : Option (Bytes × Bytes) := do
  let (n, rest) ← Bytes.u16? bs
  Bytes.take? n rest

/-- Reads a value; `page` is named in the report of an unknown form. -/
def readValue (page : PageId) (bs : Bytes) : Except Error (CellValue × Bytes) := do
  let (form, rest) ← orTruncated (Bytes.u8? bs)
  let (length, rest) ← orTruncated (Bytes.u32? rest)
  if form = 0 then
    let (value, rest) ← orTruncated (Bytes.take? length.toNat rest)
    return (.inline value, rest)
  else if form = 1 ∨ form = 2 then
    let (head, rest) ← orTruncated (Bytes.u32? rest)
    return (.chained length head (form == 2), rest)
  else .error (.corrupt s!"page {page}: invalid value kind {form}")

/-- Reads a number of cells. -/
def readCells (page : PageId) : (count : Nat) → Bytes → Except Error (List Cell)
  | 0, _ => .ok []
  | count + 1, bs => do
      let (key, rest) ← orTruncated (readKey? bs)
      let (value, rest) ← readValue page rest
      return ⟨key, value⟩ :: (← readCells page count rest)

/-- Reads a number of keys and their children. -/
def readBranches : (count : Nat) → Bytes → Except Error (List (Bytes × PageId))
  | 0, _ => .ok []
  | count + 1, bs => do
      let (key, rest) ← orTruncated (readKey? bs)
      let (child, rest) ← orTruncated (Bytes.u32? rest)
      return (key, child) :: (← readBranches count rest)

/-- The node that a page holds. -/
def ofPage (p : Page) : Except Error Node := do
  let bs := p.payload
  match ← p.kind with
  | .leaf =>
      let (count, rest) ← orTruncated (Bytes.u16? bs)
      return .leaf (← readCells p.id count rest)
  | .interior =>
      let (count, rest) ← orTruncated (Bytes.u16? bs)
      let (first, rest) ← orTruncated (Bytes.u32? rest)
      return .interior first (← readBranches count rest)
  | kind =>
      .error (.corrupt
        (s!"page {p.id} is a " ++ kind.name ++ " page, expected a tree node"))

/-! ## Finding the way -/

/-- The place of a key among cells, and whether it is there. -/
def findCell (key : Bytes) (cells : List Cell) : Nat × Bool :=
  bisect (fun c => compare c.key key) cells

/-- The number of the child that leads to a key: how many keys are not greater. -/
def childIndex (key : Bytes) (rest : List (Bytes × PageId)) : Nat :=
  partitionPoint (fun b => (compare b.1 key).isLE) rest

/-- The child with a given number. -/
def child (first : PageId) (rest : List (Bytes × PageId)) : Nat → PageId
  | 0 => first
  | i + 1 => (rest.map (·.2)).getD i first

/-- All children in order. -/
def children (first : PageId) (rest : List (Bytes × PageId)) : List PageId :=
  first :: rest.map (·.2)

/-! ## Splitting -/

/-- The first place before which the lengths add up to at least `half`; `left` is the sum of the
lengths already passed. -/
def middle? (half : Nat) : (left : Nat) → List Nat → Option Nat
  | _, [] => none
  | left, n :: ns => if half ≤ left then some 0 else (middle? half (left + n) ns).map (· + 1)

/-- Where the cells of a leaf are divided, so that neither side is empty. -/
def leafCut (cells : List Cell) : Nat :=
  let sizes := cells.map Cell.size
  let last := cells.length - 1
  min last (max 1 ((middle? (total sizes / 2) 0 sizes).getD last))

/-- Which key of an interior node moves up, so that keys are left on both sides where there are
enough of them. -/
def interiorCut (rest : List (Bytes × PageId)) : Nat :=
  let sizes := rest.map branchSize
  let at' := (middle? (total sizes / 2) 0 sizes).getD (rest.length / 2)
  min (max 1 (rest.length - 2)) (max 1 at')

end Node

end PagedStore.Tree
