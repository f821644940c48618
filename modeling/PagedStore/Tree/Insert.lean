import PagedStore.Tree.Search

/-!
# Inserting into the tree

A record goes into the leaf that its key leads to. A node that no longer fits its page is divided:
the left part keeps the page, the right part takes a new one, and the key that separates the two
goes with the new page into the parent, which may be divided in turn. When the root is divided a
new root takes its place above it.
-/

set_option autoImplicit false

namespace PagedStore.Tree

open PagedStore.Action

variable [Codec]

/-! ## Dividing nodes -/

/-- Cells with one put in the place of its key, and the value that stood there. -/
def putCell (cell : Cell) (cells : List Cell) : List Cell × Option CellValue :=
  match Node.findCell cell.key cells with
  | (i, true) => (cells.set i cell, cells[i]?.map (·.value))
  | (i, false) => (cells.insertIdx i cell, none)

/-- The two parts of a node and the key that separates them: it is the first one on the right of a
leaf, and taken out of an interior node. There has to be a cell before the cut of a leaf and a key
at that of an interior node; the program stops where a node is too short for that. -/
def divide : Node → Except Error (Node × Bytes × Node)
  | .leaf cells =>
      let cut := Node.leafCut cells
      match cells.drop cut with
      | c :: right =>
          if 0 < cut then .ok (.leaf (cells.take cut), c.key, .leaf (c :: right))
          else .error .panicked
      | [] => .error .panicked
  | .interior first rest =>
      let cut := Node.interiorCut rest
      match rest.drop cut with
      | (separator, child) :: right =>
          .ok (.interior first (rest.take cut), separator, .interior child right)
      | [] => .error .panicked

/-! ## Storing nodes -/

/-- Stores a node on its page. -/
def store (id : PageId) (n : Node) : Action Pager Unit := do
  let page ← ofResult (n.toPage id (← self).pageSize)
  Pager.write page

/-- Stores a node on a new page. -/
def create (n : Node) : Action Pager PageId := do
  let id ← Pager.allocate
  store id n
  return id

/-- Stores a node on its page, in two parts if it does not fit; then the right part has a new
page, which is given with the key that separates the parts. -/
def storeDivided (id : PageId) (n : Node) : Action Pager (Option (Bytes × PageId)) := do
  if n.fits (← self).pageSize then
    store id n
    return none
  else
    let (left, separator, right) ← ofResult (divide n)
    let sibling ← create right
    store id left
    return some (separator, sibling)

/-! ## Descending -/

/-- What has become of a subtree into which a record was put. -/
structure Insertion where
  /-- The value that the new one replaces. -/
  replaced : Option CellValue
  /-- The page of a new right sibling, with the key that separates it. -/
  sibling : Option (Bytes × PageId)

/-- Puts a cell below a node. -/
def insertFrom (cell : Cell) : (fuel : Nat) → PageId → Action Pager Insertion
  | 0, _ => throw .endless
  | fuel + 1, id => do
      match ← load id with
      | .leaf cells =>
          let (cells, replaced) := putCell cell cells
          return ⟨replaced, ← storeDivided id (.leaf cells)⟩
      | .interior first rest =>
          let i := Node.childIndex cell.key rest
          let insertion ← insertFrom cell fuel (Node.child first rest i)
          match insertion.sibling with
          | none => return insertion
          | some branch =>
              return ⟨insertion.replaced,
                ← storeDivided id (.interior first (rest.insertIdx i branch))⟩

/-- Puts a record into a tree with a root. -/
def insertAt (root : PageId) (cell : Cell) : Action Pager Unit := do
  let insertion ← insertFrom cell (← depthLimit) root
  match insertion.sibling with
  | some branch => Pager.setRoot (← create (.interior root [branch]))
  | none => pure ()
  match insertion.replaced with
  | some old => releaseValue old
  | none => Pager.adjustRecordCount 1

/-- Puts a record into the tree. -/
def insert (compression : Compression) (key value : Bytes) : Action Pager Unit := do
  let cell : Cell := ⟨key, ← makeValue compression key value⟩
  let root := (← self).header.root
  if root = 0 then
    Pager.setRoot (← create (.leaf [cell]))
    Pager.adjustRecordCount 1
  else insertAt root cell

end PagedStore.Tree
