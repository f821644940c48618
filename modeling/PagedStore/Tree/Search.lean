import PagedStore.SeekMode
import PagedStore.Tree.Value

/-!
# Searching the tree

Every search descends from the root. Which child it enters is decided by the separators alone, so
a neighbour of a key may turn out to lie in a child next to the one the key leads to.

A way down never meets a page twice, unless the file is damaged: one that goes deeper than the file
has pages would never end.
-/

set_option autoImplicit false

namespace PagedStore.Tree

open PagedStore.Action

variable [Codec]

/-- The node on a page. -/
def load (id : PageId) : Action Pager Node := do ofResult (Node.ofPage (← Pager.read id))

/-- More steps than any way down the tree has. -/
def depthLimit : Action Pager Nat := return (← self).header.pageCount.toNat + 1

/-! ## Single descents -/

/-- The cell with a key below a node. -/
def lookupFrom (key : Bytes) : (fuel : Nat) → PageId → Action Pager (Option Cell)
  | 0, _ => throw .endless
  | fuel + 1, id => do
      match ← load id with
      | .interior first rest => lookupFrom key fuel (Node.child first rest (Node.childIndex key rest))
      | .leaf cells =>
          match Node.findCell key cells with
          | (i, true) => return cells[i]?
          | (_, false) => return none

/-- The first cell below a node. -/
def firstFrom : (fuel : Nat) → PageId → Action Pager (Option Cell)
  | 0, _ => throw .endless
  | fuel + 1, id => do
      match ← load id with
      | .interior first _ => firstFrom fuel first
      | .leaf cells => return cells.head?

/-- The last cell below a node. -/
def lastFrom : (fuel : Nat) → PageId → Action Pager (Option Cell)
  | 0, _ => throw .endless
  | fuel + 1, id => do
      match ← load id with
      | .interior first rest => lastFrom fuel ((Node.children first rest).getLastD first)
      | .leaf cells => return cells.getLast?

/-! ## Neighbours -/

/-- What the first of several searches that finds anything finds. -/
def firstFound (search : PageId → Action Pager (Option Cell)) :
    List PageId → Action Pager (Option Cell)
  | [] => return none
  | id :: ids => do
      match ← search id with
      | some c => return some c
      | none => firstFound search ids

/-- Whether a key is below the bound, or at it when the bound is included. -/
def below (bound : Bytes) (included : Bool) (key : Bytes) : Bool :=
  if included then (compare key bound).isLE else compare key bound == .lt

/-- The first cell below a node whose key is not less than the bound, or greater than it if
`strict`. From a child beside the way to the bound a new way down begins, with a limit of its
own. -/
def ceilFrom (bound : Bytes) (strict : Bool) (limit : Nat) :
    (fuel : Nat) → PageId → Action Pager (Option Cell)
  | 0, _ => throw .endless
  | fuel + 1, id => do
      match ← load id with
      | .leaf cells =>
          return cells[partitionPoint (fun c => below bound strict c.key) cells]?
      | .interior first rest =>
          let i := Node.childIndex bound rest
          match ← ceilFrom bound strict limit fuel (Node.child first rest i) with
          | some c => return some c
          | none => firstFound (firstFrom limit) ((Node.children first rest).drop (i + 1))

/-- The last cell below a node whose key is not greater than the bound, or less than it if
`strict`. -/
def floorFrom (bound : Bytes) (strict : Bool) (limit : Nat) :
    (fuel : Nat) → PageId → Action Pager (Option Cell)
  | 0, _ => throw .endless
  | fuel + 1, id => do
      match ← load id with
      | .leaf cells =>
          return (cells.take (partitionPoint (fun c => below bound (!strict) c.key) cells)).getLast?
      | .interior first rest =>
          let i := Node.childIndex bound rest
          match ← floorFrom bound strict limit fuel (Node.child first rest i) with
          | some c => return some c
          | none => firstFound (lastFrom limit) ((Node.children first rest).take i).reverse

/-- The neighbour of a bound above it, each way down being no longer than a limit. -/
def ceilAt (bound : Bytes) (strict : Bool) (limit : Nat) (root : PageId) :
    Action Pager (Option Cell) := ceilFrom bound strict limit limit root

/-- The neighbour of a bound below it. -/
def floorAt (bound : Bytes) (strict : Bool) (limit : Nat) (root : PageId) :
    Action Pager (Option Cell) := floorFrom bound strict limit limit root

/-! ## Records -/

/-- What a search from the root finds, as a record; nothing in a tree without a root. -/
def fromRoot (search : (fuel : Nat) → PageId → Action Pager (Option Cell)) :
    Action Pager (Option (Bytes × Bytes)) := do
  let root := (← self).header.root
  if root = 0 then return none
  match ← search (← depthLimit) root with
  | none => return none
  | some c => return some (← record c)

/-- The value of a key. -/
def get (key : Bytes) : Action Pager (Option Bytes) := do
  return (← fromRoot (lookupFrom key)).map (·.2)

/-- The record with the least key. -/
def first : Action Pager (Option (Bytes × Bytes)) := fromRoot firstFrom

/-- The record with the greatest key. -/
def last : Action Pager (Option (Bytes × Bytes)) := fromRoot lastFrom

/-- The record with the least key that is greater. -/
def next (key : Bytes) : Action Pager (Option (Bytes × Bytes)) := fromRoot (ceilAt key true)

/-- The record with the greatest key that is less. -/
def prev (key : Bytes) : Action Pager (Option (Bytes × Bytes)) := fromRoot (floorAt key true)

/-- The record that a key and a mode mean. -/
def seek (key : Bytes) : SeekMode → Action Pager (Option (Bytes × Bytes))
  | .exact => do return (← get key).map fun value => (key, value)
  | .atMost => fromRoot (floorAt key false)
  | .atLeast => fromRoot (ceilAt key false)

end PagedStore.Tree
