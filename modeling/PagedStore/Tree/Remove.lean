import PagedStore.Tree.Insert

/-!
# Removing from the tree

Nodes are not filled up again when they lose records. A node that has become empty is freed and
taken out of its parent, and a root that is left with a single child makes way for that child.
-/

set_option autoImplicit false

namespace PagedStore.Tree

open PagedStore.Action

/-- What has become of a subtree from which a record was taken. -/
structure Removal where
  /-- The value of the record. -/
  value : CellValue
  /-- Whether the page of the subtree was freed because nothing was left in it. -/
  emptied : Bool

/-- An interior node without one of its children; nothing if that was the only one. -/
def dropChild (first : PageId) (rest : List (Bytes × PageId)) : Nat → Option Node
  | i + 1 => some (.interior first (rest.eraseIdx i))
  | 0 =>
      match rest with
      | [] => none
      | (_, child) :: rest => some (.interior child rest)

/-- Takes the record with a key out of the tree below a node, if there is one. -/
def removeFrom (key : Bytes) : (fuel : Nat) → PageId → Action Pager (Option Removal)
  | 0, _ => throw .endless
  | fuel + 1, id => do
      match ← load id with
      | .leaf cells =>
          match Node.findCell key cells with
          | (_, false) => return none
          | (i, true) =>
              match cells[i]? with
              | none => return none
              | some cell =>
                  let cells := cells.eraseIdx i
                  if cells.isEmpty then Pager.free id else store id (.leaf cells)
                  return some ⟨cell.value, cells.isEmpty⟩
      | .interior first rest =>
          let i := Node.childIndex key rest
          match ← removeFrom key fuel (Node.child first rest i) with
          | none => return none
          | some removal =>
              if !removal.emptied then return some removal
              match dropChild first rest i with
              | none =>
                  -- The only child is gone, so this node is empty too.
                  Pager.free id
                  return some removal
              | some node =>
                  store id node
                  return some { removal with emptied := false }

/-- Lets single children take the place of their parents at the root. -/
def collapse : (fuel : Nat) → (root : PageId) → Action Pager Unit
  | 0, _ => throw .endless
  | fuel + 1, root => do
      match ← load root with
      | .interior first [] =>
          Pager.free root
          Pager.setRoot first
          collapse fuel first
      | _ => pure ()

/-- Takes the record with a key out of the tree, and tells whether there was one. -/
def remove (key : Bytes) : Action Pager Bool := do
  let root := (← self).header.root
  if root = 0 then return false
  match ← removeFrom key (← depthLimit) root with
  | none => return false
  | some removal =>
      releaseValue removal.value
      Pager.adjustRecordCount (-1)
      if removal.emptied then Pager.setRoot 0 else collapse (← depthLimit) root
      return true

end PagedStore.Tree
