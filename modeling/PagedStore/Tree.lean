import PagedStore.Pager.Opening
import PagedStore.Tree.Remove

/-!
# The tree of records

The records of a file are the cells of its tree, in the order of their keys. Every change runs
under a savepoint: one that fails leaves the tree as it was.
-/

set_option autoImplicit false

namespace PagedStore.Tree

open PagedStore.Action

variable [Codec]

/-! ## Changes -/

/-- What becomes of the changes of an action that ended in an error: they are taken back. An action
that stopped at a check of its own does not come to that, and what it had changed stays. -/
def abandon : Error → Action Pager Unit
  | .panicked => Pager.endOp
  | _ => Pager.undoOp

/-- Runs an action under a savepoint and takes it back if it fails. -/
def atomically {α : Type} (a : Action Pager α) : Action Pager α := do
  Pager.beginOp
  match ← attempt a with
  | .ok result =>
      Pager.endOp
      return result
  | .error e =>
      abandon e
      throw e

/-- Refuses keys that are too long for a page. -/
def checkKey (key : Bytes) : Action Pager Unit := do
  let limit := keyLimit (← self).pageSize
  if limit < key.length then
    throw (.limitReached s!"key of {key.length} bytes exceeds the {limit} byte limit")

/-- Stores a value under a key. -/
def put (compression : Compression) (key value : Bytes) : Action Pager Unit := do
  checkKey key
  atomically (insert compression key value)

/-- Adds to the end of the value of a key; a key that is not there counts as empty. -/
def append (compression : Compression) (key value : Bytes) : Action Pager Unit := do
  checkKey key
  atomically do
    let old := (← get key).getD []
    insert compression key (old ++ value)

/-- Takes a record away, and tells whether it was there. -/
def delete (key : Bytes) : Action Pager Bool := atomically (remove key)

/-! ## The file as a whole -/

/-- The number of records. -/
def size (p : Pager) : UInt64 := p.header.recordCount

/-- Makes the last changes permanent, where there can be any. -/
def close : Action Pager Unit := do
  let p ← self
  if p.readOnly || p.poisoned.isSome then return
  Pager.commit

end PagedStore.Tree
