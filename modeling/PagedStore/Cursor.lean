import PagedStore.Database

/-!
# Cursors

A cursor goes through the records of a database. It remembers no more than the record it stands
on, and searches for the key anew with every move, so it sees what has been changed in between. If
its record is taken away by someone else there is nothing to be read, but the way on and back is
still known from the key.
-/

set_option autoImplicit false

namespace PagedStore

/-- Where a cursor stands. -/
inductive Cursor.Position where
  /-- It has not been placed yet. -/
  | unplaced
  /-- On a record, with the value that was last seen. -/
  | at (key value : Bytes)
  /-- Where there was a record that is gone. -/
  | detached (key : Bytes)
  /-- Beyond the records. -/
  | eof
  deriving DecidableEq, Repr

/-- A cursor. -/
structure Cursor where
  position : Cursor.Position := .unplaced
  closed : Bool := false
  deriving DecidableEq, Repr

namespace Cursor

open PagedStore.Action

variable [Codec]

/-- Whether the cursor ran off the records. -/
def isEof (c : Cursor) : Bool := c.position = .eof

/-- A cursor that is released. -/
def close : Cursor := { closed := true }

/-! ## Parts of a move -/

/-- An operation of the database that the cursor is on. -/
def onDatabase {α : Type} (a : Action Database α) : Action (Cursor × Database) α :=
  zoom (·.2) (fun db s => (s.1, db)) a

/-- Puts the cursor somewhere. -/
def place (p : Position) : Action (Cursor × Database) Unit :=
  update fun (c, db) => ({ c with position := p }, db)

/-- Refuses to use a cursor that is released. -/
def ensureOpen : Action (Cursor × Database) Unit := do
  if (← self).1.closed then throw (.invalidState "cursor is closed")

/-- Places the cursor on what was found, or beyond the records. -/
def land (found : Option (Bytes × Bytes)) (miss : Error) : Action (Cursor × Database) Unit := do
  match found with
  | some (key, value) => place (.at key value)
  | none =>
      place .eof
      throw miss

/-- Places the cursor on what an operation of the engine finds. -/
def goTo (search : Action Engine (Option (Bytes × Bytes))) (miss : Error) :
    Action (Cursor × Database) Unit := do
  land (← onDatabase (Database.onEngine search)) miss

/-! ## Moves -/

/-- Looks for a record. -/
def seek (key : Bytes) (mode : SeekMode) : Action (Cursor × Database) Unit := do
  ensureOpen
  goTo (Engine.seek key mode) (.notFound (mode.name ++ " seek for " ++ Text.quoteBytes key))

/-- Goes to the first record. -/
def first : Action (Cursor × Database) Unit := do
  ensureOpen
  goTo Engine.first .eof

/-- Goes to the last record. -/
def last : Action (Cursor × Database) Unit := do
  ensureOpen
  goTo Engine.last .eof

/-- Goes on from the key that the cursor remembers. -/
def step (search : Bytes → Action Engine (Option (Bytes × Bytes))) :
    Action (Cursor × Database) Unit := do
  ensureOpen
  match (← self).1.position with
  | .unplaced => throw (.invalidState "cursor is not positioned")
  | .eof => throw .eof
  | .at key _ => goTo (search key) .eof
  | .detached key => goTo (search key) .eof

/-- Goes to the record after the one it is on. -/
def next : Action (Cursor × Database) Unit := step Engine.next

/-- Goes to the record before the one it is on. -/
def prev : Action (Cursor × Database) Unit := step Engine.prev

/-- Returns to the state of a cursor that has not been placed. -/
def reset : Action (Cursor × Database) Unit := do
  ensureOpen
  place .unplaced

/-! ## The current record -/

/-- Whether the cursor is on a record that is still there. -/
def isValid : Action (Cursor × Database) Bool := do
  let (c, _) ← self
  match c.position with
  | .at key _ =>
      if c.closed then return false
      match ← outcome (onDatabase (Database.contains key)) with
      | .ok found => return found
      | .error _ => return false
  | _ => return false

/-- Looks again for the record that the cursor is on. -/
def refresh : Action (Cursor × Database) Unit := do
  match (← self).1.position with
  | .at key _ =>
      match ← onDatabase (Database.find key) with
      | some value => place (.at key value)
      | none => place (.detached key)
  | _ => pure ()

/-- Why there is no record where the cursor stands. -/
def noRecord : Position → Error
  | .detached _ => .invalidState "record under cursor was deleted"
  | .eof => .invalidState "cursor is at end of input"
  | _ => .invalidState "cursor is not positioned"

/-- The record that the cursor is on, as it is now. -/
def entry : Action (Cursor × Database) (Bytes × Bytes) := do
  ensureOpen
  refresh
  match (← self).1.position with
  | .at key value => return (key, value)
  | p => throw (noRecord p)

/-- Takes away a record and finds the one after it; nothing if the record was not there. -/
def takeOut (key : Bytes) : Action Engine (Option (Option (Bytes × Bytes))) := do
  let next ← Engine.next key
  if ← Engine.delete key then return some next else return none

/-- Takes away the record that the cursor is on and goes to the one after it. -/
def delete : Action (Cursor × Database) Unit := do
  ensureOpen
  match (← self).1.position with
  | .at key _ =>
      match ← onDatabase (Database.mutate (takeOut key)) with
      | some (some (key, value)) => place (.at key value)
      | some none => place .eof
      | none =>
          place (.detached key)
          throw (noRecord (.detached key))
  | p => throw (noRecord p)

end Cursor

end PagedStore
