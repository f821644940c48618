import PagedStore.Database

/-!
# Handles

Whoever opens a database holds it by a handle, through which it is closed once: to close a handle
gives up the file and counts the database as closed, even if the last commit fails, and to drop a
handle does the same if it was not closed before. A handle that is closed is dropped right after.
-/

set_option autoImplicit false

namespace PagedStore

/-- A database in the hands of somebody. -/
structure Handle where
  database : Database
  closed : Bool := false

namespace Handle

open PagedStore.Action

/-- Closes the database, unless that was done before. -/
def shutdown (h : Handle) : Action Library (Except Error Unit × Handle) := do
  if h.closed then return (.ok (), h)
  let result ← attempt h.database.close
  return (result, { h with closed := true })

/-- Drops a handle; nobody is left who could be told of a failure. -/
def drop (h : Handle) : Action Library Unit := do
  let _ ← h.shutdown

/-- Closes a handle and drops it. -/
def close (h : Handle) : Action Library Unit := do
  let (result, h) ← h.shutdown
  h.drop
  ofResult result

end Handle

end PagedStore
