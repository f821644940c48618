import PagedStore.Options

/-!
# The library as a whole

The library counts the databases that are open and holds the options of those that are opened
without any of their own. These options can be changed only while the library is shut down, and it
can be shut down only while no database is open; to open a database starts it up.
-/

set_option autoImplicit false

namespace PagedStore

/-- The state of the library. -/
structure Library where
  initialized : Bool := false
  openDatabases : Nat := 0
  /-- The options of databases that are opened without any of their own. -/
  defaults : Options := {}
  deriving DecidableEq, Repr

/-- A default that can be changed. -/
inductive LibrarySetting where
  | pageSize (size : Nat)
  | pageCacheSize (pages : Nat)
  | sync (on : Bool)
  deriving DecidableEq, Repr

namespace Library

/-- Starts the library up. -/
def start (l : Library) : Library := { l with initialized := true }

/-- Shuts the library down. -/
def shutdown (l : Library) : Except Error Library :=
  if 0 < l.openDatabases then .error (.busy s!"{l.openDatabases} database(s) still open")
  else .ok { l with initialized := false }

/-- Changes a default. -/
def configure (l : Library) (s : LibrarySetting) : Except Error Library :=
  if l.initialized then
    .error (.locked "library is initialized; shut it down before reconfiguring")
  else
    match s with
    | .pageSize size =>
        if size ∈ pageSizes then .ok { l with defaults := { l.defaults with pageSize := size } }
        else .error (.invalidParam s!"invalid page size: {size}")
    | .pageCacheSize pages =>
        if pages = 0 then .error (.invalidParam "page cache size must be > 0")
        else .ok { l with defaults := { l.defaults with pageCacheSize := pages } }
    | .sync on => .ok { l with defaults := { l.defaults with sync := on } }

/-- Counts a database that has been opened. -/
def register (l : Library) : Library :=
  { l with initialized := true, openDatabases := l.openDatabases + 1 }

/-- Counts a database that has been closed. -/
def deregister (l : Library) : Library := { l with openDatabases := l.openDatabases - 1 }

/-! ## What it is -/

/-- The version of the library. -/
def version : String := "0.1.0"

/-- The name and version of the library. -/
def signature : String := "unqdb/" ++ version

/-- The formats and engines that the library knows. -/
def ident : String := "unqdb:btree-v1:wal-v1:lua54"

/-- The terms under which the library is given. -/
def terms : String := "Copyright (C) unqdb Contributors. Licensed under MIT OR Apache-2.0."

/-- Whether handles can be shared between threads. -/
def isThreadSafe : Bool := true

end Library

end PagedStore
