import PagedStore.Engine
import PagedStore.Library
import PagedStore.Transaction

/-!
# Databases

A database is an engine with a place for a transaction. A change made while no transaction is open
is committed at once, unless that is switched off; a change made while one is open belongs to it.

While a transaction is open, whoever does not own it has to wait before the records are read or
changed (`waits`). To begin, commit or roll back needs no waiting: at the wrong time, or in the
hands of the wrong caller, these fail.

A commit that fails is followed by a rollback, so that what could not be made permanent does not
stay visible either.
-/

set_option autoImplicit false

namespace PagedStore

/-- A database that is open. -/
structure Database where
  path : String
  engine : Engine
  transaction : TransactionSlot := {}
  autoCommit : Bool
  readOnly : Bool
  scriptTimeout : Option Duration

/-- A setting of an open database that can be changed. -/
inductive DatabaseSetting where
  | pageCacheSize (pages : Nat)
  | autoCommit (on : Bool)
  | scriptTimeout (timeout : Option Duration)
  deriving DecidableEq, Repr

namespace Database

open PagedStore.Action

variable [Codec]

variable {α : Type}

/-- The path that stands for a database in memory. -/
def memoryPath : String := ":mem:"

/-! ## Questions without an effect -/

/-- Whether a caller has to wait before reading or changing records. -/
def waits (db : Database) (caller : Caller) : Bool := db.transaction.isForeign caller

/-- The number of records. -/
def size (db : Database) : Nat := db.engine.size

/-- A database as reports show it. -/
def debug (db : Database) : String :=
  "Database \x7b path: " ++ Text.quote db.path ++ ", .. \x7d"

/-! ## Access to the engine -/

/-- An operation of the engine. -/
def onEngine (a : Action Engine α) : Action Database α :=
  zoom (·.engine) (fun e db => { db with engine := e }) a

/-- Refuses changes where they are not allowed. -/
def ensureWritable : Action Database Unit := do
  if (← self).readOnly then throw .readOnly

/-- Makes all changes permanent, or takes them back if that fails. -/
def settle : Action Database Unit := do
  match ← attempt (onEngine Engine.commit) with
  | .ok () => pure ()
  | .error e =>
      let _ ← attempt (onEngine Engine.rollback)
      throw e

/-- Changes records; outside a transaction the change is committed at once, if that is wanted. -/
def mutate (a : Action Engine α) : Action Database α := do
  ensureWritable
  let result ← onEngine a
  let db ← self
  if db.autoCommit && !db.transaction.isActive then settle
  return result

/-! ## Records -/

/-- The failure of a look-up. -/
def missing (key : Bytes) : Error := .notFound ("key " ++ Text.quoteBytes key)

/-- Stores a value under a key. -/
def store (key value : Bytes) : Action Database Unit := mutate (Engine.put key value)

/-- Adds to the end of the value of a key; a key that is not there counts as empty. -/
def append (key value : Bytes) : Action Database Unit := mutate (Engine.append key value)

/-- The value of a key, if it is there. -/
def find (key : Bytes) : Action Database (Option Bytes) := onEngine (Engine.get key)

/-- The value of a key. -/
def fetch (key : Bytes) : Action Database Bytes := do
  match ← find key with
  | some value => return value
  | none => throw (missing key)

/-- Whether a key is there. -/
def contains (key : Bytes) : Action Database Bool := return (← find key).isSome

/-- Takes a record away. -/
def delete (key : Bytes) : Action Database Unit :=
  mutate do
    if !(← Engine.delete key) then throw (missing key)

/-! ## Transactions -/

/-- Opens a transaction where the place is free, if the engine allows it. -/
def start (caller : Caller) : Action Database Unit := do
  let (_, slot) ← ofResult ((← self).transaction.begin caller)
  update fun db => { db with transaction := slot }
  match ← attempt (onEngine Engine.begin) with
  | .ok () => pure ()
  | .error e =>
      update fun db => { db with transaction := db.transaction.abandon }
      throw e

/-- Begins a transaction. -/
def begin (caller : Caller) : Action Database Unit := do
  ensureWritable
  start caller

/-- Begins the transaction around the run of a script, unless the script belongs to one already or
cannot change anything. Tells whether a transaction was begun. -/
def beginImplicit (caller : Caller) : Action Database Bool := do
  let db ← self
  if db.readOnly || db.transaction.isActive then return false
  start caller
  return true

/-- Ends the transaction of the caller without a word to the engine. -/
def finish (caller : Caller) : Action Database Unit := do
  let (_, slot) ← ofResult ((← self).transaction.finish caller)
  update fun db => { db with transaction := slot }

/-- Ends a transaction and makes its changes permanent. -/
def commit (caller : Caller) : Action Database Unit := do
  finish caller
  settle

/-- Ends a transaction and takes its changes back. -/
def rollback (caller : Caller) : Action Database Unit := do
  finish caller
  onEngine Engine.rollback

/-! ## Settings -/

/-- Changes a setting. -/
def configure : DatabaseSetting → Action Database Unit
  | .pageCacheSize pages => do
      if pages = 0 then throw (.invalidParam "page cache size must be > 0")
      onEngine (Engine.setCacheCapacity pages)
  | .autoCommit on => update fun db => { db with autoCommit := on }
  | .scriptTimeout timeout => update fun db => { db with scriptTimeout := timeout }

/-! ## Opening and closing -/

/-- The engine for a path. -/
def openEngine (path : String) (o : Options) : Action Unit Engine :=
  if path = memoryPath then return .memory {} else Engine.«open» path o

/-- Opens a database. -/
def «open» (path : String) (o : Options) : Action Library Database := do
  ofResult o.validate
  let (engine, _) ← alone (openEngine path o) ()
  let engine ← ofResult engine
  update Library.register
  return {
    path := path
    engine := engine
    autoCommit := o.autoCommit
    readOnly := o.readOnly
    scriptTimeout := o.scriptTimeout }

/-- Opens a database with the options that the library holds for that. -/
def openDefault (path : String) : Action Library Database := do
  «open» path (← self).defaults

/-- Opens a database in memory. -/
def memory : Action Library Database := «open» memoryPath {}

/-- Commits what is open. -/
def shutdown : Action Database Unit := do
  let db ← self
  update fun db => { db with transaction := db.transaction.abandon }
  if db.transaction.isActive && !db.readOnly then
    let _ ← attempt settle
  onEngine Engine.close

/-- Closes a database. The file is given up even if the last commit fails. -/
def close (db : Database) : Action Library Unit := do
  let (result, db) ← alone shutdown db
  updateDisk db.engine.release
  update Library.deregister
  ofResult result

end Database

end PagedStore
