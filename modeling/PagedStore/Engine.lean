import PagedStore.Memory
import PagedStore.Tree

/-!
# Storage engines

A database keeps its records either in the tree of a file or in memory. An engine is one of the
two, and every operation on records is offered alike by both.
-/

set_option autoImplicit false

namespace PagedStore

variable [Codec]

/-- Where records are kept. -/
inductive Engine where
  /-- In the tree of a file; long values are stored as `compression` says. -/
  | tree (pager : Pager) (compression : Compression)
  /-- In memory. -/
  | memory (store : Memory)

namespace Engine

variable {α : Type}

/-- The engine for the tree of a file. -/
def «open» (path : String) (options : Options) : Action Unit Engine := do
  return .tree (← Pager.«open» path options) options.compression

/-- An operation that each of the two kinds carries out in its own way. -/
def either (tree : Compression → Action Pager α) (memory : Memory → α × Memory) :
    Action Engine α :=
  fun (e, d) =>
    match e with
    | .tree pager compression =>
        match (tree compression).exec pager d with
        | (result, pager, d) => (result, .tree pager compression, d)
    | .memory store =>
        match memory store with
        | (result, store) => (.ok result, .memory store, d)

/-- An operation that leaves a store in memory as it is. -/
def query (tree : Action Pager α) (memory : Memory → α) : Action Engine α :=
  either (fun _ => tree) fun m => (memory m, m)

/-! ## Questions without an effect -/

/-- The name of a kind of engine. -/
def name : Engine → String
  | tree .. => "btree"
  | memory _ => "mem"

/-- Whether neighbours of a key that is not there can be found. -/
def hasRanges : Engine → Bool
  | tree .. => true
  | memory _ => false

/-- The greatest length of a key, if there is one. -/
def keyLimit? : Engine → Option Nat
  | tree p _ => some (Tree.keyLimit p.pageSize)
  | memory _ => none

/-- The number of records. -/
def size : Engine → Nat
  | tree p _ => (Tree.size p).toNat
  | memory m => m.size

/-- The pager, if there is one. -/
def pager? : Engine → Option Pager
  | tree p _ => some p
  | memory _ => none

/-- An engine as reports show it. -/
def debug : Engine → String
  | tree p c => "BTreeEngine \x7b pager: " ++ p.debug ++ ", compression: " ++ c.name ++ " \x7d"
  | memory _ => "MemEngine"

/-! ## Records -/

/-- The value of a key. -/
def get (key : Bytes) : Action Engine (Option Bytes) := query (Tree.get key) (·.get? key)

/-- Stores a value under a key. -/
def put (key value : Bytes) : Action Engine Unit :=
  either (fun c => Tree.put c key value) fun m => ((), m.put key value)

/-- Adds to the end of the value of a key; a key that is not there counts as empty. -/
def append (key value : Bytes) : Action Engine Unit :=
  either (fun c => Tree.append c key value) fun m => ((), m.append key value)

/-- Takes a record away, and tells whether it was there. -/
def delete (key : Bytes) : Action Engine Bool :=
  either (fun _ => Tree.delete key) fun m => m.erase key

/-- The record that a key and a mode mean. -/
def seek (key : Bytes) (mode : SeekMode) : Action Engine (Option (Bytes × Bytes)) :=
  query (Tree.seek key mode) (·.seek key mode)

/-- The first record. -/
def first : Action Engine (Option (Bytes × Bytes)) := query Tree.first (·.first?)

/-- The last record. -/
def last : Action Engine (Option (Bytes × Bytes)) := query Tree.last (·.last?)

/-- The record after a key. -/
def next (key : Bytes) : Action Engine (Option (Bytes × Bytes)) :=
  query (Tree.next key) (·.next? key)

/-- The record before a key. -/
def prev (key : Bytes) : Action Engine (Option (Bytes × Bytes)) :=
  query (Tree.prev key) (·.prev? key)

/-! ## Transactions -/

/-- Prepares for a transaction. -/
def begin : Action Engine Unit := either (fun _ => Pager.ensureUsable) fun m => ((), m.begin)

/-- Makes all changes permanent. -/
def commit : Action Engine Unit := either (fun _ => Pager.commit) fun m => ((), m.commit)

/-- Takes back all changes since the last commit. -/
def rollback : Action Engine Unit := either (fun _ => Pager.rollback) fun m => ((), m.rollback)

/-- Makes the last changes permanent. -/
def close : Action Engine Unit := query Tree.close fun _ => ()

/-- Changes how many pages are kept in memory. -/
def setCacheCapacity (pages : Nat) : Action Engine Unit :=
  query (Pager.setCacheCapacity pages) fun _ => ()

/-- Gives up the file without a commit. -/
def release (e : Engine) (d : Disk) : Disk :=
  match e with
  | .tree p _ => p.release d
  | .memory _ => d

end Engine

end PagedStore
