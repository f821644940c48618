import PagedStore.Bytes
import PagedStore.SeekMode
import Std.Data.ExtTreeMap

/-!
# Records in memory

A store that keeps its records in the order in which their keys were first put. Each key is given
a serial number, larger than all before it, and the records are a list in the order of these
numbers; an index leads from a key to its number. The keys have no order among themselves, so a
neighbour of a key that is not there does not exist.

Beginning a transaction keeps a copy of the records, which rolling back puts in their place again.
-/

set_option autoImplicit false

namespace PagedStore

/-- The records of a store in memory. -/
structure Memory.Contents where
  /-- Serial numbers and records, in increasing order of the numbers. -/
  records : List (Nat × Bytes × Bytes) := []
  /-- The serial number of each key. -/
  index : Std.ExtTreeMap Bytes Nat := ∅
  /-- The number that the next new key is given. It grows by one with a new key, so that no process
  lives to see 64 bits used up. -/
  nextSerial : Nat := 0

/-- A store in memory. -/
structure Memory where
  contents : Memory.Contents := {}
  /-- The contents when the transaction began. -/
  snapshot : Option Memory.Contents := none

namespace Memory

/-! ## Contents -/

namespace Contents

/-- The record of a key. -/
def record? (c : Contents) (key : Bytes) : Option (Bytes × Bytes) := do
  c.records.lookup (← c.index[key]?)

/-- Records with one more at the place of its number, instead of any that had this number. -/
def placed (records : List (Nat × Bytes × Bytes)) (r : Nat × Bytes × Bytes) :
    List (Nat × Bytes × Bytes) :=
  (records.takeWhile fun s => s.1 < r.1) ++ r :: records.dropWhile fun s => s.1 ≤ r.1

/-- Stores a value under a key: in the place of the old one, or under the next number. -/
def put (c : Contents) (key value : Bytes) : Contents :=
  match c.index[key]? with
  | some serial => { c with
      records := c.records.map fun r => if r.1 = serial then (r.1, r.2.1, value) else r }
  | none => {
      records := placed c.records (c.nextSerial, key, value)
      index := c.index.insert key c.nextSerial
      nextSerial := c.nextSerial + 1 }

/-- Takes away a key, and tells whether it was there. -/
def erase (c : Contents) (key : Bytes) : Bool × Contents :=
  match c.index[key]? with
  | some serial => (true, { c with
      records := c.records.filter fun r => r.1 ≠ serial
      index := c.index.erase key })
  | none => (false, c)

/-- The record after that of a key. -/
def next? (c : Contents) (key : Bytes) : Option (Bytes × Bytes) := do
  let serial ← c.index[key]?
  return (← c.records.find? fun r => serial < r.1).2

/-- The record before that of a key. -/
def prev? (c : Contents) (key : Bytes) : Option (Bytes × Bytes) := do
  let serial ← c.index[key]?
  return (← (c.records.takeWhile fun r => r.1 < serial).getLast?).2

end Contents

/-! ## Operations -/

/-- The value of a key. -/
def get? (m : Memory) (key : Bytes) : Option Bytes := (m.contents.record? key).map (·.2)

/-- Stores a value under a key. -/
def put (m : Memory) (key value : Bytes) : Memory :=
  { m with contents := m.contents.put key value }

/-- Adds to the end of the value of a key; a key that is not there counts as empty. -/
def append (m : Memory) (key value : Bytes) : Memory :=
  m.put key ((m.get? key).getD [] ++ value)

/-- Takes away a key, and tells whether it was there. -/
def erase (m : Memory) (key : Bytes) : Bool × Memory :=
  match m.contents.erase key with
  | (found, contents) => (found, { m with contents := contents })

/-- The record of a key; there is no other way to look for one, so the mode has no effect. -/
def seek (m : Memory) (key : Bytes) (_mode : SeekMode) : Option (Bytes × Bytes) :=
  m.contents.record? key

/-- The record whose key was put first. -/
def first? (m : Memory) : Option (Bytes × Bytes) := m.contents.records.head?.map (·.2)

/-- The record whose key was put last. -/
def last? (m : Memory) : Option (Bytes × Bytes) := m.contents.records.getLast?.map (·.2)

/-- The record after that of a key. -/
def next? (m : Memory) (key : Bytes) : Option (Bytes × Bytes) := m.contents.next? key

/-- The record before that of a key. -/
def prev? (m : Memory) (key : Bytes) : Option (Bytes × Bytes) := m.contents.prev? key

/-- The number of records. -/
def size (m : Memory) : Nat := m.contents.records.length

/-- Keeps a copy of the records. -/
def begin (m : Memory) : Memory := { m with snapshot := some m.contents }

/-- Drops the copy of the records. -/
def commit (m : Memory) : Memory := { m with snapshot := none }

/-- Returns to the copy of the records, if there is one. -/
def rollback (m : Memory) : Memory :=
  match m.snapshot with
  | some contents => { contents := contents }
  | none => m

end Memory

end PagedStore
