import PagedStore.Database

/-!
# Calls

The calls that several callers can make on one database, as values: each is one step, so that what
happens to a database is a list of callers and calls. A step is possible when its call needs no
waiting (`Call.enabled`).
-/

set_option autoImplicit false

namespace PagedStore

/-- A call on a database. -/
inductive Call where
  | store (key value : Bytes)
  | append (key value : Bytes)
  | fetch (key : Bytes)
  | find (key : Bytes)
  | contains (key : Bytes)
  | delete (key : Bytes)
  | size
  | isEmpty
  | begin
  | commit
  | rollback
  | inTransaction
  deriving DecidableEq, Repr

/-- The result of a call. -/
inductive Reply where
  | done
  | truth (b : Bool)
  | count (n : Nat)
  | value (bs : Bytes)
  | perhaps (bs : Option Bytes)
  deriving DecidableEq, Repr

namespace Call

open PagedStore.Action

variable [Codec]

/-- Whether a call reads or changes records, so that it has to wait for the transaction of someone
else to end. -/
def touchesRecords : Call → Bool
  | begin | commit | rollback | inTransaction => false
  | _ => true

/-- Whether a caller can make a call now. -/
def enabled (db : Database) (caller : Caller) (c : Call) : Bool :=
  !(c.touchesRecords && db.waits caller)

/-- Carries out a call. -/
def run (caller : Caller) : Call → Action Database Reply
  | store key value => do Database.store key value; return .done
  | append key value => do Database.append key value; return .done
  | fetch key => return .value (← Database.fetch key)
  | find key => return .perhaps (← Database.find key)
  | contains key => return .truth (← Database.contains key)
  | delete key => do Database.delete key; return .done
  | size => return .count (← self).size
  | isEmpty => return .truth ((← self).size == 0)
  | begin => do Database.begin caller; return .done
  | commit => do Database.commit caller; return .done
  | rollback => do Database.rollback caller; return .done
  | inTransaction => return .truth (← self).transaction.isActive

end Call

end PagedStore
