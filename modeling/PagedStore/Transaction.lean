import PagedStore.Error

/-!
# The protocol of transactions

A database has one place for a transaction. Whoever begins one when the place is free owns it, and
nobody else may end it; only when the database goes away is a transaction taken from its owner.
Every transaction has a number of its own, larger than all before it.
-/

set_option autoImplicit false

namespace PagedStore

/-- Whoever calls a database, by number. -/
abbrev Caller := Nat

/-- A transaction that has begun and not ended. -/
structure OpenTransaction where
  id : Nat
  owner : Caller
  deriving DecidableEq, Repr

/-- The place for a transaction. -/
structure TransactionSlot where
  current : Option OpenTransaction := none
  /-- How many transactions have begun. The 64 bits for it are not used up in the life of a process:
  a transaction every nanosecond takes more than five hundred years. -/
  lastId : Nat := 0
  deriving DecidableEq, Repr

namespace TransactionSlot

/-- Whether a transaction is open. -/
def isActive (s : TransactionSlot) : Bool := s.current.isSome

/-- Who owns the open transaction. -/
def owner? (s : TransactionSlot) : Option Caller := s.current.map (·.owner)

/-- Whether a transaction of someone else is open. -/
def isForeign (s : TransactionSlot) (caller : Caller) : Bool :=
  s.owner?.any (· != caller)

/-- Begins a transaction. -/
def begin (s : TransactionSlot) (caller : Caller) : Except Error (Nat × TransactionSlot) :=
  match s.current with
  | some t => .error (.lockError s!"transaction {t.id} is already active")
  | none => .ok (s.lastId + 1, ⟨some ⟨s.lastId + 1, caller⟩, s.lastId + 1⟩)

/-- Ends the transaction of the caller. -/
def finish (s : TransactionSlot) (caller : Caller) : Except Error (Nat × TransactionSlot) :=
  match s.current with
  | some t =>
      if t.owner = caller then .ok (t.id, { s with current := none })
      else .error (.lockError s!"transaction {t.id} belongs to another thread")
  | none => .error (.lockError "no active transaction")

/-- The place without its transaction, whoever owns it. -/
def abandon (s : TransactionSlot) : TransactionSlot := { s with current := none }

end TransactionSlot

/-- A call on the place for a transaction. -/
inductive TransactionCall where
  | begin (caller : Caller)
  | finish (caller : Caller)
  | abandon
  deriving DecidableEq, Repr

namespace TransactionCall

/-- What comes of an attempt to begin or end a transaction; one that fails leaves the place as it
is. -/
def outcome (s : TransactionSlot) :
    Except Error (Nat × TransactionSlot) → Except Error (Option Nat) × TransactionSlot
  | .ok (id, s') => (.ok (some id), s')
  | .error e => (.error e, s)

/-- The answer to a call, which is the number of the transaction that it began or ended, and the
place after it. -/
def run (s : TransactionSlot) : TransactionCall → Except Error (Option Nat) × TransactionSlot
  | begin caller => outcome s (s.begin caller)
  | finish caller => outcome s (s.finish caller)
  | abandon => (.ok (s.current.map (·.id)), s.abandon)

end TransactionCall

end PagedStore
