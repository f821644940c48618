import PagedStore.Log.Entry
import PagedStore.Log.Reader

/-!
# Finding the complete transactions

After a crash the log may hold transactions that were completed but did not reach the main file,
and at its end one that was not. `recover` walks over the entries and keeps a transaction when its
mark of completion agrees with what was seen since its beginning: the same transaction, as many
page entries as were announced, and a header image. Everything else is counted and dropped. A
record that is no entry ends the walk.
-/

set_option autoImplicit false

namespace PagedStore.Log

/-- A transaction of the log. -/
structure Transaction where
  txn : UInt64
  header : Bytes
  /-- The page images in the order of the log. -/
  pages : List (UInt32 × Bytes)
  deriving DecidableEq, Repr

/-- What a walk over the log has found. -/
structure Recovery where
  /-- The complete transactions, the oldest first. -/
  committed : List Transaction := []
  /-- How many entries belong to none of them. -/
  discarded : Nat := 0
  deriving DecidableEq, Repr

/-- The state of the walk. -/
structure Scan where
  found : Recovery := {}
  /-- The transaction that has begun and not ended. -/
  pending : Option Transaction := none
  /-- How many entries have been seen since the last one that was settled. -/
  unsettled : Nat := 0

namespace Scan

/-- Settles the entries seen so far as belonging to no complete transaction. -/
def discard (s : Scan) (entries : Nat) : Recovery :=
  { s.found with discarded := s.found.discarded + entries }

/-- Whether a mark of completion agrees with a transaction. -/
def completes (t : Transaction) (txn : UInt64) (pages : UInt32) : Bool :=
  t.txn == txn && t.pages.length == pages.toNat && t.header != []

/-- Takes one entry into account. -/
def step (s : Scan) : Entry → Scan
  | .begin txn =>
      let t : Transaction := ⟨txn, [], []⟩
      match s.pending with
      | some _ => ⟨s.discard s.unsettled, some t, 1⟩
      | none => { s with pending := some t, unsettled := s.unsettled + 1 }
  | .page id image =>
      match s.pending with
      | some t =>
          { s with
            pending := some { t with pages := t.pages ++ [(id, image)] }
            unsettled := s.unsettled + 1 }
      | none => ⟨s.discard 1, none, 0⟩
  | .header image =>
      match s.pending with
      | some t =>
          { s with pending := some { t with header := image }, unsettled := s.unsettled + 1 }
      | none => ⟨s.discard 1, none, 0⟩
  | .commit txn pages =>
      match s.pending with
      | some t =>
          if completes t txn pages then
            ⟨{ s.found with committed := s.found.committed ++ [t] }, none, 0⟩
          else ⟨s.discard (s.unsettled + 1), none, 0⟩
      | none => ⟨s.discard (s.unsettled + 1), none, 0⟩

/-- Takes all entries into account, up to the first record that is none. -/
def run (s : Scan) : List Bytes → Scan
  | [] => s
  | bs :: more =>
      match Entry.decode bs with
      | .ok e => (s.step e).run more
      | .error _ => s

/-- What has been found when the log is at its end. -/
def finish (s : Scan) : Recovery := s.discard s.unsettled

end Scan

/-- The complete transactions of a log. -/
def recover (log : Bytes) : Recovery := (Scan.run {} (records log)).finish

end PagedStore.Log
