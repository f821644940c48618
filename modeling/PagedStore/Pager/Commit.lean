import PagedStore.Log.Writer
import PagedStore.Pager.Basic

/-!
# Committing

A commit writes the new image of every dirty page and of the header first to the log, then a mark
that the log is complete, and only then to the main file; at last it empties the log. Whenever
this is cut short, either the log lacks the mark and the main file is untouched, or the log holds
everything that the main file may lack.

`commitEffects` is this sequence as a list of single changes to the two files, so that stopping
anywhere means carrying out the front of the list.
-/

set_option autoImplicit false

namespace PagedStore

/-- One change of the main file or the log. -/
inductive FileEffect where
  /-- An entry is appended to the log. -/
  | append (entry : Log.Entry)
  /-- Bytes are written into the main file. -/
  | write (offset : Nat) (bytes : Bytes)
  /-- The log is emptied. -/
  | clear
  deriving DecidableEq, Repr

namespace FileEffect

/-- Carries out a change, given the main file and the log. -/
def perform (file log : NodeId) (d : Disk) : FileEffect → Disk
  | append entry => d.append log (Log.frame entry.encode)
  | write offset bytes => d.write file offset bytes
  | clear => d.truncate log 0

/-- Carries out changes in order. -/
def performAll (file log : NodeId) (effects : List FileEffect) (d : Disk) : Disk :=
  effects.foldl (perform file log) d

end FileEffect

namespace Pager

open PagedStore.Action

/-- The dirty pages in the order of their numbers. -/
def dirtyPages (p : Pager) : List Page := p.dirty.toList.map (·.2)

/-- The header that a commit is to make. -/
def nextHeader (p : Pager) : Header := { p.header with lastTxn := p.committed.lastTxn + 1 }

/-- How many dirty pages reach the main file. -/
def pagesApplied (p : Pager) : Nat :=
  match p.crashPoint with
  | none => p.dirty.size
  | some .duringPageApply => p.dirty.size / 2
  | some _ => 0

/-- The entries of a transaction without the mark that completes it. -/
def logEntries (p : Pager) : List Log.Entry :=
  .begin p.nextHeader.lastTxn :: p.dirtyPages.map (fun page => .page page.id page.image) ++
    [.header p.nextHeader.encode]

/-- The mark that completes a transaction. -/
def commitMark (p : Pager) : Log.Entry :=
  .commit p.nextHeader.lastTxn (UInt32.ofNat p.dirty.size)

/-- The writing of a page into the main file. -/
def pageEffect (p : Pager) (page : Page) : FileEffect :=
  .write (offset p.pageSize page.id) page.image

/-- All changes of the files that a commit makes, up to the place where it is made to stop. -/
def commitEffects (p : Pager) : List FileEffect :=
  let logged := p.logEntries.map FileEffect.append
  let marked := logged ++ [.append p.commitMark]
  let pages := (p.dirtyPages.take p.pagesApplied).map p.pageEffect
  match p.crashPoint with
  | some .beforeLogCommit => logged
  | some .afterLogSync => marked
  | some .duringPageApply => marked ++ pages
  | none => marked ++ pages ++ [.write 0 p.nextHeader.encode, .clear]

/-- The pager after a commit. -/
def published (p : Pager) : Pager :=
  { p with
    header := p.nextHeader
    committed := p.nextHeader
    cache := p.dirtyPages.foldl Cache.insert p.cache
    dirty := ∅
    savepoint := none
    counts := { p.counts with
      pagesWritten := p.counts.pagesWritten + p.pagesApplied
      commits := p.counts.commits + 1 } }

/-- The pager after a commit that was stopped. It still counts the transaction as one to come,
unless the main file has been touched. -/
def interrupted (point : CrashPoint) (p : Pager) : Pager :=
  { p with
    header :=
      if point = .duringPageApply then p.nextHeader
      else { p.header with lastTxn := p.committed.lastTxn }
    poisoned := some ("simulated crash at " ++ point.name)
    counts := { p.counts with pagesWritten := p.counts.pagesWritten + p.pagesApplied } }

/-- Makes all changes since the last commit lasting. -/
def commit : Action Pager Unit := do
  ensureWritable
  let p ← self
  match p.log with
  | none => throw .readOnly
  | some log =>
      if p.hasChanges then
        updateDisk (FileEffect.performAll p.file log p.commitEffects)
        match p.crashPoint with
        | none => update published
        | some point =>
            update (interrupted point)
            throw (.aborted ("simulated crash at " ++ point.name))

/-- The pager without its changes since the last commit. -/
def rolledBack (p : Pager) : Pager :=
  { p with
    header := p.committed
    dirty := ∅
    savepoint := none
    counts := { p.counts with rollbacks := p.counts.rollbacks + 1 } }

/-- Forgets all changes since the last commit. -/
def rollback : Action Pager Unit := update rolledBack

end Pager

end PagedStore
