import PagedStore.Action
import PagedStore.Page.Cache
import PagedStore.Page.Header
import PagedStore.Text.Quoted

/-!
# The pager

The pager gives out the pages of a database file. A page that was written is kept in memory until
the next commit, in the set of dirty pages; the main file and the cache hold the state of the last
commit. So reading looks among the dirty pages first, then in the cache, then in the file.

Pages that are no longer used form the free list: the header names its first page, and each of
its pages names the next one. Allocation takes the first page of the list and lets the file grow
only when the list is empty.

A savepoint remembers the header and, for each page written since, what the set of dirty pages
held for it before. `undoOp` puts all of that back.

A commit that was stopped half way leaves the pager poisoned: the log may hold a transaction that
this pager does not know to be committed, so it neither reads nor writes any more.
-/

set_option autoImplicit false

namespace PagedStore

/-- What is needed to take back the changes since some moment. -/
structure Savepoint where
  header : Header
  /-- For each page written since, the dirty page that stood in its place. -/
  before : List (PageId × Option Page) := []

/-- What a pager has counted, the cache apart. A count grows by one with a page or a commit, so that
no process lives to see 64 bits used up, and has no bound here. -/
structure PagerCounts where
  pagesRead : Nat := 0
  pagesWritten : Nat := 0
  commits : Nat := 0
  rollbacks : Nat := 0
  deriving DecidableEq, Repr

/-- A database file that is open. -/
structure Pager where
  path : String
  file : NodeId
  /-- The log, when the file may be changed. -/
  log : Option NodeId
  pageSize : Nat
  /-- The header with all changes since the last commit. -/
  header : Header
  /-- The header of the last commit. -/
  committed : Header
  cache : Cache
  dirty : PageMap := ∅
  maxPages : UInt32
  crashPoint : Option CrashPoint
  /-- Why the pager must not be used any more. -/
  poisoned : Option String := none
  savepoint : Option Savepoint := none
  counts : PagerCounts := {}

namespace Pager

open PagedStore.Action

/-! ## Questions without an effect -/

/-- Whether the file may only be read. -/
def readOnly (p : Pager) : Bool := p.log.isNone

/-- Whether anything has changed since the last commit. -/
def hasChanges (p : Pager) : Bool := !p.dirty.isEmpty || p.header != p.committed

/-- Whether a number is that of a page other than the header page. -/
def inRange (p : Pager) (id : PageId) : Bool := id != 0 && id < p.header.pageCount

/-- The place of a page in the main file. -/
def offset (pageSize : Nat) (id : PageId) : Nat := id.toNat * pageSize

/-- A pager as reports show it. -/
def debug (p : Pager) : String :=
  "Pager \x7b path: " ++ Text.quote p.path ++ ", page_size: " ++ toString p.pageSize ++
    ", header: " ++ p.header.debug ++ ", dirty: " ++ toString p.dirty.size ++ ", read_only: " ++
    toString p.readOnly ++ " \x7d"

/-! ## Guards -/

/-- Refuses to go on after an interrupted commit. -/
def ensureUsable : Action Pager Unit := do
  match (← self).poisoned with
  | some reason => throw (.aborted ("pager unusable: " ++ reason))
  | none => pure ()

/-- Refuses changes where they are not allowed. -/
def ensureWritable : Action Pager Unit := do
  if (← self).readOnly then throw .readOnly
  ensureUsable

/-! ## Pages -/

/-- Reads a page from the main file, checks it and puts it into the cache. -/
def load (id : PageId) : Action Pager Page := do
  let p ← self
  let image := (← disk).read p.file (offset p.pageSize id) p.pageSize
  if image.length < p.pageSize then
    throw (.corrupt s!"page {id} lies beyond the end of the file")
  let page : Page := ⟨id, image⟩
  match page.verify with
  | .error e => throw (.corrupt (s!"page {id}: " ++ e.message))
  | .ok () =>
      update fun p => { p with
        counts := { p.counts with pagesRead := p.counts.pagesRead + 1 }
        cache := p.cache.insert page }
      return page

/-- The current image of a page. -/
def read (id : PageId) : Action Pager Page := do
  ensureUsable
  let p ← self
  if !p.inRange id then throw (.corrupt s!"page {id} out of range")
  match p.dirty[id]? with
  | some page => return page
  | none =>
      let (hit, cache) := p.cache.get id
      update fun p => { p with cache := cache }
      match hit with
      | some page => return page
      | none => load id

/-- A savepoint that can take back the writing of a page. -/
def Savepoint.note (dirty : PageMap) (id : PageId) (s : Savepoint) : Savepoint :=
  if (s.before.lookup id).isSome then s else { s with before := (id, dirty[id]?) :: s.before }

/-- Gives a page a new image. -/
def write (page : Page) : Action Pager Unit := do
  ensureWritable
  if !(← self).inRange page.id then
    throw (.corrupt s!"write to page {page.id} out of range")
  update fun p => { p with
    savepoint := p.savepoint.map (Savepoint.note p.dirty page.id)
    dirty := p.dirty.insert page.id page.sealed }

/-- Takes the first page of the free list. -/
def takeFree (id : PageId) : Action Pager PageId := do
  let page ← read id
  let kind ← ofResult page.kind
  if kind ≠ .free ∨ (← self).header.freeCount = 0 then
    throw (.corrupt s!"free list entry {id} is not a free page")
  let next := UInt32.ofNat (Bytes.toNatLE (page.payload.take 4))
  update fun p => { p with
    header := { p.header with freeHead := next, freeCount := p.header.freeCount - 1 } }
  return id

/-- Gives out the number of a page that is not in use: the first one of the free list or, when
the list is empty, one by which the file grows. -/
def allocate : Action Pager PageId := do
  ensureWritable
  let p ← self
  if p.header.freeHead ≠ 0 then takeFree p.header.freeHead
  else if p.maxPages ≤ p.header.pageCount then
    throw (.full s!"page limit of {p.maxPages} reached")
  else
    update fun p => { p with
      header := { p.header with pageCount := p.header.pageCount + 1 } }
    return p.header.pageCount

/-- Puts a page on the free list. -/
def free (id : PageId) : Action Pager Unit := do
  ensureWritable
  let p ← self
  write (.make id p.pageSize .free (Bytes.ofU32 p.header.freeHead))
  update fun p => { p with
    header := { p.header with freeHead := id, freeCount := p.header.freeCount + 1 } }

/-! ## The header -/

/-- Names the root of the tree. -/
def setRoot (id : PageId) : Action Pager Unit :=
  update fun p => { p with header := { p.header with root := id } }

/-- The sum of a counter and a difference, held within the range of counters. -/
def addSaturating (n : UInt64) (delta : Int) : UInt64 :=
  UInt64.ofNat (min (UInt64.size - 1) ((n.toNat : Int) + delta).toNat)

/-- Changes the number of records. -/
def adjustRecordCount (delta : Int) : Action Pager Unit :=
  update fun p => { p with
    header := { p.header with recordCount := addSaturating p.header.recordCount delta } }

/-! ## Savepoints -/

/-- Remembers the state so that it can be returned to. -/
def beginOp : Action Pager Unit :=
  update fun p => { p with savepoint := some { header := p.header } }

/-- Forgets the state that was remembered. -/
def endOp : Action Pager Unit := update fun p => { p with savepoint := none }

/-- Puts back what stood in the place of a dirty page. -/
def restore (dirty : PageMap) : PageId × Option Page → PageMap
  | (id, some page) => dirty.insert id page
  | (id, none) => dirty.erase id

/-- Returns to the state that was remembered, if there is one. -/
def undoOp : Action Pager Unit :=
  update fun p =>
    match p.savepoint with
    | none => p
    | some s => { p with
        header := s.header
        dirty := s.before.foldl restore p.dirty
        savepoint := none }

/-! ## Cache -/

/-- Changes the capacity of the cache. -/
def setCacheCapacity (pages : Nat) : Action Pager Unit :=
  update fun p => { p with cache := p.cache.resize pages }

end Pager

end PagedStore
