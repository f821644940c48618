import PagedStore.Page
import Std.Data.ExtTreeMap

/-!
# The page cache

Clean pages that were read or written lately are kept in memory. `entries` holds the pages and
`queue` their numbers in the order of their last use, the most recent at the end; when there are
more pages than the capacity allows, pages leave from the front of the queue. A capacity of zero
switches the cache off: then nothing is put in or counted, only looked for in vain.
-/

set_option autoImplicit false

namespace PagedStore

/-- Pages by their number. -/
abbrev PageMap := Std.ExtTreeMap PageId Page

/-- What a cache has counted. A count grows by one with a page that is looked up or put in, so that
no process lives to see 64 bits used up, and has no bound here. -/
structure CacheStats where
  lookups : Nat := 0
  hits : Nat := 0
  misses : Nat := 0
  insertions : Nat := 0
  evictions : Nat := 0
  deriving DecidableEq, Repr

/-- The share of the lookups that found their page. -/
def CacheStats.hitRate (s : CacheStats) : Float :=
  if s.lookups = 0 then 0.0 else s.hits.toFloat / s.lookups.toFloat

/-- Pages and the order of their last use. -/
structure Cache where
  capacity : Nat
  entries : PageMap := ∅
  queue : List PageId := []
  stats : CacheStats := {}

namespace Cache

/-- The queue without a page, as often as it stands there. -/
def unqueue (queue : List PageId) (id : PageId) : List PageId := queue.filter (· != id)

/-- The queue with a page at its recent end, taken from where it stands first. -/
def touch (queue : List PageId) (id : PageId) : List PageId := queue.erase id ++ [id]

/-- Drops the page at the front of the queue. -/
def evictOne (c : Cache) : Cache :=
  match c.queue with
  | [] => c
  | id :: queue =>
      let evicted := if c.entries.contains id then 1 else 0
      { c with
        entries := c.entries.erase id
        queue := queue
        stats := { c.stats with evictions := c.stats.evictions + evicted } }

/-- Drops pages from the front of the queue until there is room for the rest. -/
def evict (c : Cache) : Cache :=
  if c.capacity < c.entries.size ∧ c.queue ≠ [] then evict c.evictOne else c
termination_by c.queue.length
decreasing_by
  rename_i h
  obtain ⟨id, queue, hq⟩ := List.exists_cons_of_ne_nil h.2
  simp [evictOne, hq]

/-- Looks for a page and, when it is there, marks it as used. -/
def get (c : Cache) (id : PageId) : Option Page × Cache :=
  let stats := { c.stats with lookups := c.stats.lookups + 1 }
  match c.entries[id]? with
  | some page =>
      (some page, { c with
        queue := touch c.queue id
        stats := { stats with hits := stats.hits + 1 } })
  | none => (none, { c with stats := { stats with misses := stats.misses + 1 } })

/-- A page at the recent end, in place of any other of its number, whether there is room for it or
not. -/
def put (c : Cache) (page : Page) : Cache :=
  { c with
    entries := c.entries.insert page.id page
    queue :=
      (if c.entries.contains page.id then unqueue c.queue page.id else c.queue) ++ [page.id]
    stats := { c.stats with insertions := c.stats.insertions + 1 } }

/-- Puts a page in, and makes room. -/
def insert (c : Cache) (page : Page) : Cache :=
  if c.capacity = 0 then c else (c.put page).evict

/-- Takes a page out. -/
def remove (c : Cache) (id : PageId) : Cache :=
  if c.entries.contains id then
    { c with entries := c.entries.erase id, queue := unqueue c.queue id }
  else c

/-- Changes the capacity. -/
def resize (c : Cache) (capacity : Nat) : Cache := evict { c with capacity := capacity }

/-- Takes all pages out. -/
def clear (c : Cache) : Cache := { c with entries := ∅, queue := [] }

/-- The number of pages held. -/
def size (c : Cache) : Nat := c.entries.size

end Cache

end PagedStore
