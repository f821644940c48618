import PagedStore.Pager.Basic

/-!
# Chains of pages

A value that is too large for a leaf is spread over a chain of pages. The payload of each is the
number of the next page, zero at the end, the length of the part that it holds, and that part. The
empty value takes one page.

A chain that was damaged may run in a circle. No chain has more pages than the file, so a walk
that goes on for longer is given up. The hops are counted in 32 bits, as the pages are: where a
header speaks of as many pages as can be counted, the hops begin again at zero.
-/

set_option autoImplicit false

namespace PagedStore.Tree.Chain

open PagedStore.Action

/-- The length of what stands before the part of the value that a page holds. -/
def linkLength : Nat := 8

/-- How much of a value a page holds. -/
def capacity (pageSize : Nat) : Nat := pageSize - Page.frontLength - linkLength

/-- A value in parts of `n` bytes, the last one perhaps shorter. -/
def parts (n : Nat) (bs : Bytes) : List Bytes :=
  if _ : bs.length ≤ n ∨ n = 0 then [bs] else bs.take n :: parts n (bs.drop n)
termination_by bs.length
decreasing_by simp only [List.length_drop]; omega

/-- The payload of a page of a chain. -/
def payload (next : PageId) (part : Bytes) : Bytes :=
  Bytes.ofU32 next ++ Bytes.ofU32 (UInt32.ofNat part.length) ++ part

/-! ## Writing -/

/-- Allocates a number of pages. -/
def allocateAll : (count : Nat) → Action Pager (List PageId)
  | 0 => return []
  | count + 1 => do
      let id ← Pager.allocate
      return id :: (← allocateAll count)

/-- Writes parts to pages, each linked to the next one. -/
def writeAll : List PageId → List Bytes → Action Pager Unit
  | id :: ids, part :: more => do
      let p ← self
      Pager.write (.make id p.pageSize .overflow (payload (ids.headD 0) part))
      writeAll ids more
  | _, _ => pure ()

/-- Writes a value to a chain of new pages and gives the first of them. -/
def write (value : Bytes) : Action Pager PageId := do
  let bs := parts (capacity (← self).pageSize) value
  let ids ← allocateAll bs.length
  writeAll ids bs
  return ids.headD 0

/-! ## Walking -/

/-- Reads a page of the chain that begins at `head`, provided that a walk of `hops` pages may
still be one along a chain. -/
def visit (head id : PageId) (hops : UInt32) : Action Pager Page := do
  if (← self).header.pageCount < hops then
    throw (.corrupt s!"overflow chain at page {head} loops")
  let page ← Pager.read id
  if (← ofResult page.kind) ≠ .overflow then
    throw (.corrupt s!"page {id} is not an overflow page")
  return page

/-- The page after one of a chain. -/
def nextOf (page : Page) : PageId := UInt32.ofNat (Bytes.toNatLE (page.payload.take 4))

/-- The length that a page of a chain claims for its part. -/
def lengthOf (page : Page) : Nat := Bytes.toNatLE ((page.payload.drop 4).take 4)

/-- The part of the value that a page of a chain holds. The page need not be as long as those of
the file are, if it comes from a log; where its part would go beyond its end the program stops. -/
def partOf (page : Page) (length : Nat) : Except Error Bytes :=
  match Bytes.take? length (page.payload.drop linkLength) with
  | some (part, _) => .ok part
  | none => .error .panicked

/-- The parts from the page `id` on; `hops` pages have been read before it, and `fuel` more may
be. -/
def readFrom (head : PageId) : (fuel : Nat) → (hops : UInt32) → (id : PageId) → Action Pager Bytes
  | 0, _, _ => throw .endless
  | fuel + 1, hops, id => do
      if id = 0 then return []
      let page ← visit head id (hops + 1)
      let length := lengthOf page
      if capacity (← self).pageSize < length then
        throw (.corrupt s!"overflow page {page.id} claims {length} bytes")
      let part ← ofResult (partOf page length)
      return part ++ (← readFrom head fuel (hops + 1) (nextOf page))

/-- The value that a chain holds. -/
def read (head : PageId) : Action Pager Bytes := do
  readFrom head ((← self).header.pageCount.toNat + 2) 0 head

/-- Puts the pages from `id` on on the free list; `hops` have been before it, and `fuel` more may
be. -/
def freeFrom (head : PageId) : (fuel : Nat) → (hops : UInt32) → (id : PageId) → Action Pager Unit
  | 0, _, _ => throw .endless
  | fuel + 1, hops, id => do
      if id = 0 then return
      let page ← visit head id (hops + 1)
      Pager.free page.id
      freeFrom head fuel (hops + 1) (nextOf page)

/-- Puts all pages of a chain on the free list. -/
def free (head : PageId) : Action Pager Unit := do
  freeFrom head ((← self).header.pageCount.toNat + 2) 0 head

end PagedStore.Tree.Chain
