import PagedStore.Pager.Opening
import PagedStore.Proofs.Actions
import PagedStore.Proofs.CachePages
import PagedStore.Proofs.PageImages

/-!
# The state of a pager

What a pager answers when a page is read does not depend on the cache: it is the dirty page, or
what the main file holds (`view`). This needs that cached pages are those of the file, and a pager
between two operations satisfies more than that (`Ready`): the file holds the header of the last
commit and is long enough for it, the log is empty, and the dirty pages are sealed pages of the
right length in the right places.

Every operation but a commit leaves the disk alone and keeps a pager ready, and taking an
operation back still leads to where it began (`undone`).
-/

set_option autoImplicit false

namespace PagedStore

open Bytes

theorem pageSize_bounds {n : Nat} (h : n ∈ pageSizes) : 512 ≤ n ∧ n ≤ 65536 := by
  simp only [pageSizes, List.mem_cons, List.not_mem_nil, or_false] at h
  omega

namespace Pager

open PagedStore.Action

/-! ## What reading gives -/

/-- The image of a page in the main file. -/
def fileImage (file : NodeId) (pageSize : Nat) (d : Disk) (id : PageId) : Bytes :=
  slice (offset pageSize id) pageSize (d.readAll file)

/-- What the main file gives for a page: its image, provided that it is whole and verifies. -/
def fromFile (file : NodeId) (pageSize : Nat) (d : Disk) (id : PageId) : Except Error Page :=
  let page : Page := ⟨id, fileImage file pageSize d id⟩
  if page.image.length < pageSize then
    .error (.corrupt s!"page {id} lies beyond the end of the file")
  else
    match page.verify with
    | .error e => .error (.corrupt (s!"page {id}: " ++ e.message))
    | .ok () => .ok page

/-- What reading a page gives. -/
def view (p : Pager) (d : Disk) (id : PageId) : Except Error Page :=
  if p.inRange id then
    match p.dirty[id]? with
    | some page => .ok page
    | none => fromFile p.file p.pageSize d id
  else .error (.corrupt s!"page {id} out of range")

theorem inRange_iff {p : Pager} {id : PageId} :
    p.inRange id = true ↔ id ≠ 0 ∧ id < p.header.pageCount := by
  simp [inRange]

theorem fromFile_eq_ok {file : NodeId} {pageSize : Nat} {d : Disk} {id : PageId} {page : Page}
    (h : fromFile file pageSize d id = .ok page) :
    page = ⟨id, fileImage file pageSize d id⟩ ∧
      (fileImage file pageSize d id).length = pageSize ∧ page.verify = .ok () := by
  rw [fromFile] at h
  dsimp only at h
  split at h
  · cases h
  · rename_i hlen
    split at h
    · cases h
    · rename_i hv
      obtain rfl := Except.ok.inj h
      refine ⟨rfl, ?_, hv⟩
      have : (fileImage file pageSize d id).length ≤ pageSize := by
        rw [fileImage, length_slice]
        exact Nat.min_le_left _ _
      omega

/-! ## Pagers between two operations -/

/-- Pages that may be written to a file of so many pages. -/
def PagesSound (pageSize : Nat) (count : UInt32) (pages : PageMap) : Prop :=
  ∀ id page, pages[id]? = some page →
    page.id = id ∧ id ≠ 0 ∧ id < count ∧ page.image.length = pageSize ∧ page.verify = .ok ()

/-- A database file and its log, under their names and in the hands of one writer. -/
structure Held (path : String) (file log : NodeId) (d : Disk) : Prop where
  named : d.find? path = some file
  logNamed : d.find? (Log.pathFor path) = some log
  apart : log ≠ file
  live : file < d.nodes.size
  logLive : log < d.nodes.size
  plain : (d.node file).isFolder = false
  logPlain : (d.node log).isFolder = false
  locked : (d.node file).lock = .exclusive

/-- The main file holds a header and all the pages that it speaks of. -/
structure Stored (file : NodeId) (h : Header) (d : Disk) : Prop where
  front : Header.decode ((d.readAll file).take Header.encodedLength) = .ok h
  long : h.pageCount.toNat * h.pageSize.toNat ≤ (d.readAll file).length

theorem Stored.check {file : NodeId} {h : Header} {d : Disk} (hs : Stored file h d) :
    h.check = .ok h := Header.check_of_decode hs.front

/-- It depends on what the file holds alone. -/
theorem Stored.of_contents {file : NodeId} {h : Header} {d d' : Disk} (hs : Stored file h d)
    (heq : d'.readAll file = d.readAll file) : Stored file h d' :=
  ⟨heq.symm ▸ hs.front, heq.symm ▸ hs.long⟩

theorem Stored.header_le {file : NodeId} {h : Header} {d : Disk} (hs : Stored file h d) :
    Header.encodedLength ≤ (d.readAll file).length := by
  obtain ⟨-, hsize, hcount, -⟩ := Header.check_eq_ok.1 hs.check
  have hbounds := pageSize_bounds hsize
  have hpos : 0 < h.pageCount.toNat := by
    rw [Nat.pos_iff_ne_zero]
    exact fun h0 => hcount (UInt32.toNat_inj.1 h0)
  have hone := Nat.mul_le_mul_right h.pageSize.toNat hpos
  have hlong := hs.long
  have h52 : Header.encodedLength = 52 := rfl
  omega

/-- Each page that the header speaks of lies whole in the file. -/
theorem Stored.page_le {file : NodeId} {h : Header} {d : Disk} (hs : Stored file h d) {ps : Nat}
    (hps : h.pageSize.toNat = ps) {id : PageId} (hid : id < h.pageCount) :
    offset ps id + ps ≤ (d.readAll file).length := by
  have hlong := hs.long
  have hmul := Nat.mul_le_mul_right ps (UInt32.lt_iff_toNat_lt.1 hid)
  rw [hps] at hlong
  rw [offset, ← Nat.succ_mul]
  exact Nat.le_trans hmul hlong

/-- A state to which a pager may return. -/
structure Returnable (pageSize : Nat) (h : Header) (dirty : PageMap) : Prop where
  size_eq : h.pageSize.toNat = pageSize
  sound : PagesSound pageSize h.pageCount dirty

/-- The header and the dirty pages to which taking back the operation under way leads. -/
def undone (p : Pager) : Option (Header × PageMap) :=
  p.savepoint.map fun s => (s.header, s.before.foldl restore p.dirty)

/-- Whatever is cached is what the main file gives. -/
structure Mirrors (p : Pager) (d : Disk) : Prop where
  cached : ∀ id page, p.cache.entries[id]? = some page →
    id ≠ 0 ∧ fromFile p.file p.pageSize d id = .ok page
  cache : p.cache.Sound

/-- A writer between two operations. -/
structure Ready (p : Pager) (d : Disk) : Prop where
  usable : p.poisoned = none
  held : ∃ log, p.log = some log ∧ Held p.path p.file log d ∧ d.readAll log = []
  stored : Stored p.file p.committed d
  size_eq : p.committed.pageSize.toNat = p.pageSize
  current : Returnable p.pageSize p.header p.dirty
  back : ∀ hm, p.undone = some hm → Returnable p.pageSize hm.1 hm.2
  cached : ∀ id page, p.cache.entries[id]? = some page →
    id ≠ 0 ∧ fromFile p.file p.pageSize d id = .ok page
  cache : p.cache.Sound

namespace Ready

variable {p : Pager} {d : Disk}

theorem writable (h : Ready p d) : p.readOnly = false := by
  obtain ⟨log, hl, -⟩ := h.held
  rw [readOnly, hl]
  rfl

theorem size_mem (h : Ready p d) : p.pageSize ∈ pageSizes := by
  rw [← h.size_eq]
  exact (Header.check_eq_ok.1 h.stored.check).2.1

theorem mirrors (h : Ready p d) : Mirrors p d := ⟨h.cached, h.cache⟩

/-- The main file has room for the header page. -/
theorem pageSize_le (h : Ready p d) : p.pageSize ≤ (d.readAll p.file).length := by
  obtain ⟨-, -, hcount, -⟩ := Header.check_eq_ok.1 h.stored.check
  have hpos : 0 < p.committed.pageCount.toNat := by
    rw [Nat.pos_iff_ne_zero]
    exact fun h0 => hcount (UInt32.toNat_inj.1 h0)
  have hlong := h.stored.long
  rw [h.size_eq] at hlong
  exact (Nat.le_mul_of_pos_left p.pageSize hpos).trans hlong

theorem five_le (h : Ready p d) : Page.frontLength ≤ p.pageSize :=
  Nat.le_trans (by decide) (pageSize_bounds h.size_mem).1

end Ready

/-! ## What an operation leaves as it was -/

/-- Two states of a pager that differ in nothing but the working state: header, dirty pages, cache
and counters. -/
structure Same (p q : Pager) : Prop where
  path : q.path = p.path
  file : q.file = p.file
  log : q.log = p.log
  pageSize : q.pageSize = p.pageSize
  committed : q.committed = p.committed
  maxPages : q.maxPages = p.maxPages
  crashPoint : q.crashPoint = p.crashPoint
  poisoned : q.poisoned = p.poisoned

theorem Same.refl (p : Pager) : Same p p := ⟨rfl, rfl, rfl, rfl, rfl, rfl, rfl, rfl⟩

theorem Same.symm {p q : Pager} (h : Same p q) : Same q p where
  path := h.path.symm
  file := h.file.symm
  log := h.log.symm
  pageSize := h.pageSize.symm
  committed := h.committed.symm
  maxPages := h.maxPages.symm
  crashPoint := h.crashPoint.symm
  poisoned := h.poisoned.symm

theorem Same.trans {p q r : Pager} (h₁ : Same p q) (h₂ : Same q r) : Same p r where
  path := h₂.path.trans h₁.path
  file := h₂.file.trans h₁.file
  log := h₂.log.trans h₁.log
  pageSize := h₂.pageSize.trans h₁.pageSize
  committed := h₂.committed.trans h₁.committed
  maxPages := h₂.maxPages.trans h₁.maxPages
  crashPoint := h₂.crashPoint.trans h₁.crashPoint
  poisoned := h₂.poisoned.trans h₁.poisoned

/-- What stays of a ready pager when its working state is replaced by a sound one. -/
theorem Ready.replace {p q : Pager} {d : Disk} (h : Ready p d) (hs : Same p q)
    (current : Returnable p.pageSize q.header q.dirty)
    (back : ∀ hm, q.undone = some hm → Returnable p.pageSize hm.1 hm.2)
    (cached : ∀ id page, q.cache.entries[id]? = some page →
      id ≠ 0 ∧ fromFile p.file p.pageSize d id = .ok page)
    (cache : q.cache.Sound) : Ready q d where
  usable := hs.poisoned.trans h.usable
  held := by
    rw [hs.log, hs.path, hs.file]
    exact h.held
  stored := by
    rw [hs.file, hs.committed]
    exact h.stored
  size_eq := by
    rw [hs.committed, hs.pageSize]
    exact h.size_eq
  current := by
    rw [hs.pageSize]
    exact current
  back := by
    rw [hs.pageSize]
    exact back
  cached := by
    rw [hs.file, hs.pageSize]
    exact cached
  cache := cache

/-! ## Guards -/

theorem exec_ensureUsable {p : Pager} {d : Disk} (h : p.poisoned = none) :
    ensureUsable.exec p d = (.ok (), p, d) := by
  rw [ensureUsable, exec_bind, exec_self]
  dsimp only
  rw [h]
  rfl

theorem exec_ensureUsable_stopped {p : Pager} {reason : String} (h : p.poisoned = some reason)
    (d : Disk) :
    ensureUsable.exec p d = (.error (.aborted ("pager unusable: " ++ reason)), p, d) := by
  rw [ensureUsable, exec_bind, exec_self]
  dsimp only
  rw [h]
  rfl

theorem exec_ensureWritable_eq (p : Pager) (d : Disk) :
    ensureWritable.exec p d =
      if p.readOnly then (.error .readOnly, p, d) else ensureUsable.exec p d := by
  rw [ensureWritable, exec_bind, exec_self]
  dsimp only
  split <;> rfl

theorem exec_ensureWritable {p : Pager} {d : Disk} (h : Ready p d) :
    ensureWritable.exec p d = (.ok (), p, d) := by
  rw [exec_ensureWritable_eq, h.writable]
  exact exec_ensureUsable h.usable

/-! ## Reading -/

/-- Two states of a pager that differ in nothing but the cache and the counters. -/
structure Alike (p q : Pager) : Prop extends Same p q where
  header : q.header = p.header
  dirty : q.dirty = p.dirty
  savepoint : q.savepoint = p.savepoint

theorem Alike.refl (p : Pager) : Alike p p := ⟨.refl p, rfl, rfl, rfl⟩

theorem Alike.trans {p q r : Pager} (h₁ : Alike p q) (h₂ : Alike q r) : Alike p r where
  toSame := h₁.toSame.trans h₂.toSame
  header := h₂.header.trans h₁.header
  dirty := h₂.dirty.trans h₁.dirty
  savepoint := h₂.savepoint.trans h₁.savepoint

theorem Alike.symm {p q : Pager} (h : Alike p q) : Alike q p where
  toSame := h.toSame.symm
  header := h.header.symm
  dirty := h.dirty.symm
  savepoint := h.savepoint.symm

theorem Alike.undone {p q : Pager} (h : Alike p q) : q.undone = p.undone := by
  rw [Pager.undone, Pager.undone, h.savepoint, h.dirty]

theorem Alike.view {p q : Pager} (h : Alike p q) (d : Disk) : q.view d = p.view d := by
  funext id
  rw [Pager.view, Pager.view, inRange, inRange, h.header, h.dirty, h.file, h.pageSize]

theorem Ready.alike {p q : Pager} {d : Disk} (h : Ready p d) (ha : Alike p q)
    (cached : ∀ id page, q.cache.entries[id]? = some page →
      id ≠ 0 ∧ fromFile p.file p.pageSize d id = .ok page)
    (cache : q.cache.Sound) : Ready q d := by
  refine h.replace ha.toSame ?_ ?_ cached cache
  · rw [ha.header, ha.dirty]
    exact h.current
  · rw [ha.undone]
    exact h.back

namespace Mirrors

variable {p : Pager} {d : Disk} {id : PageId}

/-- A pager that has not read any page yet. -/
theorem of_empty {capacity : Nat} (hc : p.cache = { capacity := capacity }) (d : Disk) :
    Mirrors p d := by
  constructor
  · intro id page hp
    simp [hc] at hp
  · rw [hc]
    exact Cache.sound_empty _

/-- Reading off the main file. -/
theorem exec_load (h : Mirrors p d) (h0 : id ≠ 0) :
    ∃ q, (load id).exec p d = (fromFile p.file p.pageSize d id, q, d) ∧ Alike p q ∧
      Mirrors q d := by
  have himage : d.read p.file (offset p.pageSize id) p.pageSize =
      fileImage p.file p.pageSize d id := Disk.read_eq_slice _ _ _ _
  simp only [load, exec_bind, exec_self, exec_disk, himage, fromFile]
  split
  · exact ⟨p, rfl, .refl p, h⟩
  · rename_i hlen
    cases hv : (Page.mk id (fileImage p.file p.pageSize d id)).verify with
    | error e => exact ⟨p, rfl, .refl p, h⟩
    | ok u =>
        -- A sound page goes into the cache, as the file has it.
        refine ⟨_, rfl, ⟨⟨rfl, rfl, rfl, rfl, rfl, rfl, rfl, rfl⟩, rfl, rfl, rfl⟩, ?_,
          h.cache.insert _⟩
        intro other page hp
        rcases Cache.getElem?_insert hp with ⟨rfl, rfl⟩ | ⟨-, hp'⟩
        · refine ⟨h0, ?_⟩
          rw [fromFile]
          dsimp only
          rw [if_neg hlen, hv]
        · exact h.cached other page hp'

/-- Looking for a page in the cache may move it in the queue, but adds no page. -/
theorem looked (h : Mirrors p d) (id : PageId) :
    Mirrors { p with cache := (p.cache.get id).2 } d := by
  refine ⟨fun other page hp => ?_, h.cache.get id⟩
  rw [show ({ p with cache := (p.cache.get id).2 } : Pager).cache.entries =
    p.cache.entries from Cache.entries_get _ _] at hp
  exact h.cached other page hp

/-- **Reading gives what the pager holds**, whatever is in the cache. -/
theorem exec_read (h : Mirrors p d) (hu : p.poisoned = none) (id : PageId) :
    ∃ q, (read id).exec p d = (p.view d id, q, d) ∧ Alike p q ∧ Mirrors q d := by
  rw [read, exec_bind_ok (exec_ensureUsable hu), exec_bind, exec_self]
  dsimp only
  by_cases hr : p.inRange id = true
  · simp only [view, hr, Bool.not_true, Bool.false_eq_true, if_false, if_true]
    cases hd : p.dirty[id]? with
    | some page => exact ⟨p, rfl, .refl p, h⟩
    | none =>
        simp only [exec_bind, exec_update]
        have hlooked := h.looked id
        have hsame : Alike p { p with cache := (p.cache.get id).2 } :=
          ⟨⟨rfl, rfl, rfl, rfl, rfl, rfl, rfl, rfl⟩, rfl, rfl, rfl⟩
        cases hc : (p.cache.get id).1 with
        | some page =>
            rw [Cache.fst_get] at hc
            rw [(h.cached id page hc).2]
            exact ⟨_, rfl, hsame, hlooked⟩
        | none =>
            obtain ⟨q, hq, ha, hm⟩ := hlooked.exec_load (inRange_iff.1 hr).1
            exact ⟨q, hq, hsame.trans ha, hm⟩
  · simp only [view, hr, Bool.not_false, if_true]
    exact ⟨p, rfl, .refl p, h⟩

/-- What is read is what the pager shows. -/
theorem read_eq (h : Mirrors p d) (hu : p.poisoned = none) (id : PageId) :
    ((read id).exec p d).1 = p.view d id := by
  obtain ⟨q, hexec, -⟩ := h.exec_read hu id
  rw [hexec]

end Mirrors

theorem exec_read {p : Pager} {d : Disk} (h : Ready p d) (id : PageId) :
    ∃ q, (read id).exec p d = (p.view d id, q, d) ∧ Alike p q ∧ Ready q d := by
  obtain ⟨q, hexec, ha, hm⟩ := h.mirrors.exec_read h.usable id
  refine ⟨q, hexec, ha, h.alike ha ?_ hm.cache⟩
  rw [← ha.file, ← ha.pageSize]
  exact hm.cached

/-! ## Restoring -/

/-- Restoring gives each page its oldest noted image, and leaves the others alone. -/
theorem getElem?_foldl_restore (before : List (PageId × Option Page)) (dirty : PageMap)
    (id : PageId) :
    (before.foldl restore dirty)[id]? =
      match before.reverse.lookup id with
      | some old => old
      | none => dirty[id]? := by
  -- The notes are restored from the latest one on, so the oldest one is restored last and counts.
  induction before generalizing dirty with
  | nil => rfl
  | cons b before ih =>
      rw [List.foldl_cons, ih, List.reverse_cons, List.lookup_append]
      cases before.reverse.lookup id with
      | some old => rfl
      | none =>
          obtain ⟨k, old⟩ := b
          rw [Option.none_or, List.lookup_cons, List.lookup_nil]
          cases old with
          | some page =>
              rw [restore, PageMap.getElem?_insert]
              by_cases hk : k = id
              · rw [if_pos hk, hk, beq_self_eq_true]
              · rw [if_neg hk, beq_false_of_ne (Ne.symm hk)]
          | none =>
              rw [restore, PageMap.getElem?_erase]
              by_cases hk : k = id
              · rw [if_pos hk, hk, beq_self_eq_true]
              · rw [if_neg hk, beq_false_of_ne (Ne.symm hk)]

/-- Restoring leads past the writing of a page to where it led before. -/
theorem foldl_restore_note (s : Savepoint) (dirty : PageMap) (id : PageId) (page : Page) :
    (Savepoint.note dirty id s).before.foldl restore (dirty.insert id page) =
      s.before.foldl restore dirty := by
  apply Std.ExtTreeMap.ext_getElem?
  intro other
  rw [getElem?_foldl_restore, getElem?_foldl_restore, Savepoint.note, PageMap.getElem?_insert]
  by_cases hs : (s.before.lookup id).isSome = true
  · rw [if_pos hs]
    cases ho : s.before.reverse.lookup other with
    | some old => rfl
    | none =>
        -- The page that is written has been noted, so it is not this one.
        have hne : id ≠ other := by
          rintro rfl
          obtain ⟨old, hold⟩ := Option.isSome_iff_exists.1 hs
          obtain ⟨l₁, l₂, heq, -⟩ := List.lookup_eq_some_iff.1 hold
          have := List.lookup_eq_none_iff.1 ho (id, old) (by simp [heq])
          simp at this
        dsimp only
        rw [if_neg hne]
  · rw [if_neg hs, List.reverse_cons, List.lookup_append, List.lookup_cons, List.lookup_nil]
    cases ho : s.before.reverse.lookup other with
    | some old => rfl
    | none =>
        by_cases hne : id = other
        · rw [hne, beq_self_eq_true]
          rfl
        · rw [if_neg hne, beq_false_of_ne (Ne.symm hne)]
          rfl

/-! ## Writing -/

/-- A pager after a page was written. -/
def written (p : Pager) (page : Page) : Pager :=
  { p with
    savepoint := p.savepoint.map (Savepoint.note p.dirty page.id)
    dirty := p.dirty.insert page.id page.sealed }

theorem exec_write_of_guard {p : Pager} {d : Disk}
    (h : ensureWritable.exec p d = (.ok (), p, d)) (page : Page) :
    (write page).exec p d =
      if p.inRange page.id then (.ok (), p.written page, d)
      else (.error (.corrupt s!"write to page {page.id} out of range"), p, d) := by
  rw [write, exec_bind_ok h, exec_bind, exec_self]
  cases hr : p.inRange page.id <;> simp [hr, written]

theorem exec_write {p : Pager} {d : Disk} (h : Ready p d) (page : Page) :
    (write page).exec p d =
      if p.inRange page.id then (.ok (), p.written page, d)
      else (.error (.corrupt s!"write to page {page.id} out of range"), p, d) :=
  exec_write_of_guard (exec_ensureWritable h) page

theorem same_written (p : Pager) (page : Page) : Same p (p.written page) :=
  ⟨rfl, rfl, rfl, rfl, rfl, rfl, rfl, rfl⟩

theorem undone_written (p : Pager) (page : Page) : (p.written page).undone = p.undone := by
  rw [undone, undone, written]
  cases p.savepoint with
  | none => rfl
  | some s =>
      simp only [Option.map_some, Savepoint.note]
      rw [← foldl_restore_note s p.dirty page.id page.sealed, Savepoint.note]
      split <;> rfl

theorem view_written {p : Pager} {page : Page} (hr : p.inRange page.id = true) (d : Disk) :
    (p.written page).view d = Function.update (p.view d) page.id (.ok page.sealed) := by
  funext id
  have hd : (p.written page).dirty[id]? = if page.id = id then some page.sealed else p.dirty[id]? :=
    PageMap.getElem?_insert ..
  by_cases hid : page.id = id
  · subst hid
    rw [Function.update_self, view, hd, if_pos rfl]
    exact if_pos hr
  · rw [Function.update_of_ne (Ne.symm hid), view, hd, if_neg hid]
    rfl

theorem Ready.written {p : Pager} {d : Disk} (h : Ready p d) {page : Page}
    (hr : p.inRange page.id = true) (hlen : page.image.length = p.pageSize) :
    Ready (p.written page) d := by
  refine h.replace (same_written p page) ⟨h.current.size_eq, ?_⟩ ?_ h.cached h.cache
  · intro id q hq
    rw [Pager.written, PageMap.getElem?_insert] at hq
    split at hq
    · rename_i hid
      obtain rfl := Option.some.inj hq
      obtain ⟨h0, hlt⟩ := inRange_iff.1 hr
      refine ⟨hid, hid ▸ h0, hid ▸ hlt, ?_, page.verify_sealed⟩
      rw [Page.length_sealed, hlen]
      have := h.five_le
      rw [hlen]
      exact Nat.le_trans (by decide) this
    · exact h.current.sound id q hq
  · rw [undone_written]
    exact h.back

/-! ## The header -/

/-- A header with the same page size and no fewer pages can take the place of another. -/
theorem Ready.setHeader {p : Pager} {d : Disk} (h : Ready p d) {hd : Header}
    (hs : hd.pageSize = p.header.pageSize) (hc : p.header.pageCount ≤ hd.pageCount) :
    Ready { p with header := hd } d := by
  refine h.replace ⟨rfl, rfl, rfl, rfl, rfl, rfl, rfl, rfl⟩ ⟨?_, ?_⟩ h.back h.cached h.cache
  · rw [← h.current.size_eq, ← hs]
  · intro id page hp
    obtain ⟨hid, h0, hlt, hlen, hv⟩ := h.current.sound id page hp
    exact ⟨hid, h0, UInt32.lt_of_lt_of_le hlt hc, hlen, hv⟩

theorem view_setHeader {p : Pager} {hd : Header} {id : PageId}
    (hi : id < hd.pageCount ↔ id < p.header.pageCount) (d : Disk) :
    ({ p with header := hd } : Pager).view d id = p.view d id := by
  have : ({ p with header := hd } : Pager).inRange id = p.inRange id := by
    rw [inRange, inRange, decide_eq_decide.2 hi]
  rw [view, this]
  rfl

/-! ## Savepoints -/

/-- A pager at the beginning of an operation. -/
def begun (p : Pager) : Pager := { p with savepoint := some { header := p.header } }

theorem same_begun (p : Pager) : Same p p.begun := ⟨rfl, rfl, rfl, rfl, rfl, rfl, rfl, rfl⟩

theorem undone_begun (p : Pager) : p.begun.undone = some (p.header, p.dirty) := rfl

theorem Ready.begun {p : Pager} {d : Disk} (h : Ready p d) : Ready p.begun d := by
  refine h.replace (same_begun p) h.current ?_ h.cached h.cache
  rintro hm ⟨⟩
  exact h.current

/-- A pager at the end of an operation. -/
def ended (p : Pager) : Pager := { p with savepoint := none }

theorem same_ended (p : Pager) : Same p p.ended := ⟨rfl, rfl, rfl, rfl, rfl, rfl, rfl, rfl⟩

theorem Ready.ended {p : Pager} {d : Disk} (h : Ready p d) : Ready p.ended d := by
  refine h.replace (same_ended p) h.current ?_ h.cached h.cache
  rintro hm ⟨⟩

/-- A pager after an operation was taken back. -/
def takenBack (p : Pager) : Pager :=
  match p.undone with
  | none => p
  | some (header, dirty) => { p with header := header, dirty := dirty, savepoint := none }

theorem exec_undoOp (p : Pager) (d : Disk) : undoOp.exec p d = (.ok (), p.takenBack, d) := by
  rw [undoOp, exec_update, takenBack, undone]
  cases p.savepoint <;> rfl

theorem same_takenBack (p : Pager) : Same p p.takenBack := by
  rw [takenBack]
  split <;> exact ⟨rfl, rfl, rfl, rfl, rfl, rfl, rfl, rfl⟩

theorem savepoint_takenBack (p : Pager) : p.takenBack.savepoint = none := by
  rw [takenBack, undone]
  cases h : p.savepoint with
  | none => exact h
  | some changes => rfl

theorem Ready.takenBack {p : Pager} {d : Disk} (h : Ready p d) : Ready p.takenBack d := by
  rw [Pager.takenBack]
  split
  · exact h
  · rename_i hd dirty hu
    refine h.replace ⟨rfl, rfl, rfl, rfl, rfl, rfl, rfl, rfl⟩ (h.back (hd, dirty) hu) ?_ h.cached
      h.cache
    rintro hm ⟨⟩

/-! ## The cache and rollbacks -/

theorem alike_resize (p : Pager) (pages : Nat) : Alike p { p with cache := p.cache.resize pages } :=
  ⟨⟨rfl, rfl, rfl, rfl, rfl, rfl, rfl, rfl⟩, rfl, rfl, rfl⟩

theorem Mirrors.resize {p : Pager} {d : Disk} (h : Mirrors p d) (pages : Nat) :
    Mirrors { p with cache := p.cache.resize pages } d :=
  ⟨fun id page hp =>
    h.cached id page (Cache.getElem?_evict (c := { p.cache with capacity := pages }) hp),
    h.cache.resize pages⟩

theorem Ready.resize {p : Pager} {d : Disk} (h : Ready p d) (pages : Nat) :
    Ready { p with cache := p.cache.resize pages } d :=
  have hm := h.mirrors.resize pages
  h.alike (alike_resize p pages) hm.cached hm.cache

theorem Ready.rolledBack {p : Pager} {d : Disk} (h : Ready p d) : Ready p.rolledBack d := by
  refine h.replace ⟨rfl, rfl, rfl, rfl, rfl, rfl, rfl, rfl⟩ ⟨h.size_eq, ?_⟩ ?_ h.cached h.cache
  · intro id page hp
    simp [Pager.rolledBack] at hp
  · rintro hm ⟨⟩

end Pager

end PagedStore
