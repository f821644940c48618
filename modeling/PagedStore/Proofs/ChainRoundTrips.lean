import PagedStore.Proofs.ChainWrites
import PagedStore.Proofs.Reopening

/-!
# Chains are read back and given back

Where the free list is well formed (`FreePages`), a value is written to different pages, all of
them free or new, and as many as its length makes necessary. Reading the chain gives the value, and
freeing it puts just these pages on the free list.

A commit keeps the value. Whether the file can then be opened again is another matter: it cannot if
the last page that the header counts was allocated and never written, and the pages of a chain may
all come from further down the file.
-/

set_option autoImplicit false

namespace PagedStore

namespace Pager

open PagedStore.Action

/-! ## Pagers on any file -/

/-- The states of pagers that were opened for writing, whatever was in the files, and that were
asked for anything since. -/
inductive Serving : Pager → Disk → Prop where
  | opened {path : String} {o : Options} {d d' : Disk} {p : Pager} (hlive : d.NamesLive)
      (hapart : d.NamesApart) (ho : o.readOnly = false) (hp : o.pageSize ∈ pageSizes)
      (h : («open» path o).exec () d = (.ok p, (), d')) : Serving p d'
  | called {p : Pager} {d : Disk} (h : Serving p d) (c : Call) (hc : c.Sized p d) :
      Serving (c.serve p d).1 (c.serve p d).2

namespace Serving

variable {p : Pager} {d : Disk}

theorem coherent (h : Serving p d) : Coherent p d := by
  induction h with
  | opened hlive hapart ho hp h =>
      obtain ⟨-, -, -, -, hready⟩ := ready_of_open hlive hapart ho hp h
      exact hready.coherent
  | called _ c hc ih => exact ih.serve hc

theorem settled (h : Serving p d) {log : NodeId} (hu : p.poisoned = none)
    (hlog : p.log = some log) : Settled p d log := by
  induction h with
  | opened hlive hapart ho hp h =>
      obtain ⟨-, -, -, -, hready⟩ := ready_of_open hlive hapart ho hp h
      exact hready.settled hlog
  | called h c _ ih => exact h.coherent.settled_serve ih hu hlog

end Serving

/-- A commit succeeds unless it is made to stop. -/
theorem Usable.exists_commit {p : Pager} {d : Disk} (h : Usable p d) (hc : p.crashPoint = none) :
    ∃ q e, Pager.commit.exec p d = (.ok (), q, e) := by
  have hout := commitOutcome p d
  obtain ⟨log, hlog⟩ := h.writable
  generalize Pager.commit.exec p d = out at hout
  cases hout with
  | refused hno => exact absurd hno (by simp [hlog, h.unpoisoned])
  | unchanged => exact ⟨p, d, rfl⟩
  | published => exact ⟨_, _, rfl⟩
  | stopped _ hcrash => cases hc.symm.trans hcrash

end Pager

namespace Tree.Chain

open PagedStore.Action Bytes Pager

/-! ## Well-formed free lists -/

/-- The pages `free` are free ones of which each names the next one, beginning with the one that the
header names, and as many as the header counts. -/
structure FreePages (f : Face) (free : List PageId) : Prop where
  listed : Trail (· = 0) (Leads f .free) f.header.freeHead free
  counted : f.header.freeCount.toNat = free.length

namespace FreePages

variable {f g : Face} {free ids : List PageId}

theorem nodup (h : FreePages f free) : free.Nodup := h.listed.nodup (leads_one f .free)

theorem has (h : FreePages f free) (hs : f.Sane) {id : PageId} (hid : id ∈ free) : f.Has id :=
  h.listed.forall_mem (fun _ _ ⟨page, hpage, _⟩ => (hs.page _ page hpage).2.1) id hid

/-- Without a first page the list is empty. -/
theorem eq_nil (h : FreePages f free) (hnone : f.header.freeHead = 0) : free = [] := by
  have hlisted := h.listed
  cases hlisted with
  | stop => rfl
  | step hgoes => exact absurd hnone hgoes

/-- The list gives out its pages from the first one on. -/
theorem cons (h : FreePages f free) (hsome : f.header.freeHead ≠ 0) : ∃ page more,
    free = f.header.freeHead :: more ∧ f.Offers page ∧
      Trail (· = 0) (Leads f .free) (nextOf page) more := by
  have hlisted := h.listed
  have hcounted := h.counted
  generalize hhead : f.header.freeHead = head at hlisted hsome
  cases hlisted with
  | stop hstop => exact absurd hstop hsome
  | step _ hnext hrest =>
      obtain ⟨page, hpage, hkind, rfl⟩ := hnext
      refine ⟨page, _, rfl, ⟨hhead ▸ hpage, hkind, fun h0 => ?_⟩, hrest⟩
      rw [h0] at hcounted
      cases hcounted

/-- The list after its first page was given out. -/
theorem reused (h : FreePages f free) (hsome : f.header.freeHead ≠ 0) {page : Page}
    (ho : f.Offers page) :
    ∃ more, free = f.header.freeHead :: more ∧ FreePages (f.reused page) more := by
  obtain ⟨other, more, rfl, hother, hrest⟩ := h.cons hsome
  obtain rfl := Except.ok.inj (ho.first.symm.trans hother.first)
  refine ⟨more, rfl, hrest, ?_⟩
  have hcounted := h.counted
  rw [List.length_cons] at hcounted
  show (f.header.freeCount - 1).toNat = _
  rw [UInt32.toNat_sub_of_le, hcounted]
  · rfl
  · rw [UInt32.le_iff_toNat_le, hcounted]
    exact Nat.le_add_left 1 _

/-- **Drawing pages takes them from the front of the list**, and then from beyond the end of the
file; so none is drawn twice. -/
theorem drawn (h : FreePages f free) (hd : Drawn f ids g) : ∃ taken rest new,
    free = taken ++ rest ∧ ids = taken ++ new ∧ (rest = [] ∨ new = []) ∧ FreePages g rest ∧
      g.header.pageCount.toNat = f.header.pageCount.toNat + new.length ∧ new.Nodup ∧
      ∀ id ∈ new, f.header.pageCount ≤ id := by
  induction hd generalizing free with
  | none f => exact ⟨[], free, [], rfl, rfl, .inr rfl, h, rfl, List.nodup_nil, nofun⟩
  | reused hsome hoffers _ ih =>
      obtain ⟨more, rfl, hmore⟩ := h.reused hsome hoffers
      obtain ⟨taken, rest, new, rfl, rfl, hnew⟩ := ih hmore
      exact ⟨_ :: taken, rest, new, rfl, rfl, hnew⟩
  | @grown f g h' ids hnone hgrown _ ih =>
      obtain rfl := h.eq_nil hnone
      have hempty : FreePages h' [] := by
        refine ⟨.stop ?_, ?_⟩
        · rw [hgrown.header]
          exact hnone
        · rw [hgrown.header]
          exact h.counted
      obtain ⟨taken, rest, new, hnil, rfl, -, hrest, hcount, hnodup, hnew⟩ := ih hempty
      obtain ⟨rfl, rfl⟩ := List.append_eq_nil_iff.1 hnil.symm
      refine ⟨[], [], f.header.pageCount :: new, rfl, rfl, .inl rfl, hrest, ?_, ?_, ?_⟩
      · rw [hcount, hgrown.header, toNat_succ hgrown.room, List.length_cons]
        omega
      · refine List.nodup_cons.2 ⟨fun hmem => ?_, hnodup⟩
        exact UInt32.lt_irrefl _ (UInt32.lt_of_lt_of_le hgrown.count_lt (hnew _ hmem))
      · intro id hid
        rcases List.mem_cons.1 hid with rfl | hid
        · exact UInt32.le_refl _
        · exact UInt32.le_trans (UInt32.le_of_lt hgrown.count_lt) (hnew id hid)

/-- Writing to other pages leaves the list alone. -/
theorem linked (h : FreePages f free) (hother : ∀ id ∈ free, id ∉ ids) (bss : List Bytes) :
    FreePages (Chain.linked f ids bss) free := by
  have hheader := linked_header f ids bss
  refine ⟨?_, ?_⟩
  · rw [hheader]
    refine h.listed.mono fun id hid next hnext => ?_
    rwa [Leads, pages_linked (hother id hid)]
  · rw [hheader]
    exact h.counted

/-- A page that is freed comes to the front of the list. -/
theorem freed (h : FreePages f free) (hs : f.Sane) {id : PageId} (hid : f.Has id)
    (hnot : id ∉ free) : FreePages (f.freed id) (id :: free) := by
  refine ⟨.step hid.1 (b := f.header.freeHead) ⟨_, Face.pages_set_self f
    (.make id f.pageSize .free (ofU32 f.header.freeHead)), Page.kind_blank,
      (hs.next_free id f.header.freeHead).symm⟩ ?_, ?_⟩
  · refine h.listed.mono fun other ho next hnext => ?_
    have hne : other ≠ id := fun he => hnot (he ▸ ho)
    rwa [Leads, Face.pages_freed_of_ne hne]
  · -- There are fewer free pages than pages, so the count does not overflow.
    have hle := Face.length_le_of_nodup h.nodup fun other ho => h.has hs ho
    have hmax := f.header.pageCount.toNat_lt
    show (f.header.freeCount + 1).toNat = _
    rw [UInt32.toNat_add, h.counted, List.length_cons]
    exact Nat.mod_eq_of_lt (by simp; omega)

/-- Pages that are freed one after the other come to the front of the list in reverse. -/
theorem foldl_freed (h : FreePages f free) (hs : f.Sane) (hids : ∀ id ∈ ids, f.Has id)
    (hnodup : (ids ++ free).Nodup) : FreePages (ids.foldl Face.freed f) (ids.reverse ++ free) := by
  induction ids generalizing f free with
  | nil => exact h
  | cons id ids ih =>
      obtain ⟨hnot, hrest⟩ := List.nodup_cons.1 hnodup
      obtain ⟨hnotids, hnotfree⟩ := not_or.1 (mt List.mem_append.2 hnot)
      have hid := hids id List.mem_cons_self
      have hlen := Page.length_make (Nat.le_trans (by decide) hs.bounds.1) id .free
        (ofU32 f.header.freeHead)
      have hsane : (f.freed id).Sane := ⟨hs.size_mem, hs.size_eq, (hs.set hid hlen).page⟩
      rw [List.foldl_cons, List.reverse_cons, List.append_assoc, List.singleton_append]
      refine ih (h.freed hs hid hnotfree) hsane (fun other ho => hids other (.tail id ho)) ?_
      exact (List.perm_middle.nodup_iff).2 (List.nodup_cons.2 ⟨hnot, hrest⟩)

end FreePages

/-! ## Values -/

section

variable {f g : Face} {head : PageId} {bss : List Bytes} {ids : List PageId} {bs : Bytes}

/-- The pages of a chain follow one another and hold its parts. -/
theorem ChainAt.walk (hs : f.Sane) (h : ChainAt f head bss ids) :
    Linked f head ids ∧ List.Forall₂ (HoldsPart f) ids bss := by
  fun_induction ChainAt f head bss ids with
  | case1 head => exact ⟨.stop h, .nil⟩
  | case2 head part parts id ids ih =>
      obtain ⟨rfl, hlen, next, hpage, hrest⟩ := h
      obtain ⟨hlinked, hparts⟩ := ih next hrest
      refine ⟨.step (ne_zero hs hpage) ⟨_, hpage, kind_link id next part,
        (nextOf_link hs hlen id next).symm⟩ hlinked, .cons ⟨_, hpage, ?_⟩ hparts⟩
      rw [lengthOf_link hs hlen]
      exact ⟨hlen, partOf_link hs hlen id next⟩
  | case3 => exact h.elim

/-- Wherever all these pages can be read they spell the same. -/
theorem Spells.mono (h : Spells f head bs)
    (hpages : ∀ id page, f.pages id = .ok page → g.pages id = .ok page)
    (hsize : g.pageSize = f.pageSize) : Spells g head bs := by
  obtain ⟨ids, parts, hlinked, hparts, rfl⟩ := h
  refine ⟨ids, parts, hlinked.mono fun id _ next => ?_, hparts.imp fun id part => ?_, rfl⟩
  · rintro ⟨page, hpage, hrest⟩
    exact ⟨page, hpages id page hpage, hrest⟩
  · rintro ⟨page, hpage, hrest⟩
    rw [← hsize] at hrest
    exact ⟨page, hpages id page hpage, hrest⟩

end

section

variable {p q : Pager} {d e : Disk} {spare : List PageId} {value : Bytes} {head : PageId}

/-- **Where the free list has room for all of a value, it is written** to the pages of the list. -/
theorem exists_write (h : Usable p d) (hfree : FreePages (p.face d) spare)
    (hroom : (parts (capacity p.pageSize) value).length ≤ spare.length) :
    ∃ head q, (write value).exec p d = (.ok head, q, d) := by
  obtain ⟨r, p', ids, hall, hdrawn, hr⟩ :=
    exec_allocateAll h (parts (capacity p.pageSize) value).length
  obtain ⟨taken, rest, new, rfl, rfl, hdone, hrest, -⟩ := hfree.drawn hdrawn
  have h' : Usable p' d := h.of_orderly (orderly_allocateAll _) hall
  rw [List.length_append] at hroom hr
  cases r with
  | error e =>
      -- There are pages left on the list, so the next one would have been given out.
      obtain ⟨hshort, hrefuses⟩ := hr
      rcases hrefuses with ⟨hnone, -⟩ | ⟨hsome, hno, -⟩
      · rw [hrest.eq_nil hnone, List.length_nil] at hroom
        omega
      · obtain ⟨page, -, -, hoffers, -⟩ := hrest.cons hsome
        exact absurd hoffers (hno page)
  | ok given =>
      obtain ⟨rfl, hlen⟩ := hr
      have hnew : new = [] := by
        rcases hdone with rfl | rfl
        · rw [List.length_nil] at hroom
          exact List.length_eq_zero_iff.1 (by omega)
        · rfl
      subst hnew
      obtain ⟨r, q, hwrite, -, hok, -⟩ :=
        exec_writeAll h' (taken ++ []) (parts (capacity p.pageSize) value)
      have hgood := hok fun id hid => by
        rw [List.append_nil] at hid
        obtain ⟨h0, hlt⟩ := hfree.has h.sane (List.mem_append_left rest hid)
        exact ⟨h0, UInt32.lt_of_lt_of_le hlt hdrawn.count_le⟩
      subst hgood
      rw [write, exec_bind, exec_self]
      dsimp only
      exact ⟨_, q, (exec_bind_ok hall).trans (exec_bind_ok hwrite)⟩

/-- Reading a chain gives the value that it spells. -/
theorem exec_read_of_spells (hm : Mirrors p d) (hu : p.poisoned = none)
    (h : Spells (p.face d) head value) : ((read head).exec p d).1 = .ok value := by
  obtain ⟨ids, parts, hlinked, hparts, hvalue⟩ := h
  exact ((readEnds hm hu head).ok value).2 ⟨ids, parts, hlinked, hlinked.nodup, hparts, hvalue⟩

/-- Freeing a chain whose pages are not on the free list puts them there. -/
theorem exec_free_of_linked (h : Usable p d) {ids : List PageId}
    (hlinked : Linked (p.face d) head ids) (hfree : FreePages (p.face d) spare)
    (hnodup : (ids ++ spare).Nodup) :
    ∃ q, (Chain.free head).exec p d = (.ok (), q, d) ∧
      FreePages (q.face d) (ids.reverse ++ spare) := by
  obtain ⟨log, hlog⟩ := h.writable
  have hends := freeEnds h.coherent h.unpoisoned head
  have hok : ((Chain.free head).exec p d).1 = .ok () :=
    (hends.ok (by simp [hlog])).2 ⟨ids, hlinked⟩
  obtain ⟨-, hface⟩ := hends.freed ids hok hlinked
  refine ⟨_, Prod.ext hok (Prod.ext rfl hends.disk), ?_⟩
  rw [hface]
  refine hfree.foldl_freed h.sane (fun id hid => ?_) hnodup
  obtain ⟨page, hpage, -⟩ := hlinked.overflow id hid
  exact (h.sane.page id page hpage).2.1

/-- The header of a file whose free list is well formed can be one of a file if the root is one of
the pages. -/
theorem check_iff (hs : (p.face d).Sane) (hfree : FreePages (p.face d) spare) {txn : UInt64} :
    Header.check { p.header with lastTxn := txn } = .ok { p.header with lastTxn := txn } ↔
      p.header.root < p.header.pageCount := by
  rw [Header.check_eq_ok]
  refine ⟨fun h => h.2.2.2.1, fun hroot => ⟨rfl, ?_, ?_, hroot, ?_, ?_⟩⟩
  · exact hs.size_eq ▸ hs.size_mem
  · rintro h0
    exact absurd (h0 ▸ hroot) UInt32.not_lt_zero
  · by_cases hnone : p.header.freeHead = 0
    · exact hnone ▸ UInt32.lt_of_le_of_lt UInt32.zero_le hroot
    · obtain ⟨page, -, -, hoffers, -⟩ := hfree.cons hnone
      exact (hs.page _ page hoffers.first).2.1.2
  · have hle := Face.length_le_of_nodup hfree.nodup fun id hid => hfree.has hs hid
    have hcounted : p.header.freeCount.toNat = spare.length := hfree.counted
    have hpos := UInt32.lt_iff_toNat_lt.1 (UInt32.lt_of_le_of_lt UInt32.zero_le hroot)
    have hcount : (p.face d).header.pageCount.toNat = p.header.pageCount.toNat := rfl
    refine UInt32.lt_iff_toNat_lt.2 ?_
    show p.header.freeCount.toNat < p.header.pageCount.toNat
    omega

/-- Only a writer that can be used writes a chain. -/
theorem usable_of_write_ok (hc : Coherent p d) (h : (write value).exec p d = (.ok head, q, e)) :
    Usable p d := by
  obtain ⟨count, hcount⟩ := Nat.exists_eq_succ_of_ne_zero
    (mt List.length_eq_zero_iff.1 (parts_ne_nil (capacity p.pageSize) value))
  rw [write, exec_bind, exec_self] at h
  dsimp only at h
  rw [hcount, allocateAll] at h
  obtain ⟨ids, p₁, d₁, hall, -⟩ := of_exec_bind_ok h
  obtain ⟨id, p₂, d₂, hfirst, -⟩ := of_exec_bind_ok hall
  rw [allocate] at hfirst
  obtain ⟨⟨⟩, p₃, d₃, hguard, -⟩ := of_exec_bind_ok hfirst
  obtain ⟨hu, hlog⟩ := writable_of_guard hguard
  exact ⟨hc, hu, hlog⟩

/-- What a commit leaves of a pager that has written a chain. -/
theorem saved_of_write (hp : Serving p d) (hwrite : (write value).exec p d = (.ok head, q, e))
    {c : Pager} {e' : Disk} (hcommit : Pager.commit.exec q e = (.ok (), c, e')) :
    ∃ log, Saved q e c e' log := by
  have hserving : Serving q e := by
    have hserved := hp.called (.chain value) trivial
    rwa [Call.serve, hwrite] at hserved
  exact hserving.coherent.saved (fun _ hu hlog => hserving.settled hu hlog) hcommit

/-- What a value that is written leaves of a well-formed free list: it has taken pages from the
front of it, all of them different, and new ones after that. -/
theorem Wrote.spared {f g : Face} {ids : List PageId} (h : Wrote f g value head ids)
    (hs : f.Sane) (hfree : FreePages f spare) : ∃ taken rest new,
      spare = taken ++ rest ∧ ids = taken ++ new ∧ (rest = [] ∨ new = []) ∧
      (∀ id ∈ new, f.header.pageCount ≤ id) ∧
      g.header.pageCount.toNat = f.header.pageCount.toNat + new.length ∧
      g.header.root = f.header.root ∧ (ids ++ rest).Nodup ∧ FreePages g rest ∧
      (∀ id ∉ ids, g.pages id = f.pages id) ∧
      ChainAt g head (parts (capacity f.pageSize) value) ids := by
  obtain ⟨k, hdrawn, -, rfl⟩ := h.drawn
  obtain ⟨taken, rest, new, rfl, rfl, hdone, hrest, hcount, hnodup, hnew⟩ := hfree.drawn hdrawn
  have hall : ((taken ++ new) ++ rest).Nodup := by
    have hperm : ((taken ++ new) ++ rest).Perm ((taken ++ rest) ++ new) := by
      rw [List.append_assoc, List.append_assoc]
      exact List.perm_append_comm.append_left taken
    refine hperm.nodup_iff.2 (List.nodup_append'.2 ⟨hfree.nodup, hnodup, fun id hid hmem => ?_⟩)
    exact UInt32.not_le.2 (hfree.has hs hid).2 (hnew id hmem)
  have hheader := linked_header k (taken ++ new) (parts (capacity f.pageSize) value)
  refine ⟨taken, rest, new, rfl, rfl, hdone, hnew, ?_, ?_, hall, ?_, fun id hid => ?_, ?_⟩
  · rw [hheader, hcount]
  · exact h.root
  · exact hrest.linked (fun id hid hmem => (List.nodup_append'.1 hall).2.2 hmem hid) _
  · rw [pages_linked hid, hdrawn.pages hid]
  · rw [h.head]
    refine chainAt_linked (List.nodup_append'.1 hall).1 h.length fun part hpart => ?_
    rw [hdrawn.pageSize]
    exact length_le_of_mem_parts (capacity_pos hs) hpart

/-- **A chain gives back its value, and its pages.** A value that is written to a chain takes as
many pages as its length makes necessary, first those of the free list from the front on and then
new ones, and what can be read of any other page is as before. Reading the chain gives the value,
and freeing it puts its pages on the free list and counts them there. If a commit succeeds after
that, the file can be opened again exactly if the root is one of its pages and the last page that
the header counts is dirty or whole in the file, and then reading the chain gives the value. -/
theorem chain_round_trip (hp : Serving p d) (hfree : FreePages (p.face d) spare)
    (hwrite : (write value).exec p d = (.ok head, q, e)) :
    ∃ taken rest new, spare = taken ++ rest ∧ (rest = [] ∨ new = []) ∧
      (∀ id ∈ new, p.header.pageCount ≤ id) ∧
      q.header.pageCount.toNat = p.header.pageCount.toNat + new.length ∧
      Linked (q.face e) head (taken ++ new) ∧ (taken ++ new).Nodup ∧
      (taken ++ new).length =
        max 1 ((value.length + capacity p.pageSize - 1) / capacity p.pageSize) ∧
      (∀ id ∉ taken ++ new, ((Pager.read id).exec q e).1 = ((Pager.read id).exec p d).1) ∧
      FreePages (q.face e) rest ∧
      ((read head).exec q e).1 = .ok value ∧
      (∃ r, (Chain.free head).exec q e = (.ok (), r, e) ∧
        FreePages (r.face e) ((taken ++ new).reverse ++ rest) ∧
        r.header.freeCount.toNat = q.header.freeCount.toNat + (taken ++ new).length) ∧
      ∀ c e' o, Pager.commit.exec q e = (.ok (), c, e') → o.errorIfExists = false →
        ∃ r d', («open» p.path o).exec () (c.release e') = (r, (), d') ∧
          ((∃ s, r = .ok s) ↔ p.header.root < q.header.pageCount ∧ q.Whole e) ∧
          ∀ s, r = .ok s → ((read head).exec s d').1 = .ok value := by
  have h : Usable p d := usable_of_write_ok hp.coherent hwrite
  obtain ⟨r, q', hexec, -, hok⟩ := exec_writeValue h value
  cases hwrite.symm.trans hexec
  obtain ⟨ids, hwrote⟩ := hok head rfl
  obtain ⟨taken, rest, new, rfl, rfl, hdone, hnew, hcount, hroot, hnodup, hrest, hother, hchain⟩ :=
    hwrote.spared h.sane hfree
  have hq : Usable q d := h.of_orderly (orderly_write value) hwrite
  obtain ⟨hlinked, hparts⟩ := hchain.walk hq.sane
  have hspells : Spells (q.face d) head value :=
    ⟨_, _, hlinked, hparts, (flatten_parts _ value).symm⟩
  refine ⟨taken, rest, new, rfl, hdone, hnew, hcount, hlinked, hlinked.nodup, ?_,
    fun id hid => ?_, hrest, exec_read_of_spells hq.mirrors hq.unpoisoned hspells, ?_, ?_⟩
  · rw [hwrote.length]
    exact length_parts (capacity_pos h.sane) value
  · rw [hq.mirrors.read_eq hq.unpoisoned, h.mirrors.read_eq h.unpoisoned]
    exact hother id hid
  · obtain ⟨r, hfreed, hlisted⟩ := exec_free_of_linked hq hlinked hrest hnodup
    refine ⟨r, hfreed, hlisted, ?_⟩
    have hbefore : q.header.freeCount.toNat = rest.length := hrest.counted
    have hafter : r.header.freeCount.toNat = _ := hlisted.counted
    rw [hafter, hbefore, List.length_append, List.length_reverse, Nat.add_comm]
  · intro c e' o hcommit he
    obtain ⟨log, hsaved⟩ := saved_of_write hp hwrite hcommit
    obtain ⟨r, d', hopen, hiff, hshows⟩ := hsaved.open_iff he
    obtain ⟨txn, hheader⟩ := hsaved.renumbered
    obtain ⟨hleft, -⟩ := (orderly_write value).leaves.of_exec hwrite
    rw [hheader, check_iff hq.sane hrest, show q.header.root = p.header.root from hroot] at hiff
    rw [← hleft.path]
    refine ⟨r, d', hopen, hiff, fun s hs => ?_⟩
    obtain ⟨hu, hm, -, hsize, hview⟩ := hshows s hs
    -- What could be read before the commit is read after it, and in the file that is opened.
    refine exec_read_of_spells hm hu
      (hspells.mono (fun id page hpage => ?_) (hsize.trans hsaved.pageSize))
    exact (congrFun hview id).trans (hsaved.kept id page hpage)

/-! ## A free page before the last one -/

/-- The pager after it has allocated the pages before `count` and freed the first of them. -/
def withFreePage (count : UInt32) : Pager :=
  { onEmptyFile with
    header := { onEmptyFile.header with pageCount := count, freeHead := 1, freeCount := 1 }
    dirty := (∅ : PageMap).insert 1 (Page.make 1 512 .free (ofU32 0)).sealed }

theorem serving_withFreePage : ∃ d, Serving (withFreePage 2) d ∧ Serving (withFreePage 3) d ∧
    (d.readAll onEmptyFile.file).length = 512 := by
  obtain ⟨d, hopen⟩ := closed_emptyFiles.exec_open_empty (o := { pageSize := 512 }) rfl rfl rfl rfl
  have hstart : Serving onEmptyFile d :=
    .opened namesLive_emptyFiles namesApart_emptyFiles rfl (by decide) hopen
  have hone := hstart.called (.request .allocate) trivial
  have htwo := hone.called (.request .allocate) trivial
  refine ⟨d, hone.called (.request (.free 1)) trivial, htwo.called (.request (.free 1)) trivial, ?_⟩
  have hmain : d.readAll onEmptyFile.file = (Header.fresh 512).encode :=
    closed_emptyFiles.readAll_open_empty rfl rfl rfl hopen
  rw [hmain]
  exact Header.length_encode _

/-- A byte is written to the free page, and no other page is changed. -/
theorem write_withFreePage {count : UInt32} (hcount : 1 < count)
    (hp : Serving (withFreePage count) d) :
    FreePages ((withFreePage count).face d) [1] ∧ ∃ head q,
      (write [7]).exec (withFreePage count) d = (.ok head, q, d) ∧ Usable q d ∧
      q.crashPoint = none ∧ q.header.pageCount = count ∧ q.header.root = 0 ∧
      FreePages (q.face d) [] ∧ (∃ page, q.view d 1 = .ok page) ∧
      ∀ id ≠ 1, q.view d id = (withFreePage count).view d id := by
  have h : Usable (withFreePage count) d := ⟨hp.coherent, rfl, 1, rfl⟩
  have hdirty : (withFreePage count).dirty[(1 : PageId)]? =
      some (.blank 1 512 .free (ofU32 0)) := Std.ExtTreeMap.getElem?_insert_self
  have hview : (withFreePage count).view d 1 = .ok (.blank 1 512 .free (ofU32 0)) := by
    rw [view, if_pos (inRange_iff.2 ⟨by decide, hcount⟩), hdirty]
  have hfree : FreePages ((withFreePage count).face d) [1] :=
    ⟨.step (show (1 : PageId) ≠ 0 by decide)
      ⟨_, hview, Page.kind_blank, (h.sane.next_free 1 0).symm⟩ (.stop rfl), rfl⟩
  have hone : (parts (capacity (withFreePage count).pageSize) [7]).length = 1 := by
    rw [show capacity (withFreePage count).pageSize = 499 from rfl, length_parts (by decide)]
    rfl
  obtain ⟨head, q, hwrite⟩ := exists_write h hfree (Nat.le_of_eq hone)
  obtain ⟨r, q', hexec, -, hok⟩ := exec_writeValue h [7]
  cases hwrite.symm.trans hexec
  obtain ⟨ids, hwrote⟩ := hok head rfl
  obtain ⟨taken, rest, new, hspare, rfl, hdone, -, hgrown, hroot, -, hrest, hother, hchain⟩ :=
    hwrote.spared h.sane hfree
  have hq : Usable q d := h.of_orderly (orderly_write [7]) hwrite
  obtain ⟨hleft, -⟩ := (orderly_write [7]).leaves.of_exec hwrite
  have hlen := hwrote.length.trans hone
  rw [List.length_append] at hlen
  -- The one page that it takes is the one on the list.
  have htaken : taken ≠ [] := by
    rintro rfl
    rcases hdone with rfl | rfl
    · cases hspare
    · cases hlen
  obtain ⟨first, more, rfl⟩ := List.exists_cons_of_ne_nil htaken
  obtain ⟨rfl, hnil⟩ := List.cons.inj hspare
  obtain ⟨rfl, rfl⟩ := List.append_eq_nil_iff.1 hnil.symm
  obtain rfl : new = [] := List.length_eq_zero_iff.1 (Nat.succ.inj ((Nat.add_comm ..).trans hlen))
  obtain ⟨page, hpage, -⟩ := (hchain.walk hq.sane).1.overflow 1 List.mem_cons_self
  refine ⟨hfree, head, q, hwrite, hq, hleft.crashPoint, UInt32.toNat_inj.1 hgrown, hroot, hrest,
    ⟨page, hpage⟩, fun id hid => hother id ?_⟩
  simpa using hid

theorem chain_round_trip_free_page : ∃ p d head q c e r d', Serving p d ∧
    FreePages (p.face d) [1] ∧ (write [7]).exec p d = (.ok head, q, d) ∧
    Pager.commit.exec q d = (.ok (), c, e) ∧
    («open» p.path {}).exec () (c.release e) = (.ok r, (), d') ∧
    ((read head).exec r d').1 = .ok [7] := by
  obtain ⟨d, hp, -⟩ := serving_withFreePage
  obtain ⟨hfree, head, q, hwrite, hq, hcrash, hcount, -, -, ⟨page, hpage⟩, -⟩ :=
    write_withFreePage (by decide) hp
  obtain ⟨c, e, hcommit⟩ := hq.exists_commit hcrash
  obtain ⟨taken, rest, new, -, -, -, -, -, -, -, -, -, -, -, hopens⟩ :=
    chain_round_trip hp hfree hwrite
  obtain ⟨r, d', hopen, hiff, hread⟩ := hopens c e {} hcommit rfl
  have hwhole : q.Whole d := by
    rw [Whole, hcount]
    exact hq.tidy.coveredAt hpage
  obtain ⟨s, rfl⟩ := hiff.2 ⟨by rw [hcount]; decide, hwhole⟩
  exact ⟨_, d, head, q, c, e, s, d', hp, hfree, hwrite, hcommit, hopen, hread s rfl⟩

/-- **A value can be lost by a commit that succeeds.** The last page of the file was allocated and
never written, and the value is on a page before it: so the file is too short to be opened. -/
theorem chain_lost_after_commit : ∃ p d head q c e s d', Serving p d ∧
    FreePages (p.face d) [1] ∧ (write [7]).exec p d = (.ok head, q, d) ∧
    Pager.commit.exec q d = (.ok (), c, e) ∧
    («open» p.path {}).exec () (c.release e) = (.error (.corrupt s), (), d') := by
  obtain ⟨d, -, hp, hmain⟩ := serving_withFreePage
  obtain ⟨hfree, head, q, hwrite, hq, hcrash, hcount, hroot, hrest, -, hother⟩ :=
    write_withFreePage (by decide) hp
  obtain ⟨c, e, hcommit⟩ := hq.exists_commit hcrash
  obtain ⟨hleft, -⟩ := (orderly_write [7]).leaves.of_exec hwrite
  have hcovered : ∀ {r : Pager}, r.file = onEmptyFile.file → r.pageSize = 512 →
      r.header.pageCount = 3 → r.CoveredAt d 2 → 2 ∈ r.dirty := by
    intro r hfile hsize hcount hr
    by_contra hid
    have hle := hr (by decide) (by rw [hcount]; decide) hid
    rw [hfile, hsize, hmain] at hle
    exact absurd hle (by decide)
  -- The last page could not be read before the value was written, so it is not dirty after that.
  have hshort : ¬ q.Whole d := by
    rw [Whole, hcount]
    intro hlast
    obtain ⟨page, hpage⟩ := PageMap.mem_iff.1 (hcovered hleft.file hleft.pageSize hcount hlast)
    have hview : q.view d 2 = .ok page := by
      rw [view, if_pos (inRange_iff.2 ⟨by decide, by rw [hcount]; decide⟩), hpage]
    have hp' : Usable (withFreePage 3) d := ⟨hp.coherent, rfl, 1, rfl⟩
    rw [hother 2 (by decide)] at hview
    have hmem : (2 : PageId) ∈ (withFreePage 3).dirty :=
      hcovered rfl rfl rfl (hp'.tidy.coveredAt hview)
    rw [withFreePage, Std.ExtTreeMap.mem_insert] at hmem
    rcases hmem with heq | hnone
    · exact absurd heq (by decide)
    · exact Std.ExtTreeMap.not_mem_empty hnone
  obtain ⟨log, hsaved⟩ := saved_of_write hp hwrite hcommit
  obtain ⟨txn, hheader⟩ := hsaved.renumbered
  have hcheck : c.header.check = .ok c.header := by
    rw [hheader]
    exact (check_iff hq.sane hrest).2 (by rw [hroot, hcount]; decide)
  obtain ⟨d', hopen⟩ := hsaved.open_short (o := {}) rfl hcheck hshort
  rw [hleft.path] at hopen
  exact ⟨_, d, head, q, c, e, _, d', hp, hfree, hwrite, hcommit, hopen⟩

end

end Tree.Chain

end PagedStore
