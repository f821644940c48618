import PagedStore.Proofs.PageAccounting
import PagedStore.Proofs.PagerLives

/-!
# Pagers that are used with care

A page on the free list names the next one, so nobody may write to it or put it on the list once
more. While no call of the owner does that, and no root is named that the file does not have, each
page is in use or on the free list and none is both (`Fit`). This is so for what a pager shows now,
for what it would show after the operation under way was taken back, and for what it would show
after a rollback, whether or not the pages in use have ever been written. The header is therefore
one that a file can have at any moment.
-/

set_option autoImplicit false

namespace PagedStore

open Bytes

/-! ## Faces whose pages are accounted for -/

/-- All pages on the free list are free. -/
theorem FreeList.kind_of_mem {f : Face} {head : PageId} {ids : List PageId}
    (h : FreeList f head ids) {id : PageId} (hid : id ∈ ids) :
    ∃ page, f.pages id = .ok page ∧ page.kind = .ok .free := by
  induction ids generalizing head with
  | nil => cases hid
  | cons first ids ih =>
      obtain ⟨rfl, next, hpage, hrest⟩ := h
      rcases List.mem_cons.1 hid with rfl | hid
      · exact ⟨_, hpage, Page.kind_blank⟩
      · exact ih hrest hid

theorem FreeList.exists_of_mem {f : Face} {head : PageId} {ids : List PageId}
    (h : FreeList f head ids) {id : PageId} (hid : id ∈ ids) : ∃ page, f.pages id = .ok page := by
  obtain ⟨page, hpage, -⟩ := h.kind_of_mem hid
  exact ⟨page, hpage⟩

theorem Accounts.mem_used {f : Face} {used : Multiset PageId} {free : List PageId}
    (h : Accounts f used free) {id : PageId} (hid : f.Has id) (hfree : id ∉ free) : id ∈ used := by
  rcases Multiset.mem_add.1 ((h.all id).2 hid) with hused | hlisted
  · exact hused
  · exact absurd hlisted hfree

/-- In a new file no page is in use, and none is free. -/
theorem Accounts.fresh {f : Face} {n : Nat} (hheader : f.header = .fresh n) : Accounts f 0 [] := by
  have hcount : f.header.pageCount = 1 := by rw [hheader]; rfl
  refine ⟨?_, ?_, ?_, ?_, fun id => ?_⟩
  · rw [hcount]
    decide
  · rw [hheader]
    rfl
  · rw [hheader]
    rfl
  · simp
  · simp only [Multiset.coe_nil, add_zero, Multiset.notMem_zero, false_iff, Face.Has, hcount,
      not_and]
    intro h0 hlt
    rw [UInt32.lt_iff_toNat_lt] at hlt
    exact h0 (UInt32.toNat_inj.1 (by simpa using hlt))

/-- A page is not on the free list. -/
def Face.Unlisted (f : Face) (id : PageId) : Prop :=
  ∀ free, FreeList f f.header.freeHead free → id ∉ free

/-- Each page is in use or on the free list, the pages `held` are in use, and the root is a page of
the file. -/
structure Fit (f : Face) (held : List PageId) : Prop where
  accounts : ∃ used free, Accounts f used free ∧ ∀ id ∈ held, id ∈ used
  root : f.header.root < f.header.pageCount

namespace Fit

variable {f g : Face} {held : List PageId}

theorem mono (h : Fit f held) {held' : List PageId} (hle : held' ⊆ held) : Fit f held' := by
  obtain ⟨⟨used, free, ha, hheld⟩, hroot⟩ := h
  exact ⟨⟨used, free, ha, fun id hid => hheld id (hle hid)⟩, hroot⟩

theorem has (h : Fit f held) {id : PageId} (hid : id ∈ held) : f.Has id := by
  obtain ⟨⟨used, free, ha, hheld⟩, -⟩ := h
  exact ha.has_of_mem (hheld id hid)

/-- The header is one that a file can have. -/
theorem check (h : Fit f held) (hsize : f.header.pageSize.toNat ∈ pageSizes) :
    f.header.check = .ok f.header := by
  obtain ⟨⟨used, free, ha, -⟩, hroot⟩ := h
  refine Header.check_eq_ok.2 ⟨rfl, hsize, ha.pos, hroot, ?_, ?_⟩
  · have hlisted := ha.listed
    cases free with
    | nil =>
        rw [show f.header.freeHead = 0 from hlisted]
        exact UInt32.lt_of_le_of_lt UInt32.zero_le hroot
    | cons id rest =>
        obtain ⟨rfl, -⟩ := hlisted
        exact (ha.has_of_free List.mem_cons_self).2
  · have hlt := ha.card_lt
    have hcount := ha.counted
    rw [UInt32.lt_iff_toNat_lt]
    omega

theorem reused (h : Fit f held) (hs : f.Sane) {page : Page} (ho : f.Offers page)
    (hne : f.header.freeHead ≠ 0) : Fit (f.reused page) (f.header.freeHead :: held) := by
  obtain ⟨⟨used, free, ha, hheld⟩, hroot⟩ := h
  obtain ⟨rest, -, ha'⟩ := ha.reused hs ho hne
  refine ⟨⟨_, rest, ha', fun id hid => Multiset.mem_add.2 ?_⟩, hroot⟩
  rcases List.mem_cons.1 hid with rfl | hid
  · exact .inl (Multiset.mem_singleton_self _)
  · exact .inr (hheld id hid)

theorem grown (h : Fit f held) (hg : f.Grown g) (hnone : f.header.freeHead = 0) :
    Fit g (f.header.pageCount :: held) := by
  obtain ⟨⟨used, free, ha, hheld⟩, hroot⟩ := h
  refine ⟨⟨_, [], ha.grown hg hnone, fun id hid => Multiset.mem_add.2 ?_⟩, ?_⟩
  · rcases List.mem_cons.1 hid with rfl | hid
    · exact .inl (Multiset.mem_singleton_self _)
    · exact .inr (hheld id hid)
  · rw [hg.header]
    exact (lt_succ_iff hg.room _).2 (.inr hroot)

/-- Writing to a page in use. -/
theorem set (h : Fit f held) {page : Page} (hhas : f.Has page.id)
    (hid : page.id ∈ held ∨ f.Unlisted page.id) : Fit (f.set page) held := by
  obtain ⟨⟨used, free, ha, hheld⟩, hroot⟩ := h
  refine ⟨⟨used, free, ha.set ?_, hheld⟩, hroot⟩
  rcases hid with hid | hid
  · exact hheld _ hid
  · exact ha.mem_used hhas (hid free ha.listed)

/-- Putting a page in use on the free list. -/
theorem freed (h : Fit f []) {id : PageId} (hhas : f.Has id) (hid : f.Unlisted id) :
    Fit (f.freed id) [] := by
  obtain ⟨⟨used, free, ha, -⟩, hroot⟩ := h
  obtain ⟨used', rfl⟩ := Multiset.exists_cons_of_mem (ha.mem_used hhas (hid free ha.listed))
  rw [← Multiset.singleton_add] at ha
  exact ⟨⟨used', id :: free, ha.freed, by simp⟩, hroot⟩

/-- The fields of the header that no account depends on. -/
theorem withHeader (h : Fit f held) {root : PageId} (hroot : root < f.header.pageCount)
    (records : UInt64) :
    Fit (f.withHeader { f.header with root := root, recordCount := records }) held := by
  obtain ⟨⟨used, free, ha, hheld⟩, -⟩ := h
  exact ⟨⟨used, free, ha.congr rfl rfl rfl (fun _ _ => rfl) rfl, hheld⟩, hroot⟩

/-- Another face of the same pages, of which those on the free list can be read. -/
theorem transfer (h : Fit f held) {txn : UInt64}
    (hheader : g.header = { f.header with lastTxn := txn }) (hsize : g.pageSize = f.pageSize)
    (hkept : ∀ id page, f.pages id = .ok page → g.pages id = .ok page) :
    Fit g held := by
  obtain ⟨⟨used, free, ha, hheld⟩, hroot⟩ := h
  refine ⟨⟨used, free, ha.congr ?_ ?_ ?_ (fun id hid => ?_) hsize, hheld⟩, ?_⟩
  · rw [hheader]
  · rw [hheader]
  · rw [hheader]
  · obtain ⟨page, hpage⟩ := ha.listed.exists_of_mem hid
    rw [hkept id page hpage, hpage]
  · rw [hheader]
    exact hroot

/-- A new file has no pages but the header page. -/
theorem fresh {n : Nat} (hheader : f.header = .fresh n) : Fit f [] := by
  refine ⟨⟨0, [], .fresh hheader, by simp⟩, ?_⟩
  rw [hheader]
  exact UInt32.zero_lt_one

end Fit

namespace Pager

open PagedStore.Action

/-! ## Calls with care -/

/-- Pages on the free list are neither written nor freed, and the root is a page of the file. -/
def Call.Careful (p : Pager) (d : Disk) : Call → Prop
  | request (.write page) => page.image.length = p.pageSize ∧ (p.face d).Unlisted page.id
  | request (.free id) => (p.face d).Unlisted id
  | request (.setRoot id) => id < p.header.pageCount
  | _ => True

theorem Call.Careful.sized {p : Pager} {d : Disk} {c : Call} (h : c.Careful p d) : c.Sized p d := by
  cases c with
  | chain value => trivial
  | request r =>
      cases r with
      | write page => exact h.1
      | _ => trivial

/-! ## What calls do to a usable writer -/

/-- A coherent pager that may change its file. -/
structure Usable (p : Pager) (d : Disk) : Prop where
  coherent : Coherent p d
  unpoisoned : p.poisoned = none
  writable : ∃ log, p.log = some log

theorem Ready.toUsable {p : Pager} {d : Disk} (h : Ready p d) : Usable p d := by
  obtain ⟨log, hlog, -⟩ := h.held
  exact ⟨h.coherent, h.usable, log, hlog⟩

namespace Usable

variable {p q : Pager} {d : Disk}

theorem mirrors (h : Usable p d) : Mirrors p d := h.coherent.mirrors h.unpoisoned

theorem tidy (h : Usable p d) : p.Tidy := by
  obtain ⟨log, hlog⟩ := h.writable
  exact (h.coherent.writer h.unpoisoned log hlog).tidy

theorem of_same (h : Usable p d) (hs : Same p q) (hc : Coherent q d) : Usable q d where
  coherent := hc
  unpoisoned := hs.poisoned.trans h.unpoisoned
  writable := by
    rw [hs.log]
    exact h.writable

/-- A program on pages leaves a writer usable. -/
theorem of_orderly {α : Type} {a : Action Pager α} (h : Usable p d) (ha : Orderly Undoable a)
    {r : Except Error α} (hexec : a.exec p d = (r, q, d)) : Usable q d := by
  obtain ⟨hleft, -⟩ := ha.leaves.of_exec hexec
  have hc := h.coherent.of_blind ha.blind
  rw [hexec] at hc
  exact h.of_same hleft.toSame hc

theorem sane (h : Usable p d) : (p.face d).Sane := h.tidy.current.sane h.tidy.size_mem d

theorem exec_ensureWritable (h : Usable p d) : ensureWritable.exec p d = (.ok (), p, d) := by
  obtain ⟨log, hlog⟩ := h.writable
  rw [exec_ensureWritable_eq, readOnly, hlog]
  exact exec_ensureUsable h.unpoisoned

/-- Writing a page of the file shows it. -/
theorem exec_write_of_has (h : Usable p d) (page : Page) (hid : (p.face d).Has page.id) :
    (write page).exec p d = (.ok (), p.written page, d) ∧
      (p.written page).face d = (p.face d).set page := by
  have hr : p.inRange page.id = true := face_inRange.2 hid
  refine ⟨by rw [exec_write_of_guard h.exec_ensureWritable page, if_pos hr], ?_⟩
  rw [face, view_written hr]
  rfl

/-- Writing a page shows it, or is refused. -/
theorem exec_write (h : Usable p d) (page : Page) :
    ((p.face d).Has page.id ∧ (write page).exec p d = (.ok (), p.written page, d) ∧
        (p.written page).face d = (p.face d).set page) ∨
      ∃ s, (write page).exec p d = (.error (.corrupt s), p, d) := by
  by_cases hid : (p.face d).Has page.id
  · exact .inl ⟨hid, h.exec_write_of_has page hid⟩
  · refine .inr ⟨s!"write to page {page.id} out of range", ?_⟩
    rw [exec_write_of_guard h.exec_ensureWritable page, if_neg fun hr => hid (face_inRange.1 hr)]

/-- Taking the first page of the free list, or finding that it is none to be given out. -/
theorem exec_takeFree (h : Usable p d) :
    (∃ q page, (takeFree p.header.freeHead).exec p d = (.ok p.header.freeHead, q, d) ∧
        (p.face d).Offers page ∧ q.face d = (p.face d).reused page) ∨
      ∃ e q, (takeFree p.header.freeHead).exec p d = (.error e, q, d) ∧ Alike p q ∧ IsCorrupt e ∧
        ∀ page, ¬ (p.face d).Offers page := by
  obtain ⟨p', hread, halike, -⟩ := h.mirrors.exec_read h.unpoisoned p.header.freeHead
  cases hfirst : p.view d p.header.freeHead with
  | error e =>
      rw [hfirst] at hread
      refine .inr ⟨e, p', exec_bind_error hread, halike, corrupt_of_view hfirst, fun page ho => ?_⟩
      cases hfirst.symm.trans ho.first
  | ok page =>
      rw [hfirst] at hread
      -- What the list offers can only be the page that was read.
      have same : ∀ other, (p.face d).Offers other → other = page := fun other ho =>
        Except.ok.inj (ho.first.symm.trans hfirst)
      rw [takeFree, exec_bind_ok hread, exec_bind, exec_ofResult]
      cases hkind : page.kind with
      | error e =>
          refine .inr ⟨e, p', rfl, halike, corrupt_of_kind hkind, fun other ho => ?_⟩
          rw [same other ho] at ho
          cases hkind.symm.trans ho.isFree
      | ok kind =>
          dsimp only
          rw [exec_bind, exec_self]
          dsimp only
          by_cases hbad : kind ≠ .free ∨ p'.header.freeCount = 0
          · rw [if_pos hbad]
            refine .inr ⟨_, p', rfl, halike, ⟨_, rfl⟩, fun other ho => ?_⟩
            rw [same other ho] at ho
            obtain rfl := Except.ok.inj (hkind.symm.trans ho.isFree)
            rw [halike.header] at hbad
            exact hbad.elim (fun hne => hne rfl) ho.counted
          · rw [if_neg hbad, exec_bind, exec_update]
            rw [not_or, not_not] at hbad
            obtain ⟨rfl, hcount⟩ := hbad
            rw [halike.header] at hcount
            refine .inl ⟨_, page, rfl, ⟨hfirst, hkind, hcount⟩,
              (face_setHeader (p := p') ?_ d).trans ?_⟩
            · rfl
            · rw [halike.face, halike.header]
              rfl

/-- Where a page comes from. -/
theorem exec_allocate_eq (h : Usable p d) :
    allocate.exec p d =
      if p.header.freeHead ≠ 0 then (takeFree p.header.freeHead).exec p d
      else if p.maxPages ≤ p.header.pageCount then
        (.error (.full s!"page limit of {p.maxPages} reached"), p, d)
      else (.ok p.header.pageCount,
        { p with header := { p.header with pageCount := p.header.pageCount + 1 } }, d) := by
  rw [allocate, exec_bind_ok h.exec_ensureWritable, exec_bind, exec_self]
  dsimp only
  split
  · rfl
  · split <;> rfl

/-- Allocation gives out the first page of the free list or a new one. It fails when there are as
many pages as there may be, or when the list does not begin with a free page, and then changes
nothing that can be seen. -/
theorem exec_allocate (h : Usable p d) :
    (∃ q page, allocate.exec p d = (.ok p.header.freeHead, q, d) ∧ p.header.freeHead ≠ 0 ∧
        (p.face d).Offers page ∧ q.face d = (p.face d).reused page) ∨
      (∃ q, allocate.exec p d = (.ok p.header.pageCount, q, d) ∧ p.header.freeHead = 0 ∧
        (p.face d).Grown (q.face d)) ∨
      ∃ e q, allocate.exec p d = (.error e, q, d) ∧ Alike p q ∧ (p.face d).Refuses e := by
  rw [h.exec_allocate_eq]
  by_cases hnone : p.header.freeHead = 0
  · rw [if_neg (not_not.2 hnone)]
    split
    · exact .inr (.inr ⟨_, p, rfl, .refl p, .inl ⟨hnone, ‹_›, _, rfl⟩⟩)
    · rename_i hroom
      rw [UInt32.not_le] at hroom
      refine .inr (.inl ⟨_, rfl, hnone, rfl, rfl, rfl, hroom, fun id hid => ?_⟩)
      refine view_setHeader ?_ d
      rw [lt_succ_iff hroom]
      exact or_iff_right hid
  · rw [if_pos hnone]
    rcases h.exec_takeFree with ⟨q, page, hexec, ho, hface⟩ | ⟨e, q, hexec, halike, he, hno⟩
    · exact .inl ⟨q, page, hexec, hnone, ho, hface⟩
    · exact .inr (.inr ⟨e, q, hexec, halike, .inr ⟨hnone, hno, he⟩⟩)

/-- Freeing a page of the file puts it on the free list. -/
theorem exec_free_of_has (h : Usable p d) {id : PageId} (hid : (p.face d).Has id) :
    ∃ q, (free id).exec p d = (.ok (), q, d) ∧ q.face d = (p.face d).freed id := by
  obtain ⟨hexec, hface⟩ :=
    h.exec_write_of_has (.make id p.pageSize .free (Bytes.ofU32 p.header.freeHead)) hid
  rw [free, exec_bind_ok h.exec_ensureWritable, exec_bind, exec_self]
  dsimp only
  rw [exec_bind_ok hexec]
  refine ⟨_, rfl, (face_setHeader (p := p.written _) ?_ d).trans ?_⟩
  · rfl
  · rw [hface]
    rfl

/-- Freeing a page puts it on the free list, or is refused. -/
theorem exec_free (h : Usable p d) (id : PageId) :
    (∃ q, (p.face d).Has id ∧ (free id).exec p d = (.ok (), q, d) ∧
        q.face d = (p.face d).freed id) ∨
      ∃ s, (free id).exec p d = (.error (.corrupt s), p, d) := by
  by_cases hid : (p.face d).Has id
  · obtain ⟨q, hexec⟩ := h.exec_free_of_has hid
    exact .inl ⟨q, hid, hexec⟩
  · rw [free, exec_bind_ok h.exec_ensureWritable, exec_bind, exec_self]
    dsimp only
    rcases h.exec_write (.make id p.pageSize .free (Bytes.ofU32 p.header.freeHead)) with
      ⟨hhas, -⟩ | ⟨s, hexec⟩
    · exact absurd hhas hid
    · exact .inr ⟨s, exec_bind_error hexec⟩

end Usable

/-! ## Chains -/

/-- A usable writer whose pages are accounted for, with some of them in use. -/
structure Tended (held : List PageId) (p : Pager) (d : Disk) : Prop where
  usable : Usable p d
  fit : Fit (p.face d) held

/-- From a tended writer a program leads to one, with other pages in use after a result and the
same ones after a failure. -/
def Tends {α : Type} (held : List PageId) (a : Action Pager α) (after : α → List PageId) : Prop :=
  ∀ p d, Tended held p d → ∃ r q, a.exec p d = (r, q, d) ∧
    match r with
    | .ok x => Tended (after x) q d
    | .error _ => Tended held q d

namespace Tends

variable {α β : Type} {held : List PageId} {after : α → List PageId}

theorem pure {x : α} (h : after x ⊆ held) : Tends held (pure x) after := fun p _ hp =>
  ⟨_, p, rfl, hp.usable, hp.fit.mono h⟩

theorem bind {a : Action Pager α} {k : α → Action Pager β} {after' : β → List PageId}
    (ha : Tends held a after) (hle : ∀ x, held ⊆ after x)
    (hk : ∀ x, Tends (after x) (k x) after') : Tends held (a >>= k) after' := by
  intro p d hp
  obtain ⟨r, q, hexec, hr⟩ := ha p d hp
  cases r with
  | error e => exact ⟨_, q, exec_bind_error hexec, hr⟩
  | ok x =>
      obtain ⟨r', q', hexec', hr'⟩ := hk x q d hr
      refine ⟨r', q', (exec_bind_ok hexec).trans hexec', ?_⟩
      cases r' with
      | error e => exact ⟨hr'.usable, hr'.fit.mono (hle x)⟩
      | ok y => exact hr'

theorem allocate (held : List PageId) : Tends held allocate fun id => id :: held := by
  intro p d hp
  rcases hp.usable.exec_allocate with
    ⟨q, page, hexec, hne, ho, hface⟩ | ⟨q, hexec, hnone, hgrown⟩ | ⟨e, q, hexec, halike, -⟩
  · have hfit := hp.fit.reused hp.usable.sane ho hne
    exact ⟨_, q, hexec, hp.usable.of_orderly .allocate hexec, hface ▸ hfit⟩
  · exact ⟨_, q, hexec, hp.usable.of_orderly .allocate hexec, hp.fit.grown hgrown hnone⟩
  · exact ⟨_, q, hexec, hp.usable.of_orderly .allocate hexec, halike.face d ▸ hp.fit⟩

/-- Writing a page that is made of what can be seen of the pager, where that gives one. -/
theorem writeResult {page : Pager → Except Error Page}
    (hlen : ∀ (p : Pager) image, p.pageSize ∈ pageSizes → page p = .ok image →
      image.image.length = p.pageSize)
    (hid : ∀ p image, page p = .ok image → image.id ∈ held) :
    Tends held (self >>= fun p => Action.ofResult (page p) >>= Pager.write) fun _ => held := by
  intro p d hp
  rw [exec_bind, exec_self]
  dsimp only
  cases hpage : page p with
  | error e => exact ⟨_, p, exec_bind_error (exec_ofResult _ p d), hp⟩
  | ok image =>
      rw [exec_bind_ok (exec_ofResult _ p d)]
      rcases hp.usable.exec_write image with ⟨hhas, hexec, hface⟩ | ⟨s, hexec⟩
      · have hcoherent := hp.usable.coherent.written (face_inRange.2 hhas) fun hsize =>
          hlen p image hsize hpage
        exact ⟨_, _, hexec, hp.usable.of_same (same_written p _) hcoherent,
          hface ▸ hp.fit.set hhas (.inl (hid p image hpage))⟩
      · exact ⟨_, p, hexec, hp⟩

/-- Writing a page that is made of what can be seen of the pager. -/
theorem write {page : Pager → Page}
    (hlen : ∀ p : Pager, p.pageSize ∈ pageSizes → (page p).image.length = p.pageSize)
    (hid : ∀ p, (page p).id ∈ held) :
    Tends held (self >>= fun p => Pager.write (page p)) fun _ => held := by
  refine @writeResult held (fun p => .ok (page p)) (fun p image hsize h => ?_) fun p image h => ?_
  · cases h
    exact hlen p hsize
  · cases h
    exact hid p

theorem allocateAll (count : Nat) (held : List PageId) :
    Tends held (Tree.Chain.allocateAll count) fun ids => ids ++ held := by
  induction count generalizing held with
  | zero => exact .pure (by simp)
  | succ count ih =>
      refine .bind (allocate held) (fun id => List.subset_cons_self id held) fun id => ?_
      refine .bind (ih (id :: held)) (fun ids => List.subset_append_right ids _) fun ids => ?_
      refine .pure fun other ho => ?_
      simp only [List.cons_append, List.mem_cons, List.mem_append] at ho ⊢
      tauto

theorem writeAll {ids : List PageId} (hids : ids ⊆ held) (parts : List Bytes) :
    Tends held (Tree.Chain.writeAll ids parts) fun _ => held := by
  fun_induction Tree.Chain.writeAll ids parts with
  | case1 id ids part more ih =>
      rw [← bind_assoc]
      refine .bind (.write (fun p hp => ?_) fun _ => hids List.mem_cons_self)
        (fun _ => List.Subset.refl held) fun _ => ih (List.subset_of_cons_subset hids)
      exact Page.length_make (Nat.le_trans (by decide) (pageSize_bounds hp).1) ..
  | case2 => exact .pure (List.Subset.refl held)

/-- Writing a value to a chain leaves the pages accounted for, also when there are not enough of
them for all of the value. -/
theorem chain (value : Bytes) : Tends [] (Tree.Chain.write value) fun _ => [] := by
  intro p d hp
  refine (Tends.bind (allocateAll _ []) (fun ids => List.nil_subset _) fun ids => ?_) p d hp
  refine .bind (writeAll (List.subset_append_left ids []) _) (fun _ => List.Subset.refl _)
    fun _ => .pure (List.nil_subset _)

end Tends

/-! ## Lives -/

/-- What a pager shows in another working state. -/
def faceAt (p : Pager) (d : Disk) (hm : Header × PageMap) : Face :=
  ({ p with header := hm.1, dirty := hm.2 } : Pager).face d

theorem Same.faceAt {p q : Pager} (h : Same p q) (d : Disk) (hm : Header × PageMap) :
    q.faceAt d hm = p.faceAt d hm := by
  have hview : ({ q with header := hm.1, dirty := hm.2 } : Pager).view d =
      ({ p with header := hm.1, dirty := hm.2 } : Pager).view d := by
    funext id
    rw [view, view, h.file, h.pageSize]
    rfl
  rw [Pager.faceAt, face, hview, Pager.faceAt, face, h.pageSize, h.maxPages]

/-- The pages are accounted for, now and in the states to which the pager may return. -/
structure Trim (p : Pager) (d : Disk) : Prop where
  current : Fit (p.face d) []
  back : ∀ hm, p.undone = some hm → Fit (p.faceAt d hm) []
  committed : Fit (p.faceAt d (p.committed, ∅)) []

namespace Trim

variable {p q : Pager} {d : Disk}

theorem of_undoable (h : Trim p d) (hu : Undoable p q) (hfit : Fit (q.face d) []) : Trim q d where
  current := hfit
  back hm hq := by
    rw [hu.toSame.faceAt]
    exact h.back hm (hu.undone.symm.trans hq)
  committed := by
    rw [hu.toSame.faceAt, hu.committed]
    exact h.committed

theorem of_alike (h : Trim p d) (ha : Alike p q) : Trim q d :=
  h.of_undoable ha.undoable (ha.face d ▸ h.current)

theorem begun (h : Trim p d) : Trim p.begun d := by
  refine ⟨h.current, ?_, h.committed⟩
  rintro hm ⟨⟩
  exact h.current

theorem ended (h : Trim p d) : Trim p.ended d := by
  refine ⟨h.current, ?_, h.committed⟩
  rintro hm ⟨⟩

theorem takenBack (h : Trim p d) : Trim p.takenBack d := by
  rw [Pager.takenBack]
  split
  · exact h
  · rename_i hd dirty hu
    refine ⟨h.back _ hu, ?_, h.committed⟩
    rintro hm ⟨⟩

theorem rolledBack (h : Trim p d) : Trim p.rolledBack d := by
  refine ⟨h.committed, ?_, h.committed⟩
  rintro hm ⟨⟩

/-- Pages may be missing from the file after a commit, but not those on the free list. -/
theorem published (h : Trim p d) {log : NodeId} (hw : Writer p d log) (hc : p.crashPoint = none) :
    Trim p.published (FileEffect.performAll p.file log p.commitEffects d) := by
  have hfit := h.current.transfer (g := p.published.face _) rfl rfl
    fun id page hpage => hw.view_published hc hpage
  refine ⟨hfit, ?_, hfit⟩
  rintro hm ⟨⟩

/-- Naming another root and counting the records otherwise. -/
theorem fit_setHeader (h : Fit (p.face d) []) {root : PageId} (hroot : root < p.header.pageCount)
    (records : UInt64) :
    Fit (({ p with header := { p.header with root := root, recordCount := records } } :
      Pager).face d) [] := by
  rw [@face_setHeader p { p.header with root := root, recordCount := records } rfl d]
  exact h.withHeader hroot records

/-- A careful call leaves the pages accounted for. -/
theorem serve (h : Trim p d) (hu : Usable p d) {c : Call} (hc : c.Careful p d)
    (hcommit : c ≠ .request .commit) : Trim (c.serve p d).1 d := by
  have hleft : ∀ {α : Type} {a : Action Pager α}, Leaves Undoable a →
      Fit ((a.exec p d).2.1.face d) [] → Trim (a.exec p d).2.1 d := fun ha hfit =>
    h.of_undoable (ha p d).1 hfit
  cases c with
  | chain value =>
      refine hleft (Tree.Chain.orderly_write value).leaves ?_
      obtain ⟨r, q, hexec, hr⟩ := Tends.chain value p d ⟨hu, h.current⟩
      rw [hexec]
      cases r with
      | ok head => exact hr.fit
      | error e => exact hr.fit
  | request r =>
      cases r with
      | read id =>
          obtain ⟨hleft, -⟩ := leaves_read id p d
          exact h.of_alike hleft
      | write page =>
          refine hleft (leaves_write page) ?_
          rcases hu.exec_write page with ⟨hhas, hexec, hface⟩ | ⟨s, hexec⟩
          · rw [hexec, hface]
            exact h.current.set hhas (.inr hc.2)
          · rw [hexec]
            exact h.current
      | allocate =>
          refine hleft Orderly.allocate.leaves ?_
          obtain ⟨r, q, hexec, hr⟩ := Tends.allocate [] p d ⟨hu, h.current⟩
          rw [hexec]
          cases r with
          | ok id => exact hr.fit.mono (List.nil_subset _)
          | error e => exact hr.fit
      | free id =>
          refine hleft (Orderly.free id).leaves ?_
          rcases hu.exec_free id with ⟨q, hhas, hexec, hface⟩ | ⟨s, hexec⟩
          · rw [hexec, hface]
            exact h.current.freed hhas hc
          · rw [hexec]
            exact h.current
      | setRoot id =>
          refine hleft (Orderly.setRoot id).leaves ?_
          exact fit_setHeader h.current hc p.header.recordCount
      | adjustRecordCount delta =>
          refine hleft (Orderly.adjustRecordCount delta).leaves ?_
          exact fit_setHeader h.current h.current.root _
      | beginOp => exact h.begun
      | endOp => exact h.ended
      | undoOp =>
          rw [Call.serve, Request.serve, exec_undoOp]
          exact h.takenBack
      | setCacheCapacity pages => exact h.of_alike (alike_resize p pages)
      | commit => exact absurd rfl hcommit
      | rollback => exact h.rolledBack

end Trim

namespace Life

variable {p : Pager} {d : Disk}

theorem sized (h : Life Call.Careful p d) : Life Call.Sized p d := h.mono fun _ _ _ hc => hc.sized

/-- **In a careful life the pages are accounted for**, as long as the pager can be used. -/
theorem trim (h : Life Call.Careful p d) (hu : p.poisoned = none) {log : NodeId}
    (hlog : p.log = some log) : Trim p d := by
  induction h with
  | @opened path o d d' p hnew ho h =>
      cases hro : o.readOnly with
      | true =>
          rw [log_of_open_reader hro h] at hlog
          cases hlog
      | false =>
          obtain ⟨file, log', rfl, -⟩ := fresh_of_open hnew hro (pageSize_of_validate ho) h
          have hfit :
              Fit ((ofHeader path file (some log') o (Header.fresh o.pageSize)).face d') [] :=
            .fresh rfl
          refine ⟨hfit, ?_, hfit⟩
          rintro hm ⟨⟩
  | @called p d h c hc ih =>
      by_cases hcommit : c = .request .commit
      · subst hcommit
        have hout := commitOutcome p d
        have hserve : (Call.request .commit).serve p d = (Pager.commit.exec p d).2 := rfl
        rw [hserve] at hu hlog ⊢
        generalize Pager.commit.exec p d = out at hout hu hlog
        cases hout with
        | refused => exact ih hu hlog
        | unchanged => exact ih hu hlog
        | published hlog' hcrash =>
            obtain rfl := Option.some.inj (hlog'.symm.trans hlog)
            exact (ih hu hlog').published (h.sized.coherent.writer hu _ hlog') hcrash
        | stopped => cases hu
      · obtain ⟨hsame, hdisk⟩ := Call.same_serve hcommit p d
        have hu' := hsame.poisoned.symm.trans hu
        have hlog' := hsame.log.symm.trans hlog
        rw [hdisk]
        exact (ih hu' hlog').serve ⟨h.sized.coherent, hu', _, hlog'⟩ hc hcommit

/-- In a careful life the header is one that a file can have. -/
theorem check (h : Life Call.Careful p d) (hu : p.poisoned = none) {log : NodeId}
    (hlog : p.log = some log) : p.header.check = .ok p.header := by
  have htidy := (h.sized.coherent.writer hu log hlog).tidy
  refine (h.trim hu hlog).current.check ?_
  rw [show (p.face d).header = p.header from rfl, htidy.current.size_eq]
  exact htidy.size_mem

end Life

end Pager

end PagedStore
