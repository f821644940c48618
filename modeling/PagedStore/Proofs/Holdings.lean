import PagedStore.Proofs.CarefulLives

/-!
# Who holds which page

A client of a pager is given pages and gives them back. What it holds goes back to what it was
when an operation is taken back, at a rollback, and when the file is opened again; so a client
keeps three accounts of its pages: as they are now, as they were when the operation under way
began, and as they were at the last commit (`Client`). A client that writes and frees only what it
holds, and that has written all of it before a commit, finds these accounts borne out by the pager
at every moment: the free list consists of just the pages that were freed, the last one first, and
every page is held or free and not both (`Booked`). This holds for what the pager shows, for what it
would return to, and for what was committed, and from one to the next of its requests (`Tenanted`).
-/

set_option autoImplicit false

namespace PagedStore

open Bytes

/-! ## Accounts of a client -/

/-- The pages of a client. -/
structure Holdings where
  /-- The pages that it holds. -/
  held : Multiset PageId := 0
  /-- Those of them that it has not written yet. -/
  blank : List PageId := []
  /-- The pages that were given back, the last one first. -/
  freed : List PageId := []

namespace Holdings

/-- A page is given out, one that was given back if there is any. -/
def taken (w : Holdings) (id : PageId) : Holdings :=
  ⟨{id} + w.held, id :: w.blank, w.freed.tail⟩

/-- A page is written. -/
def written (w : Holdings) (id : PageId) : Holdings :=
  { w with blank := w.blank.filter (· ≠ id) }

/-- A page is given back. -/
def returned (w : Holdings) (id : PageId) : Holdings :=
  ⟨w.held.erase id, w.blank.filter (· ≠ id), id :: w.freed⟩

end Holdings

/-- The pages of a client now, at the beginning of the operation under way and at the last
commit. -/
structure Client where
  now : Holdings := {}
  begun : Holdings := {}
  kept : Holdings := {}

/-- The accounts after the file was given up and opened again. -/
def Client.reopened (c : Client) : Client := ⟨c.kept, c.kept, c.kept⟩

/-! ## Accounts that are borne out -/

/-- What a pager shows bears out the accounts of a client. -/
structure Booked (f : Face) (w : Holdings) : Prop where
  accounts : Accounts f w.held w.freed
  root : f.header.root < f.header.pageCount
  readable : ∀ id ∈ w.held, id ∉ w.blank → ∃ page, f.pages id = .ok page

namespace Booked

variable {f g : Face} {w : Holdings}

theorem fit (h : Booked f w) : Fit f [] := ⟨⟨_, _, h.accounts, by simp⟩, h.root⟩

theorem fresh {n : Nat} (hheader : f.header = .fresh n) : Booked f {} := by
  refine ⟨.fresh hheader, ?_, fun id hid => absurd hid (Multiset.notMem_zero id)⟩
  rw [hheader]
  exact UInt32.zero_lt_one

/-- All that the accounts depend on. -/
theorem congr (h : Booked f w) (hcount : g.header.pageCount = f.header.pageCount)
    (hhead : g.header.freeHead = f.header.freeHead)
    (hfree : g.header.freeCount = f.header.freeCount)
    (hroot : g.header.root < f.header.pageCount) (hpages : g.pages = f.pages)
    (hsize : g.pageSize = f.pageSize) : Booked g w where
  accounts := h.accounts.congr hcount hhead hfree (fun id _ => congrFun hpages id) hsize
  root := by
    rw [hcount]
    exact hroot
  readable := by
    rw [hpages]
    exact h.readable

/-- When nothing is blank every page can be read. -/
theorem readable_all (h : Booked f w) (hblank : w.blank = []) {id : PageId} (hid : f.Has id) :
    ∃ page, f.pages id = .ok page := by
  rcases Multiset.mem_add.1 ((h.accounts.all id).2 hid) with hheld | hfree
  · exact h.readable id hheld (by simp [hblank])
  · exact h.accounts.listed.exists_of_mem hfree

theorem reused (h : Booked f w) (hs : f.Sane) {page : Page} (ho : f.Offers page)
    (hne : f.header.freeHead ≠ 0) :
    (∃ rest, w.freed = f.header.freeHead :: rest) ∧
      Booked (f.reused page) (w.taken f.header.freeHead) := by
  obtain ⟨rest, hfreed, ha⟩ := h.accounts.reused hs ho hne
  refine ⟨⟨rest, hfreed⟩, ?_, h.root, fun id hid hblank => ?_⟩
  · rw [Holdings.taken, hfreed]
    exact ha
  · rw [Holdings.taken, List.mem_cons, not_or] at hblank
    rcases Multiset.mem_add.1 hid with hid | hid
    · exact absurd (Multiset.mem_singleton.1 hid) hblank.1
    · exact h.readable id hid hblank.2

theorem grown (h : Booked f w) (hg : f.Grown g) (hnone : f.header.freeHead = 0) :
    Booked g (w.taken f.header.pageCount) := by
  refine ⟨?_, ?_, fun id hid hblank => ?_⟩
  · rw [Holdings.taken, h.accounts.eq_nil hnone]
    exact h.accounts.grown hg hnone
  · rw [hg.header]
    exact (lt_succ_iff hg.room _).2 (.inr h.root)
  · rw [Holdings.taken, List.mem_cons, not_or] at hblank
    rw [hg.pages id hblank.1]
    rcases Multiset.mem_add.1 hid with hid | hid
    · exact absurd (Multiset.mem_singleton.1 hid) hblank.1
    · exact h.readable id hid hblank.2

theorem set (h : Booked f w) {page : Page} (hid : page.id ∈ w.held) :
    Booked (f.set page) (w.written page.id) := by
  refine ⟨h.accounts.set hid, h.root, fun id hheld hblank => ?_⟩
  by_cases hself : id = page.id
  · exact ⟨_, hself ▸ Face.pages_set_self f page⟩
  · rw [Face.pages_set_of_ne hself]
    refine h.readable id hheld fun hb => hblank ?_
    exact List.mem_filter.2 ⟨hb, by simpa using hself⟩

theorem freed (h : Booked f w) {id : PageId} (hid : id ∈ w.held) :
    Booked (f.freed id) (w.returned id) := by
  have hheld : {id} + w.held.erase id = w.held := by
    rw [Multiset.singleton_add, Multiset.cons_erase hid]
  have ha := h.accounts
  rw [← hheld] at ha
  refine ⟨ha.freed, h.root, fun other ho hblank => ?_⟩
  have hne : other ≠ id := by
    rintro rfl
    -- The page is held once, so it is not among those that are left.
    have honce := (Multiset.nodup_add.1 ha.once).1
    rw [Multiset.singleton_add] at honce
    exact (Multiset.nodup_cons.1 honce).1 ho
  rw [Face.pages_freed_of_ne hne]
  refine h.readable other (Multiset.mem_of_mem_erase ho) fun hb => hblank ?_
  exact List.mem_filter.2 ⟨hb, by simpa using hne⟩

/-- A root that the file has may be named, and the records may be counted otherwise. -/
theorem withHeader (h : Booked f w) {root : PageId} (hroot : root < f.header.pageCount)
    (records txn : UInt64) :
    Booked (f.withHeader { f.header with root := root, recordCount := records, lastTxn := txn }) w :=
  h.congr rfl rfl rfl hroot rfl rfl

end Booked

namespace Pager

open PagedStore.Action

/-! ## Requests of a client -/

/-- A client writes and frees only what it holds, and has written all of it before a commit. -/
def Request.Rightful (p : Pager) (c : Client) : Request → Prop
  | write page => page.image.length = p.pageSize ∧ page.id ∈ c.now.held
  | free id => id ∈ c.now.held
  | setRoot id => id < p.header.pageCount
  | commit => c.now.blank = []
  | _ => True

/-- The accounts of a client after a request. They go by the answers of the pager. A commit that
was made to stop has happened when the log was complete. -/
def Request.account (p : Pager) (d : Disk) (c : Client) : Request → Client
  | allocate =>
      match (Pager.allocate.exec p d).1 with
      | .ok id => { c with now := c.now.taken id }
      | .error _ => c
  | write page =>
      match ((Pager.write page).exec p d).1 with
      | .ok () => { c with now := c.now.written page.id }
      | .error _ => c
  | free id =>
      match ((Pager.free id).exec p d).1 with
      | .ok () => { c with now := c.now.returned id }
      | .error _ => c
  | beginOp => { c with begun := c.now }
  | undoOp => if p.savepoint.isSome then { c with now := c.begun } else c
  | rollback => { c with now := c.kept }
  | commit =>
      match (Pager.commit.exec p d).1 with
      | .ok () => { c with kept := c.now }
      | .error _ =>
          if p.poisoned = none ∧ p.crashPoint ≠ some .beforeLogCommit then { c with kept := c.now }
          else c
  | _ => c

/-! ## One request -/

section

variable {p q : Pager} {d d' : Disk} {c : Client}

/-- A request other than a commit leaves a pager ready. -/
theorem Ready.served (h : Ready p d) {r : Request} (hr : r.Proper p) (hne : r ≠ .commit) :
    Ready (r.serve p d).1 d := by
  obtain ⟨hsame, hdisk⟩ := Call.same_serve (c := .request r) (fun he => hne (Call.request.inj he)) p d
  have hready := h.serve hr (hsame.poisoned.trans h.usable)
  rwa [show (r.serve p d).2 = d from hdisk] at hready

/-- A ready pager that bears out the accounts of its client, in all states to which it may
return. -/
structure Tenanted (p : Pager) (d : Disk) (c : Client) : Prop where
  ready : Ready p d
  current : Booked (p.face d) c.now
  back : ∀ hm, p.undone = some hm → Booked (p.faceAt d hm) c.begun
  committed : Booked (p.faceAt d (p.committed, ∅)) c.kept

namespace Tenanted

/-- After a step that can be taken back there is nothing to show but what is there now. -/
theorem step (h : Tenanted p d c) (hq : Ready q d) (hu : Undoable p q) {w : Holdings}
    (hw : Booked (q.face d) w) : Tenanted q d { c with now := w } where
  ready := hq
  current := hw
  back hm hback := by
    rw [hu.toSame.faceAt]
    exact h.back hm (hu.undone.symm.trans hback)
  committed := by
    rw [hu.toSame.faceAt, hu.committed]
    exact h.committed

theorem of_alike (h : Tenanted p d c) (hq : Ready q d) (ha : Alike p q) : Tenanted q d c :=
  h.step hq ha.undoable (ha.face d ▸ h.current)

theorem allocate (h : Tenanted p d c) :
    Tenanted (Request.allocate.serve p d).1 d (Request.allocate.account p d c) := by
  have hq : Ready (Pager.allocate.exec p d).2.1 d := h.ready.served (r := .allocate) trivial nofun
  have hleft : Undoable p (Pager.allocate.exec p d).2.1 := (Orderly.allocate.leaves p d).1
  rw [Request.serve, Request.account]
  rcases h.ready.toUsable.exec_allocate with
    ⟨q, page, hexec, hne, ho, hface⟩ | ⟨q, hexec, hnone, hgrown⟩ | ⟨e, q, hexec, halike, -⟩ <;>
    rw [hexec] at hq hleft ⊢
  · exact h.step hq hleft (hface ▸ (h.current.reused h.ready.sane ho hne).2)
  · exact h.step hq hleft (h.current.grown hgrown hnone)
  · exact h.of_alike hq halike

theorem write (h : Tenanted p d c) {page : Page} (hlen : page.image.length = p.pageSize)
    (hid : page.id ∈ c.now.held) :
    Tenanted ((Request.write page).serve p d).1 d ((Request.write page).account p d c) := by
  have hq : Ready ((Pager.write page).exec p d).2.1 d :=
    h.ready.served (r := .write page) hlen nofun
  obtain ⟨hexec, hface⟩ :=
    h.ready.toUsable.exec_write_of_has page (h.current.accounts.has_of_mem hid)
  rw [hexec] at hq
  rw [Request.serve, Request.account, hexec]
  exact h.step hq ⟨same_written p page, undone_written p page⟩ (hface ▸ h.current.set hid)

theorem free (h : Tenanted p d c) {id : PageId} (hid : id ∈ c.now.held) :
    Tenanted ((Request.free id).serve p d).1 d ((Request.free id).account p d c) := by
  have hq : Ready ((Pager.free id).exec p d).2.1 d := h.ready.served (r := .free id) trivial nofun
  have hleft : Undoable p ((Pager.free id).exec p d).2.1 := ((Orderly.free id).leaves p d).1
  obtain ⟨q, hexec, hface⟩ :=
    h.ready.toUsable.exec_free_of_has (h.current.accounts.has_of_mem hid)
  rw [hexec] at hq hleft
  rw [Request.serve, Request.account, hexec]
  exact h.step hq hleft (hface ▸ h.current.freed hid)

/-- The pager returns to what it showed at the beginning of the operation, if there is one. -/
theorem takenBack (h : Tenanted p d c) :
    Tenanted p.takenBack d (Request.undoOp.account p d c) := by
  have hq := h.ready.takenBack
  rw [Request.account]
  cases hs : p.savepoint with
  | none =>
      have hnone : p.undone = none := by rw [undone, hs]; rfl
      rw [Pager.takenBack, hnone]
      exact h
  | some s =>
      have hsome : p.undone = some (s.header, s.before.foldl restore p.dirty) := by
        rw [undone, hs]
        rfl
      rw [Pager.takenBack, hsome] at hq ⊢
      refine ⟨hq, h.back _ hsome, ?_, h.committed⟩
      rintro hm ⟨⟩

theorem rolledBack (h : Tenanted p d c) : Tenanted p.rolledBack d { c with now := c.kept } := by
  refine ⟨h.ready.rolledBack, h.committed, ?_, h.committed⟩
  rintro hm ⟨⟩

/-- **A request of the client leaves its accounts borne out.** -/
theorem serve (h : Tenanted p d c) {r : Request} (hr : r.Rightful p c) (hne : r ≠ .commit) :
    Tenanted (r.serve p d).1 d (r.account p d c) := by
  cases r with
  | read id => exact h.of_alike (h.ready.served trivial hne) (leaves_read id p d).1
  | write page => exact h.write hr.1 hr.2
  | allocate => exact h.allocate
  | free id => exact h.free hr
  | setRoot id =>
      have hq := h.ready.served (r := .setRoot id) trivial hne
      refine h.step hq ((Orderly.setRoot id).leaves p d).1 ?_
      have hface := @face_setHeader p { p.header with root := id } rfl d
      exact hface ▸ h.current.withHeader hr _ _
  | adjustRecordCount delta =>
      have hq := h.ready.served (r := .adjustRecordCount delta) trivial hne
      refine h.step hq ((Orderly.adjustRecordCount delta).leaves p d).1 ?_
      have hface := @face_setHeader p
        { p.header with recordCount := addSaturating p.header.recordCount delta } rfl d
      exact hface ▸ h.current.withHeader h.current.root _ _
  | beginOp =>
      refine ⟨h.ready.begun, h.current, ?_, h.committed⟩
      rintro hm ⟨⟩
      exact h.current
  | endOp =>
      refine ⟨h.ready.ended, h.current, ?_, h.committed⟩
      rintro hm ⟨⟩
  | undoOp =>
      rw [Request.serve, exec_undoOp]
      exact h.takenBack
  | setCacheCapacity pages => exact h.of_alike (h.ready.resize pages) (alike_resize p pages)
  | commit => exact absurd rfl hne
  | rollback => exact h.rolledBack

/-! ## Commits -/

theorem covered (h : Tenanted p d c) (hblank : c.now.blank = []) : p.Covered d :=
  h.ready.covered_of_readable fun _ hid => h.current.readable_all hblank hid

theorem check (h : Tenanted p d c) : p.nextHeader.check = .ok p.nextHeader := by
  have hsize : (p.face d).header.pageSize.toNat ∈ pageSizes := by
    rw [show (p.face d).header = p.header from rfl, h.ready.current.size_eq]
    exact h.ready.size_mem
  obtain ⟨-, hrest⟩ := Header.check_eq_ok.1 (h.current.fit.check hsize)
  exact Header.check_eq_ok.2 ⟨rfl, hrest⟩

/-- What is shown after a commit is what was committed. -/
theorem published (h : Tenanted p d c) (hblank : c.now.blank = []) {log : NodeId}
    (hlog : p.log = some log) (hh : Held p.path p.file log d) (hc : p.crashPoint = none) :
    Tenanted p.published (FileEffect.performAll p.file log p.commitEffects d)
      { c with kept := c.now } := by
  obtain ⟨hq, hface⟩ := h.ready.published hlog hh hc (h.covered hblank) h.check
  have hnow : Booked (p.published.face
      (FileEffect.performAll p.file log p.commitEffects d)) c.now := by
    rw [hface]
    exact h.current.withHeader h.current.root _ _
  refine ⟨hq, hnow, ?_, hnow⟩
  rintro hm ⟨⟩

/-- Where there is nothing to commit, what is shown has been committed. -/
theorem unchanged (h : Tenanted p d c) (hch : p.hasChanges = false) :
    Tenanted p d { c with kept := c.now } := by
  obtain ⟨hheader, hview⟩ := rolledBack_of_unchanged hch d
  refine ⟨h.ready, h.current, h.back, ?_⟩
  have hcommitted : (p.faceAt d (p.committed, ∅)).header = (p.face d).header := hheader
  exact h.current.congr (by rw [hcommitted]) (by rw [hcommitted]) (by rw [hcommitted])
    (by rw [hcommitted]; exact h.current.root) hview rfl

end Tenanted

/-! ## Opening again -/

/-- A file that has just been opened shows what it was opened with. -/
theorem Tenanted.of_ofHeader {path : String} {file log : NodeId} {o : Options} {hd : Header}
    {f : Face} {w : Holdings} (hq : Ready (ofHeader path file (some log) o hd) d)
    (hf : Booked f w) (hd' : hd = { f.header with lastTxn := hd.lastTxn })
    (hsize : hd.pageSize.toNat = f.pageSize)
    (hview : (ofHeader path file (some log) o hd).view d = f.pages) :
    Tenanted (ofHeader path file (some log) o hd) d ⟨w, w, w⟩ := by
  have hnow : Booked ((ofHeader path file (some log) o hd).face d) w := by
    refine hf.congr ?_ ?_ ?_ ?_ hview hsize
    all_goals rw [show ((ofHeader path file (some log) o hd).face d).header = hd from rfl, hd']
    exact hf.root
  refine ⟨hq, hnow, ?_, hnow⟩
  rintro hm ⟨⟩

/-- Nobody holds any page of a new file. -/
theorem Tenanted.fresh {path : String} {file log : NodeId} {o : Options} {n : Nat}
    (hq : Ready (ofHeader path file (some log) o (Header.fresh n)) d) :
    Tenanted (ofHeader path file (some log) o (Header.fresh n)) d {} := by
  refine ⟨hq, .fresh rfl, ?_, .fresh rfl⟩
  rintro hm ⟨⟩

theorem Tenanted.reopen (h : Tenanted p d c) {o : Options} (hw : o.readOnly = false)
    (he : o.errorIfExists = false) :
    ∃ q d', («open» p.path o).exec () (p.release d) = (.ok q, (), d') ∧
      Tenanted q d' c.reopened := by
  obtain ⟨q, d', hopen, hq⟩ := h.ready.reopen hw he
  obtain ⟨log, hd, -, rfl⟩ := hq.alike
  obtain ⟨hheader, hview⟩ := hq.before not_false
  obtain rfl : hd = p.committed := hheader
  exact ⟨_, d', hopen, .of_ofHeader hq.ready h.committed rfl h.ready.size_eq hview⟩

/-- After a commit that was made to stop, the file is found with the changes when the log was
complete, and otherwise without. -/
theorem Tenanted.reopen_stopped (h : Tenanted p d c) (hblank : c.now.blank = [])
    (hch : p.hasChanges = true) {point : CrashPoint} (hc : p.crashPoint = some point) {o : Options}
    (hw : o.readOnly = false) (he : o.errorIfExists = false) {w : Holdings}
    (hkept : w = if point = .beforeLogCommit then c.kept else c.now) :
    ∃ q d', («open» p.path o).exec () (p.release (Pager.commit.exec p d).2.2) = (.ok q, (), d') ∧
      Tenanted q d' ⟨w, w, w⟩ := by
  obtain ⟨q, d', hopen, hq⟩ :=
    h.ready.reopen_stopped (h.covered hblank) h.check hch hc hw he
  refine ⟨q, d', hopen, ?_⟩
  obtain ⟨log, hd, -, rfl⟩ := hq.alike
  by_cases hpoint : point = .beforeLogCommit
  · obtain ⟨hheader, hview⟩ := hq.before (not_not.2 hpoint)
    obtain rfl : hd = p.committed := hheader
    rw [hkept, if_pos hpoint]
    exact .of_ofHeader hq.ready h.committed rfl h.ready.size_eq hview
  · obtain ⟨hheader, hview⟩ := hq.after hpoint
    obtain rfl : hd = p.nextHeader := hheader
    rw [hkept, if_neg hpoint]
    exact .of_ofHeader hq.ready h.current rfl h.ready.current.size_eq hview

end

end Pager

end PagedStore
