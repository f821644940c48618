import PagedStore.Proofs.PagerHistory
import PagedStore.Proofs.TreeOperations

/-!
# A tree in use

A writer on a file that stores a map has two of them before it: the one that the file shows now,
and the one of the last commit, to which a rollback returns and from which a later opening starts
(`Serves`). A commit makes the first one the second. Unless it is made to stop it succeeds, because
every page of the file is in use or free and so has been written.
-/

set_option autoImplicit false

namespace PagedStore

open PagedStore.Action

/-! ## Every page can be read -/

section

variable {f : Face} {id : PageId}

/-- A page can be read. -/
def Face.Readable (f : Face) (id : PageId) : Prop := ∃ page, f.pages id = .ok page

theorem FreeList.readable {head : PageId} {ids : List PageId} (h : FreeList f head ids) :
    ∀ id ∈ ids, f.Readable id := by
  induction ids generalizing head with
  | nil => simp
  | cons first ids ih =>
      obtain ⟨rfl, next, hpage, hrest⟩ := h
      intro id hid
      rcases List.mem_cons.1 hid with rfl | hid
      · exact ⟨_, hpage⟩
      · exact ih hrest id hid

namespace Tree

theorem Chain.ChainAt.readable {head : PageId} {parts : List Bytes} {ids : List PageId}
    (h : Chain.ChainAt f head parts ids) : ∀ id ∈ ids, f.Readable id := by
  fun_induction Chain.ChainAt f head parts ids with
  | case1 head => simp
  | case2 head part parts first ids ih =>
      obtain ⟨rfl, -, next, hpage, hrest⟩ := h
      intro id hid
      rcases List.mem_cons.1 hid with rfl | hid
      · exact ⟨_, hpage⟩
      · exact ih next hrest id hid
  | case3 => exact h.elim

theorem ValueAt.readable [Codec] {v : CellValue} {bs : Bytes} {pages : Multiset PageId}
    (h : ValueAt f v bs pages) : ∀ id ∈ pages, f.Readable id := by
  cases h with
  | inline => simp
  | chained chain => exact fun id hid => chain.readable id (Multiset.mem_coe.1 hid)

theorem Records.readable [Codec] {cells : List Cell} {records : List (Bytes × Bytes)}
    {pages : Multiset PageId} (h : Records f cells records pages) :
    ∀ id ∈ pages, f.Readable id := by
  induction h with
  | nil => simp
  | cons hvalue hrest ih =>
      intro id hid
      rcases Multiset.mem_add.1 hid with hid | hid
      · exact hvalue.readable id hid
      · exact ih id hid

theorem Branches.forall_pages {S : PageId → List Cell → Multiset PageId → Prop} {first : PageId}
    {rest : List (Bytes × PageId)} {cells : List Cell} {pages : Multiset PageId} {P : PageId → Prop}
    (h : Branches S first rest cells pages) (hS : ∀ {id cs ps}, S id cs ps → ∀ p ∈ ps, P p) :
    ∀ p ∈ pages, P p := by
  induction h with
  | last hchild => exact hS hchild
  | cons hchild hless hothers hnot ih =>
      intro p hp
      rcases Multiset.mem_add.1 hp with hp | hp
      · exact hS hchild p hp
      · exact ih p hp

theorem Subtree.readable {n : Nat} {cells : List Cell} {nodes : Multiset PageId}
    (h : Subtree f n id cells nodes) : ∀ p ∈ nodes, f.Readable p := by
  induction n generalizing id cells nodes with
  | zero =>
      obtain ⟨node, below, hpage, -, rfl, hbody⟩ := h
      obtain ⟨-, rfl, -⟩ := hbody.eq_leaf
      intro p hp
      rw [add_zero, Multiset.mem_singleton] at hp
      exact ⟨_, hp ▸ hpage⟩
  | succ n ih =>
      obtain ⟨node, below, hpage, -, rfl, hbody⟩ := h
      obtain ⟨first, rest, rfl, -, hbranches⟩ := hbody.eq_interior
      intro p hp
      rcases Multiset.mem_add.1 hp with hp | hp
      · rw [Multiset.mem_singleton] at hp
        exact ⟨_, hp ▸ hpage⟩
      · exact hbranches.forall_pages (fun hs => ih hs) p hp

theorem Rooted.readable {cells : List Cell} {nodes : Multiset PageId} (h : Rooted f cells nodes) :
    ∀ p ∈ nodes, f.Readable p := by
  cases h with
  | empty => simp
  | tree htree => exact htree.readable

/-- Every page of a file that stores a map can be read. -/
theorem Stores.readable [Codec] {m : Contents} (h : Stores f m) (hid : f.Has id) :
    f.Readable id := by
  obtain ⟨cells, nodes, chains, hrooted, hrecords, ⟨free, hb⟩, -⟩ := h
  rcases Multiset.mem_add.1 ((hb.all id).2 hid) with hu | hf
  · rcases Multiset.mem_add.1 hu with hn | hc
    · exact hrooted.readable id hn
    · exact hrecords.readable id hc
  · exact hb.listed.readable id (Multiset.mem_coe.1 hf)

/-! ## What the map depends on -/

/-- Two headers that describe the same tree and the same free list. -/
structure Describes (h h' : Header) : Prop where
  pageCount : h'.pageCount = h.pageCount
  root : h'.root = h.root
  freeHead : h'.freeHead = h.freeHead
  freeCount : h'.freeCount = h.freeCount
  recordCount : h'.recordCount = h.recordCount

theorem Describes.refl (h : Header) : Describes h h := ⟨rfl, rfl, rfl, rfl, rfl⟩

variable [Codec]

theorem Stores.congr {g : Face} {m : Contents} (h : Stores f m) (hd : Describes f.header g.header)
    (hpages : g.pages = f.pages) (hsize : g.pageSize = f.pageSize) : Stores g m := by
  have hsame : ∀ id, g.pages id = f.pages id := fun id => congrFun hpages id
  obtain ⟨cells, nodes, chains, hrooted, hrecords, ⟨free, hb⟩, hcount, hkeyed⟩ := h
  refine ⟨cells, nodes, chains, hrooted.congr (fun p _ => hsame p) hsize hd.root,
    hrecords.congr (fun p _ => hsame p) hsize, ⟨free, ?_, ?_, ?_, hb.once, ?_⟩, ?_, fun hsome => ?_⟩
  · rw [hd.pageCount]
    exact hb.pos
  · rw [hd.freeHead]
    exact hb.listed.congr (fun p _ => hsame p) hsize
  · rw [hd.freeCount]
    exact hb.counted
  · intro id
    rw [Face.Has, hd.pageCount]
    exact hb.all id
  · rw [hd.recordCount]
    exact hcount
  · rw [hd.root] at hsome ⊢
    exact keyed_congr (hkeyed hsome) (hsame _)

/-- The header counts the records. -/
theorem Stores.size_eq {m : Contents} (h : Stores f m) :
    f.header.recordCount.toNat = m.size := by
  obtain ⟨cells, nodes, chains, -, hrecords, -, hcount, -⟩ := h
  rw [hcount, ← hrecords.length_eq, Std.ExtTreeMap.length_toList]

/-- A file without any page but the first stores the empty map. -/
theorem stores_empty (hcount : f.header.pageCount = 1) (hroot : f.header.root = 0)
    (hhead : f.header.freeHead = 0) (hfree : f.header.freeCount = 0)
    (hrecords : f.header.recordCount = 0) : Stores f ∅ := by
  have hnil : (∅ : Contents).toList = [] := Std.ExtTreeMap.toList_eq_nil_iff.2 rfl
  refine ⟨[], 0, 0, .empty hroot, hnil ▸ .nil, ⟨[], ?_, hhead, ?_, ?_, ?_⟩, ?_,
    fun hsome => absurd hroot hsome⟩
  · rw [hcount]
    decide
  · rw [hfree]
    rfl
  · simp
  · intro id
    have hnone : ¬ f.Has id := by
      rintro ⟨h0, hlt⟩
      rw [hcount, UInt32.lt_iff_toNat_lt] at hlt
      exact h0 (UInt32.toNat_inj.1 (Nat.lt_one_iff.1 hlt))
    simp [hnone]
  · rw [hrecords]
    rfl

end Tree

end

open PagedStore.Tree

namespace Pager

/-! ## Commits -/

section

variable {p : Pager} {d : Disk} {m : Contents}

/-- The header of a file that stores a map is one that a file can have. -/
theorem Ready.check_of_stores [Codec] (h : Ready p d) (hs : Stores (p.face d) m) :
    p.nextHeader.check = .ok p.nextHeader := by
  have hsane := h.sane
  obtain ⟨cells, nodes, chains, hrooted, -, ⟨free, hb⟩, -⟩ := hs
  have hzero : (0 : PageId) < p.header.pageCount := by
    rw [UInt32.lt_iff_toNat_lt]
    exact Nat.pos_of_ne_zero fun h0 => hb.pos (UInt32.toNat_inj.1 h0)
  refine Header.check_eq_ok.2 ⟨rfl, ?_, hb.pos, ?_, ?_, ?_⟩
  · show p.header.pageSize.toNat ∈ pageSizes
    rw [h.current.size_eq]
    exact h.size_mem
  · show p.header.root < p.header.pageCount
    cases hrooted with
    | empty hnone => exact (show p.header.root = 0 from hnone) ▸ hzero
    | tree htree =>
        obtain ⟨node, below, hpage, -⟩ := htree
        exact (hsane.page _ _ hpage).2.1.2
  · show p.header.freeHead < p.header.pageCount
    have hlisted := hb.listed
    cases free with
    | nil => exact (show p.header.freeHead = 0 from hlisted) ▸ hzero
    | cons first free =>
        obtain ⟨rfl, -⟩ := hlisted
        exact (hb.has_of_free List.mem_cons_self).2
  · -- The free pages are some of the pages, and the first page is none of them.
    show p.header.freeCount < p.header.pageCount
    have hcard := hb.card_lt
    have hcount : p.header.freeCount.toNat = free.length := hb.counted
    rw [UInt32.lt_iff_toNat_lt, hcount]
    exact Nat.lt_of_le_of_lt (Nat.le_add_left _ _) hcard

/-- All pages of a file that stores a map are dirty or lie in the file. -/
theorem Ready.covered_of_stores [Codec] (h : Ready p d) (hs : Stores (p.face d) m) : p.Covered d :=
  h.covered_of_readable fun _ hhas => hs.readable hhas

end

/-- To close a file that is in use is to commit. -/
theorem Ready.exec_close {p : Pager} {d : Disk} (h : Ready p d) :
    Tree.close.exec p d = Pager.commit.exec p d := by
  rw [Tree.close, exec_bind, exec_self]
  dsimp only
  rw [h.writable, h.usable]
  rfl

/-- A file that must not be used any more is closed without a commit. -/
theorem exec_close_poisoned {p : Pager} {reason : String} (h : p.poisoned = some reason)
    (d : Disk) : Tree.close.exec p d = (.ok (), p, d) := by
  rw [Tree.close, exec_bind, exec_self]
  dsimp only
  rw [h, Option.isSome_some, Bool.or_true]
  rfl

/-! ## The life of a tree -/

/-- A writer on a file that shows one map and has committed another, whether or not its commits
are made to stop. -/
structure Serves [Codec] (path : String) (p : Pager) (d : Disk) (m old : Contents) : Prop where
  ready : Ready p d
  path_eq : p.path = path
  current : Stores (p.face d) m
  committed : Stores (p.rolledBack.face d) old

namespace Serves

variable {path : String} {p : Pager} {d : Disk} {m old : Contents} {α : Type}

variable [Codec]

/-- The maps of a writer after an operation that leaves the disk alone. -/
theorem step {q : Pager} {m' : Contents} (h : Serves path p d m old) (hq : Ready q d)
    (hs : Same p q) (hm : Stores (q.face d) m') : Serves path q d m' old where
  ready := hq
  path_eq := hs.path.trans h.path_eq
  current := hm
  committed := by
    have hview : q.rolledBack.view d = p.rolledBack.view d := by
      funext id
      rw [view_rolledBack, view_rolledBack, hs.committed, hs.file, hs.pageSize]
    refine h.committed.congr ?_ hview hs.pageSize
    show Describes p.committed q.committed
    rw [hs.committed]
    exact .refl _

/-- **A change either has its effect on the map or none.** -/
theorem settles {a : Action Pager α} {E : Error → Prop} {Q : α → Prop} {m' : Contents}
    (h : Serves path p d m old)
    (ha : Settles (p.face d) a E fun x g => Q x ∧ Stores g m') :
    ∃ r q, a.exec p d = (r, q, d) ∧ Same p q ∧
      match r with
      | .ok x => Q x ∧ Serves path q d m' old
      | .error e => E e ∧ Serves path q d m old := by
  obtain ⟨r, q, hexec, hq, hs, hr⟩ := ha p d h.ready rfl
  refine ⟨r, q, hexec, hs, ?_⟩
  cases r with
  | ok x => exact ⟨hr.1, h.step hq hs hr.2⟩
  | error e => exact ⟨hr.1, h.step hq hs (hr.2 ▸ h.current)⟩

/-- **A question is answered**, and the map stays as it is. -/
theorem asks {a : Action Pager α} {Q : α → Prop} (h : Serves path p d m old)
    (ha : Does (p.face d) a (fun _ => False) fun x g => g = p.face d ∧ Q x) :
    ∃ x q, a.exec p d = (.ok x, q, d) ∧ Q x ∧ Same p q ∧ Serves path q d m old := by
  obtain ⟨r, q, hexec, ho, hr⟩ := ha p d h.ready rfl
  cases r with
  | ok x => exact ⟨x, q, hexec, hr.2, ho.toSame, h.step ho.ready ho.toSame (hr.1 ▸ h.current)⟩
  | error e => exact hr.elim

/-- A writer shows one map only. -/
theorem unique {m' old' : Contents} (h : Serves path p d m old) (h' : Serves path p d m' old') :
    m = m' := by
  refine Std.ExtTreeMap.ext_getElem? fun key => ?_
  obtain ⟨x, q, hexec, hx, -⟩ := h.asks (does_get h.current key)
  obtain ⟨x', q', hexec', hx', -⟩ := h'.asks (does_get h'.current key)
  rw [hexec] at hexec'
  obtain ⟨rfl, -, -⟩ := exec_ok_inj hexec'
  exact hx.symm.trans hx'

/-- Without changes there is nothing to commit. -/
theorem of_unchanged (h : Serves path p d m old) (hc : p.hasChanges = false) :
    Serves path p d m m := by
  obtain ⟨hheader, hview⟩ := rolledBack_of_unchanged hc d
  refine ⟨h.ready, h.path_eq, h.current, ?_⟩
  refine h.current.congr ?_ hview rfl
  show Describes p.header p.committed
  rw [hheader]
  exact .refl _

omit [Codec] in
/-- After a commit there is nothing to commit. -/
theorem hasChanges_published (p : Pager) : p.published.hasChanges = false := by
  rw [hasChanges, published, Bool.or_eq_false_iff, Bool.not_eq_false', bne_eq_false_iff_eq]
  exact ⟨Std.ExtTreeMap.isEmpty_empty, rfl⟩

/-- A commit that is not stopped makes lasting what the file shows. -/
theorem published (h : Serves path p d m old) (hc : p.crashPoint = none) {log : NodeId}
    (hlog : p.log = some log) (hh : Held p.path p.file log d) :
    Serves path p.published (FileEffect.performAll p.file log p.commitEffects d) m m := by
  obtain ⟨hq, hface⟩ := h.ready.published hlog hh hc (h.ready.covered_of_stores h.current)
    (h.ready.check_of_stores h.current)
  have hstores : Stores (p.published.face
      (FileEffect.performAll p.file log p.commitEffects d)) m := by
    rw [hface]
    exact h.current.congr ⟨rfl, rfl, rfl, rfl, rfl⟩ rfl rfl
  refine ⟨hq, h.path_eq, hstores, ?_⟩
  -- Nothing is dirty after a commit, so there is nothing for a rollback to take back.
  refine hstores.congr (.refl _) ?_ rfl
  funext id
  rfl

/-- **A commit succeeds** unless it is made to stop, and what the file shows is committed. -/
theorem commit (h : Serves path p d m old) (hc : p.hasChanges = false ∨ p.crashPoint = none) :
    ∃ q d', Pager.commit.exec p d = (.ok (), q, d') ∧ q.crashPoint = p.crashPoint ∧
      q.hasChanges = false ∧ Serves path q d' m m := by
  obtain ⟨log, hlog, hh, -, hexec⟩ := exec_commit h.ready
  rw [hexec]
  cases hch : p.hasChanges with
  | true =>
      have hnone : p.crashPoint = none := hc.resolve_left (by simp [hch])
      rw [if_pos rfl, hnone]
      exact ⟨_, _, rfl, hnone, hasChanges_published p, h.published hnone hlog hh⟩
  | false =>
      rw [if_neg Bool.false_ne_true]
      exact ⟨p, d, rfl, rfl, hch, h.of_unchanged hch⟩

/-- **A rollback returns to what was committed.** -/
theorem rollback (h : Serves path p d m old) : Serves path p.rolledBack d old old :=
  ⟨h.ready.rolledBack, h.path_eq, h.committed, h.committed.congr (.refl _) rfl rfl⟩

/-- Where a rollback would make a difference there is something to commit. -/
theorem hasChanges_of_ne (h : Serves path p d m old) (hne : m ≠ old) : p.hasChanges = true := by
  rw [← Bool.not_eq_false]
  exact fun hch => hne ((h.of_unchanged hch).rollback.unique h.rollback)

/-- A file that has just been opened shows what is committed. -/
theorem of_ofHeader {file log : NodeId} {o : Options} {hd : Header} {f : Face}
    (hq : Ready (ofHeader path file (some log) o hd) d) (hf : Stores f m)
    (hd' : Describes f.header hd) (hsize : hd.pageSize.toNat = f.pageSize)
    (hview : (ofHeader path file (some log) o hd).view d = f.pages) :
    Serves path (ofHeader path file (some log) o hd) d m m := by
  have hstores : Stores ((ofHeader path file (some log) o hd).face d) m :=
    hf.congr hd' hview hsize
  exact ⟨hq, rfl, hstores, hstores.congr (.refl _) rfl rfl⟩

/-- A new file shows the empty map. -/
theorem of_fresh {file log : NodeId} {o : Options}
    (hq : Ready (ofHeader path file (some log) o (Header.fresh o.pageSize)) d) :
    Serves path (ofHeader path file (some log) o (Header.fresh o.pageSize)) d ∅ ∅ := by
  have hstores : Stores ((ofHeader path file (some log) o (Header.fresh o.pageSize)).face d) ∅ :=
    stores_empty rfl rfl rfl rfl rfl
  exact ⟨hq, rfl, hstores, hstores.congr (.refl _) rfl rfl⟩

/-- **What a commit that is made to stop leaves behind**: the files show what they showed at the
last commit when the mark is missing, and otherwise what they were to show after this one. -/
theorem reopen_stopped (h : Serves path p d m old) (hch : p.hasChanges = true) {point : CrashPoint}
    (hc : p.crashPoint = some point) {o : Options} (ho : o.readOnly = false)
    (he : o.errorIfExists = false) {kept : Contents}
    (hkept : kept = if point = .beforeLogCommit then old else m) :
    ∃ q d', («open» path o).exec () (p.release (Pager.commit.exec p d).2.2) = (.ok q, (), d') ∧
      Serves path q d' kept kept := by
  obtain ⟨q, d', hopen, hq⟩ := h.ready.reopen_stopped (h.ready.covered_of_stores h.current)
    (h.ready.check_of_stores h.current) hch hc ho he
  rw [h.path_eq] at hopen
  refine ⟨q, d', hopen, ?_⟩
  obtain ⟨log, hd, -, rfl⟩ := hq.alike
  rw [h.path_eq] at hq ⊢
  by_cases hpoint : point = .beforeLogCommit
  · obtain ⟨hheader, hview⟩ := hq.before (not_not.2 hpoint)
    obtain rfl : hd = p.committed := hheader
    rw [hkept, if_pos hpoint]
    exact .of_ofHeader hq.ready h.committed (.refl _) h.ready.size_eq hview
  · obtain ⟨hheader, hview⟩ := hq.after hpoint
    obtain rfl : hd = p.nextHeader := hheader
    rw [hkept, if_neg hpoint]
    exact .of_ofHeader hq.ready h.current ⟨rfl, rfl, rfl, rfl, rfl⟩ h.ready.current.size_eq hview

/-- **A file that was given back can be opened again**, and shows what was committed. -/
theorem reopen (h : Serves path p d m old) {o : Options} (ho : o.readOnly = false)
    (he : o.errorIfExists = false) :
    ∃ q d', («open» path o).exec () (p.release d) = (.ok q, (), d') ∧
      q.crashPoint = o.crashPoint ∧ Serves path q d' old old := by
  obtain ⟨q, d', hopen, hq⟩ := h.ready.reopen ho he
  rw [h.path_eq] at hopen
  obtain ⟨log, hd, -, rfl⟩ := hq.alike
  obtain ⟨hheader, hview⟩ := hq.before not_false
  obtain rfl : hd = p.committed := hheader
  rw [h.path_eq] at hopen hq
  exact ⟨_, d', hopen, rfl, .of_ofHeader hq.ready h.committed (.refl _) h.ready.size_eq hview⟩

end Serves

/-- A writer with the point at which its commits are made to stop, if there is one. -/
structure Live [Codec] (path : String) (point : Option CrashPoint) (p : Pager) (d : Disk)
    (m old : Contents) : Prop extends Serves path p d m old where
  stops : p.crashPoint = point

namespace Live

variable {path : String} {point : Option CrashPoint} {p : Pager} {d : Disk} {m old : Contents}
  {α : Type}

variable [Codec]

/-- A change either has its effect on the map or none. -/
theorem settles {a : Action Pager α} {E : Error → Prop} {Q : α → Prop} {m' : Contents}
    (h : Live path point p d m old)
    (ha : Settles (p.face d) a E fun x g => Q x ∧ Stores g m') :
    ∃ r q, a.exec p d = (r, q, d) ∧
      match r with
      | .ok x => Q x ∧ Live path point q d m' old
      | .error e => E e ∧ Live path point q d m old := by
  obtain ⟨r, q, hexec, hs, hr⟩ := h.toServes.settles ha
  have hstops := hs.crashPoint.trans h.stops
  refine ⟨r, q, hexec, ?_⟩
  cases r with
  | ok x => exact ⟨hr.1, hr.2, hstops⟩
  | error e => exact ⟨hr.1, hr.2, hstops⟩

/-- A question is answered, and the map stays as it is. -/
theorem asks {a : Action Pager α} {Q : α → Prop} (h : Live path point p d m old)
    (ha : Does (p.face d) a (fun _ => False) fun x g => g = p.face d ∧ Q x) :
    ∃ x q, a.exec p d = (.ok x, q, d) ∧ Q x ∧ Live path point q d m old := by
  obtain ⟨x, q, hexec, hx, hs, hq⟩ := h.toServes.asks ha
  exact ⟨x, q, hexec, hx, hq, hs.crashPoint.trans h.stops⟩

/-- A commit that is not stopped succeeds, and what the file shows is committed. -/
theorem commit (h : Live path none p d m old) :
    ∃ q d', Pager.commit.exec p d = (.ok (), q, d') ∧ Live path none q d' m m := by
  obtain ⟨q, d', hexec, hs, -, hq⟩ := h.toServes.commit (.inr h.stops)
  exact ⟨q, d', hexec, hq, hs.trans h.stops⟩

/-- A rollback returns to what was committed. -/
theorem rollback (h : Live path point p d m old) :
    Pager.rollback.exec p d = (.ok (), p.rolledBack, d) ∧
      Live path point p.rolledBack d old old :=
  ⟨rfl, h.toServes.rollback, h.stops⟩

/-- A file that was given back can be opened again, and shows what was committed. -/
theorem reopen (h : Live path point p d m old) {o : Options} (ho : o.readOnly = false)
    (he : o.errorIfExists = false) :
    ∃ q d', («open» path o).exec () (p.release d) = (.ok q, (), d') ∧
      Live path o.crashPoint q d' old old := by
  obtain ⟨q, d', hopen, hs, hq⟩ := h.toServes.reopen ho he
  exact ⟨q, d', hopen, hq, hs⟩

end Live

end Pager

end PagedStore
