import PagedStore.Proofs.CrashAtomicity

/-!
# The life of a pager

A pager comes from opening a file and serves requests. Whatever these are and whether they
succeed, the pager is ready for the next one, unless a commit of it was made to stop half way.
The one request that has a condition is the commit: the header must be one that a file can have,
and the pages by which the file has grown must have been written.

For any pager with such a life, a crash at any moment of a commit leaves the file as it was before
the commit or as it was to be after it.
-/

set_option autoImplicit false

namespace PagedStore.Pager

open PagedStore.Action

/-! ## Requests -/

/-- What a pager can be asked for. -/
inductive Request where
  | read (id : PageId)
  | write (page : Page)
  | allocate
  | free (id : PageId)
  | setRoot (id : PageId)
  | adjustRecordCount (delta : Int)
  | beginOp
  | endOp
  | undoOp
  | setCacheCapacity (pages : Nat)
  | commit
  | rollback

/-- What becomes of a pager and of the disk when a request is served, with or without success. -/
def Request.serve (p : Pager) (d : Disk) : Request → Pager × Disk
  | read id => ((Pager.read id).exec p d).2
  | write page => ((Pager.write page).exec p d).2
  | allocate => (Pager.allocate.exec p d).2
  | free id => ((Pager.free id).exec p d).2
  | setRoot id => ((Pager.setRoot id).exec p d).2
  | adjustRecordCount delta => ((Pager.adjustRecordCount delta).exec p d).2
  | beginOp => (Pager.beginOp.exec p d).2
  | endOp => (Pager.endOp.exec p d).2
  | undoOp => (Pager.undoOp.exec p d).2
  | setCacheCapacity pages => ((Pager.setCacheCapacity pages).exec p d).2
  | commit => (Pager.commit.exec p d).2
  | rollback => (Pager.rollback.exec p d).2

/-- A pager whose changes can be committed: the header that the commit is to make is one that a
file can have, and every page by which the file has grown has been written. -/
structure Committable (p : Pager) : Prop where
  check : p.nextHeader.check = .ok p.nextHeader
  written : ∀ id, p.committed.pageCount ≤ id → id < p.header.pageCount → id ∈ p.dirty

/-- What a request must satisfy. -/
def Request.Proper (p : Pager) : Request → Prop
  | write page => page.image.length = p.pageSize
  | commit => p.Committable
  | _ => True

/-- The states of pagers that were opened for writing. -/
inductive Reached : Pager → Disk → Prop where
  | opened {path : String} {o : Options} {d d' : Disk} {p : Pager} (hlive : d.NamesLive)
      (hapart : d.NamesApart) (ho : o.readOnly = false) (hp : o.pageSize ∈ pageSizes)
      (h : («open» path o).exec () d = (.ok p, (), d')) : Reached p d'
  | served {p : Pager} {d : Disk} (h : Reached p d) (r : Request) (hr : r.Proper p) :
      Reached (r.serve p d).1 (r.serve p d).2

/-! ## Readiness -/

theorem Ready.of_does {α : Type} {p : Pager} {d : Disk} (h : Ready p d) {a : Action Pager α}
    {E : Error → Prop} {Q : α → Face → Prop} (ha : Does (p.face d) a E Q) :
    Ready (a.exec p d).2.1 (a.exec p d).2.2 := by
  obtain ⟨r, q, hexec, ho, -⟩ := ha p d h rfl
  rw [hexec]
  exact ho.ready

/-- What a pager shows lies in the file or among the dirty pages. -/
theorem Ready.covered {p : Pager} {d : Disk} (h : Ready p d) (hc : p.Committable) :
    p.Covered d := by
  intro id h0 hlt hid
  have hold : id < p.committed.pageCount := by
    rw [← UInt32.not_le]
    exact fun hle => hid (hc.written id hle hlt)
  exact h.stored.page_le h.size_eq hold

/-- A page that can be read and is not dirty lies whole in the file. -/
theorem Ready.covered_of_readable {p : Pager} {d : Disk} (h : Ready p d)
    (hr : ∀ id, (p.face d).Has id → ∃ page, p.view d id = .ok page) : p.Covered d := by
  intro id h0 hlt hid
  obtain ⟨page, hview⟩ := hr id ⟨h0, hlt⟩
  have hclean : p.dirty[id]? = none := Std.ExtTreeMap.getElem?_eq_none hid
  rw [view, if_pos (inRange_iff.2 ⟨h0, hlt⟩), hclean] at hview
  obtain ⟨-, hlen, -⟩ := fromFile_eq_ok hview
  exact offset_add_le hlen (Nat.le_trans (by decide) (pageSize_bounds h.size_mem).1) rfl

theorem Ready.commit {p : Pager} {d : Disk} (h : Ready p d) (hc : p.Committable)
    (hu : (Pager.commit.exec p d).2.1.poisoned = none) :
    Ready (Pager.commit.exec p d).2.1 (Pager.commit.exec p d).2.2 := by
  obtain ⟨log, hlog, hh, -, hexec⟩ := exec_commit h
  rw [hexec] at hu ⊢
  split
  · cases hcrash : p.crashPoint with
    | none => exact (h.published hlog hh hcrash (h.covered hc) hc.check).1
    | some point =>
        rw [if_pos ‹_›, hcrash] at hu
        cases hu
  · exact h

section

variable {p : Pager} {reason : String} {α : Type}

theorem exec_ensureUsable_poisoned (hp : p.poisoned = some reason) (d : Disk) :
    ∃ e, ensureUsable.exec p d = (.error e, p, d) := ⟨_, exec_ensureUsable_stopped hp d⟩

theorem exec_ensureWritable_poisoned (hp : p.poisoned = some reason) (d : Disk) :
    ∃ e, ensureWritable.exec p d = (.error e, p, d) := by
  rw [exec_ensureWritable_eq]
  split
  · exact ⟨_, rfl⟩
  · exact exec_ensureUsable_poisoned hp d

theorem exec_commit_poisoned (hp : p.poisoned = some reason) (d : Disk) :
    ∃ e, commit.exec p d = (.error e, p, d) := by
  obtain ⟨e, he⟩ := exec_ensureWritable_poisoned hp d
  exact ⟨e, exec_bind_error he⟩

/-- A program that begins with a guard leaves a poisoned pager alone. -/
theorem poisoned_guarded {guard : Action Pager Unit} (hp : p.poisoned = some reason) {d : Disk}
    (hg : ∃ e, guard.exec p d = (.error e, p, d)) (k : Unit → Action Pager α) :
    ((guard >>= k).exec p d).2.1.poisoned = some reason := by
  obtain ⟨e, he⟩ := hg
  rw [exec_bind_error he]
  exact hp

/-- A pager that must not be used any more stays so. -/
theorem Request.poisoned_serve (hp : p.poisoned = some reason) (d : Disk) (r : Request) :
    (r.serve p d).1.poisoned = some reason := by
  cases r with
  | read id => exact poisoned_guarded hp (exec_ensureUsable_poisoned hp d) _
  | write page => exact poisoned_guarded hp (exec_ensureWritable_poisoned hp d) _
  | allocate => exact poisoned_guarded hp (exec_ensureWritable_poisoned hp d) _
  | free id => exact poisoned_guarded hp (exec_ensureWritable_poisoned hp d) _
  | setRoot id => exact hp
  | adjustRecordCount delta => exact hp
  | beginOp => exact hp
  | endOp => exact hp
  | undoOp =>
      rw [serve, exec_undoOp]
      exact (same_takenBack p).poisoned.trans hp
  | setCacheCapacity pages => exact hp
  | commit => exact poisoned_guarded hp (exec_ensureWritable_poisoned hp d) _
  | rollback => exact hp

end

/-- **A request leaves a pager ready** unless it is a commit that was made to stop. -/
theorem Ready.serve {p : Pager} {d : Disk} (h : Ready p d) {r : Request} (hr : r.Proper p)
    (hu : (r.serve p d).1.poisoned = none) : Ready (r.serve p d).1 (r.serve p d).2 := by
  cases r with
  | read id => exact h.of_does (.read _ id)
  | write page => exact h.of_does (.write hr)
  | allocate => exact h.of_does (.allocate _)
  | free id => exact h.of_does (.free _ id)
  | setRoot id => exact h.setHeader rfl (UInt32.le_refl _)
  | adjustRecordCount delta => exact h.setHeader rfl (UInt32.le_refl _)
  | beginOp => exact h.begun
  | endOp => exact h.ended
  | undoOp =>
      rw [Request.serve, exec_undoOp]
      exact h.takenBack
  | setCacheCapacity pages => exact h.resize pages
  | commit => exact h.commit hr hu
  | rollback => exact h.rolledBack

theorem Reached.ready {p : Pager} {d : Disk} (h : Reached p d) (hu : p.poisoned = none) :
    Ready p d := by
  induction h with
  | opened hlive hapart ho hp h =>
      obtain ⟨-, -, -, -, hready⟩ := ready_of_open hlive hapart ho hp h
      exact hready
  | @served p d h r hr ih =>
      refine (ih ?_).serve hr hu
      cases hp : p.poisoned with
      | none => rfl
      | some reason =>
          rw [r.poisoned_serve hp d] at hu
          cases hu

/-! ## Crashes -/

/-- A pager shows a header, and for every page what is given. -/
def Exposes (p : Pager) (d : Disk) (h : Header) (pages : PageId → Except Error Page) : Prop :=
  p.header = h ∧ ∀ id, ((read id).exec p d).1 = pages id

theorem Ready.read_eq {p : Pager} {d : Disk} (h : Ready p d) (id : PageId) :
    ((read id).exec p d).1 = p.view d id := by
  obtain ⟨q, hexec, -⟩ := exec_read h id
  rw [hexec]

/-- Carrying out all changes is where a commit ends by itself, be it made to stop or not. -/
theorem Ready.disk_commit {p : Pager} {d : Disk} (h : Ready p d) :
    (Pager.commit.exec p d).2.2 = p.crashed p.effects.length 0 d := by
  obtain ⟨log, hlog, -, -, hexec⟩ := exec_commit h
  rw [crashed, hlog]
  dsimp only
  rw [FileEffect.cut_of_length_le (Nat.le_refl _), hexec, effects]
  split
  · cases p.crashPoint <;> rfl
  · rfl

/-- A commit that is made to stop is complete in the log, unless it stops before the mark. -/
theorem marked_of_stopped {p : Pager} (hch : p.hasChanges = true) {point : CrashPoint}
    (hc : p.crashPoint = some point) :
    p.Marked p.effects.length 0 ↔ point ≠ .beforeLogCommit := by
  by_cases hpoint : point = .beforeLogCommit
  · exact iff_of_false (not_marked_of_stopped hch (hpoint ▸ hc) _ _) fun hne => hne hpoint
  · refine iff_of_true ?_ hpoint
    refine marked_of_lt hch (fun hc' => hpoint (Option.some.inj (hc.symm.trans hc'))) ?_ 0
    have hlen : (p.logEntries.map FileEffect.append).length = p.logEntries.length :=
      List.length_map ..
    rw [effects, if_pos hch, commitEffects_eq, hc, if_neg (by simpa using hpoint),
      List.length_append, List.length_cons, hlen]
    omega

/-- **What a commit that is made to stop leaves behind**: the files show what they showed at the
last commit when the mark is missing, and otherwise what they were to show after this one. -/
theorem Ready.reopen_stopped {p : Pager} {d : Disk} (h : Ready p d) (hcov : p.Covered d)
    (hcheck : p.nextHeader.check = .ok p.nextHeader) (hch : p.hasChanges = true)
    {point : CrashPoint} (hc : p.crashPoint = some point) {o : Options} (ho : o.readOnly = false)
    (he : o.errorIfExists = false) :
    ∃ q d', («open» p.path o).exec () (p.release (Pager.commit.exec p d).2.2) = (.ok q, (), d') ∧
      Reopened p d (point ≠ .beforeLogCommit) o q d' := by
  obtain ⟨q, d', hopen, hq⟩ := h.reopens hcov hcheck ho he p.effects.length 0
  rw [h.disk_commit]
  exact ⟨q, d', hopen, hq.congr (marked_of_stopped hch hc).symm⟩

/-- **A commit happens as a whole or not at all.** When it is cut short after any number of changes
of the files and any number of bytes of the next one, a writer can open the file again. It finds
the log empty and shows the header and the pages from before the commit if the mark of completion
was not whole in the log, and otherwise those that were to be committed. A commit that was made to
stop ends at one of these moments. -/
theorem commit_all_or_nothing {p : Pager} {d : Disk} (hp : Reached p d) (hu : p.poisoned = none)
    (hc : p.Committable) {o : Options} (ho : o.readOnly = false) (he : o.errorIfExists = false) :
    (Pager.commit.exec p d).2.2 = p.crashed p.effects.length 0 d ∧
      ∀ n k, ∃ q d', («open» p.path o).exec () (p.release (p.crashed n k d)) = (.ok q, (), d') ∧
        (∃ log, q.log = some log ∧ d'.readAll log = []) ∧
        (¬ p.Marked n k →
          q.Exposes d' p.committed fun id => ((read id).exec p.rolledBack d).1) ∧
        (p.Marked n k → q.Exposes d' p.nextHeader fun id => ((read id).exec p d).1) := by
  have h := hp.ready hu
  refine ⟨h.disk_commit, fun n k => ?_⟩
  -- What can be read of the opened file is its view, and that is one of the two.
  obtain ⟨q, d', hopen, hq⟩ := h.reopens (h.covered hc) hc.check ho he n k
  obtain ⟨log, hd, -, hqeq⟩ := hq.alike
  refine ⟨q, d', hopen, ⟨log, by rw [hqeq]; rfl, hq.empty log (by rw [hqeq]; rfl)⟩, ?_, ?_⟩
  · intro hm
    obtain ⟨hheader, hview⟩ := hq.before hm
    refine ⟨hheader, fun id => ?_⟩
    rw [hq.ready.read_eq, hview]
    exact (h.rolledBack.read_eq id).symm
  · intro hm
    obtain ⟨hheader, hview⟩ := hq.after hm
    refine ⟨hheader, fun id => ?_⟩
    rw [hq.ready.read_eq, hview]
    exact (h.read_eq id).symm

/-! ## A first page -/

/-- A disk with an empty file and an empty log. -/
def emptyFiles : Disk :=
  ⟨[("a", 0), ("a.wal", 1)], #[⟨false, .empty, .free⟩, ⟨false, .empty, .free⟩]⟩

theorem find?_emptyFiles {name : String} {n : NodeId} (h : emptyFiles.find? name = some n) :
    name = "a" ∧ n = 0 ∨ name = "a.wal" ∧ n = 1 := by
  rw [Disk.find?, emptyFiles, List.lookup_cons, List.lookup_cons, List.lookup_nil] at h
  split at h
  · rename_i hn
    exact .inl ⟨eq_of_beq hn, (Option.some.inj h).symm⟩
  split at h
  · rename_i hn
    exact .inr ⟨eq_of_beq hn, (Option.some.inj h).symm⟩
  · cases h

theorem namesLive_emptyFiles : emptyFiles.NamesLive := by
  intro name n h
  rcases find?_emptyFiles h with ⟨-, rfl⟩ | ⟨-, rfl⟩ <;> decide

theorem namesApart_emptyFiles : emptyFiles.NamesApart := by
  intro name other n h h'
  rcases find?_emptyFiles h with ⟨rfl, rfl⟩ | ⟨rfl, rfl⟩ <;>
    rcases find?_emptyFiles h' with ⟨rfl, h0⟩ | ⟨rfl, h0⟩ <;> first | rfl | cases h0

theorem closed_emptyFiles : Closed "a" 0 1 emptyFiles :=
  ⟨rfl, rfl, by decide, by decide, by decide, rfl, rfl, rfl⟩

/-- The pager on the empty file. -/
def onEmptyFile : Pager := ofHeader "a" 0 (some 1) { pageSize := 512 } (Header.fresh 512)

/-- The pager after it has allocated a page and written it. -/
def withFirstPage : Pager :=
  { onEmptyFile with
    header := { onEmptyFile.header with pageCount := 2 }
    dirty := (∅ : PageMap).insert 1 (Page.make 1 512 .overflow []).sealed }

/-- The same with a page of any kind and with any payload. -/
def withPage (kind : PageKind) (payload : Bytes) : Pager :=
  { withFirstPage with dirty := (∅ : PageMap).insert 1 (Page.make 1 512 kind payload).sealed }

/-- Allocating a page and writing it leads from the one to the other. -/
theorem Reached.withPage {d : Disk} (h : Reached onEmptyFile d) (kind : PageKind)
    (payload : Bytes) : Reached (withPage kind payload) d :=
  (h.served .allocate trivial).served (.write (.make 1 512 kind payload))
    (Page.length_make (by decide) 1 kind payload)

theorem Reached.firstPage {d : Disk} (h : Reached onEmptyFile d) : Reached withFirstPage d :=
  h.withPage .overflow []

theorem reached_onEmptyFile : ∃ d, Reached onEmptyFile d := by
  obtain ⟨d, hopen⟩ := closed_emptyFiles.exec_open_empty (o := { pageSize := 512 }) rfl rfl rfl rfl
  exact ⟨d, .opened namesLive_emptyFiles namesApart_emptyFiles rfl (by decide) hopen⟩

theorem reached_withFirstPage : ∃ d, Reached withFirstPage d := by
  obtain ⟨d, hstart⟩ := reached_onEmptyFile
  exact ⟨d, hstart.firstPage⟩

theorem committable_withFirstPage : withFirstPage.Committable := by
  refine ⟨Header.check_eq_ok.2 ⟨rfl, by decide, by decide, by decide, by decide, by decide⟩, ?_⟩
  intro id hle hlt
  have hid : id = 1 := by
    rw [UInt32.le_iff_toNat_le] at hle
    rw [UInt32.lt_iff_toNat_lt] at hlt
    have h1 : (1 : Nat) ≤ id.toNat := hle
    have h2 : id.toNat < 2 := hlt
    exact UInt32.toNat_inj.1 (show id.toNat = 1 by omega)
  rw [hid, withFirstPage]
  exact Std.ExtTreeMap.mem_insert_self

theorem commit_all_or_nothing_first_page :
    ∃ d, Reached withFirstPage d ∧ withFirstPage.hasChanges = true ∧
      ∃ q d', («open» "a" {}).exec () (withFirstPage.release (withFirstPage.crashed 2 17 d)) =
        (.ok q, (), d') ∧ q.header = Header.fresh 512 := by
  obtain ⟨d, hd⟩ := reached_withFirstPage
  have hch : withFirstPage.hasChanges = true := Bool.or_eq_true_iff.2 (.inr (by decide))
  refine ⟨d, hd, hch, ?_⟩
  obtain ⟨q, d', hopen, -, hold, -⟩ :=
    (commit_all_or_nothing hd rfl committable_withFirstPage (o := {}) rfl rfl).2 2 17
  refine ⟨q, d', hopen, (hold (not_marked_of_lt hch ?_ 17)).1⟩
  have hsize : withFirstPage.dirty.size = 1 := by simp [withFirstPage, Std.ExtTreeMap.size_insert]
  simp [logEntries, dirtyPages, Std.ExtTreeMap.length_toList, hsize]

end PagedStore.Pager
