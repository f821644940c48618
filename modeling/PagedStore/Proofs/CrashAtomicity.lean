import PagedStore.Proofs.Opening

/-!
# Commits and crashes

A crash may stop a commit between any two of its changes of the files, and within a write after
any byte. As long as the mark that completes the transaction is not whole in the log, the main
file has not been touched, and opening the file again finds no transaction to carry out. From then
on it finds the transaction, which makes up for everything that the main file lacks, until the log
is emptied, when nothing is lacking any more. So a commit happens as a whole or not at all.
-/

set_option autoImplicit false

namespace PagedStore

open Bytes

/-! ## Stopping anywhere -/

namespace FileEffect

/-- Carries out a change up to its first `k` bytes. A log is emptied at once or not at all. -/
def performPart (file log : NodeId) (k : Nat) (d : Disk) : FileEffect → Disk
  | append entry => d.append log ((Log.frame entry.encode).take k)
  | write offset bytes => d.write file offset (bytes.take k)
  | clear => d

/-- Carries out the first `n` changes, and the next one up to its first `k` bytes. -/
def cut (file log : NodeId) (k : Nat) : (n : Nat) → List FileEffect → Disk → Disk
  | _, [], d => d
  | 0, e :: _, d => performPart file log k d e
  | n + 1, e :: es, d => cut file log k n es (perform file log d e)

variable {file log : NodeId} {k n : Nat}

theorem cut_of_length_le {es : List FileEffect} (h : es.length ≤ n) (d : Disk) :
    cut file log k n es d = performAll file log es d := by
  induction es generalizing n d with
  | nil => cases n <;> rfl
  | cons e es ih =>
      cases n with
      | zero => cases h
      | succ n => exact ih (Nat.le_of_succ_le_succ h) _

theorem cut_append_of_lt {es : List FileEffect} (h : n < es.length) (more : List FileEffect)
    (d : Disk) : cut file log k n (es ++ more) d = cut file log k n es d := by
  induction es generalizing n d with
  | nil => cases h
  | cons e es ih =>
      cases n with
      | zero => rfl
      | succ n => exact ih (Nat.lt_of_succ_lt_succ h) _

theorem cut_append_of_le {es : List FileEffect} (h : es.length ≤ n) (more : List FileEffect)
    (d : Disk) :
    cut file log k n (es ++ more) d =
      cut file log k (n - es.length) more (performAll file log es d) := by
  induction es generalizing n d with
  | nil => rfl
  | cons e es ih =>
      cases n with
      | zero => cases h
      | succ n =>
          rw [List.length_cons, Nat.add_sub_add_right]
          exact ih (Nat.le_of_succ_le_succ h) _

end FileEffect

namespace Became

variable {path : String} {file log : NodeId} {d d' : Disk} {main logged : Bytes}

/-- A cut sequence of entries leaves a front of them in the log. -/
theorem cut_append (h : Became file log d d' main logged) (hh : Pager.Held path file log d)
    (es : List Log.Entry) (n k : Nat) :
    ∃ j ≤ (es.flatMap fun e => Log.frame e.encode).length,
      Became file log d (FileEffect.cut file log k n (es.map .append) d') main
        (logged ++ (es.flatMap fun e => Log.frame e.encode).take j) := by
  induction es generalizing n d' logged with
  | nil =>
      refine ⟨0, Nat.le_refl 0, ?_⟩
      rw [List.take_zero, List.append_nil]
      cases n <;> exact h
  | cons e es ih =>
      rw [List.flatMap_cons, List.length_append]
      cases n with
      | zero =>
          refine ⟨min k (Log.frame e.encode).length, by omega, ?_⟩
          rw [List.take_append_of_le_length (Nat.min_le_right _ _), ← List.take_eq_take_min]
          exact h.append hh _
      | succ n =>
          obtain ⟨j, hj, hb⟩ := ih (h.append hh (Log.frame e.encode)) n
          refine ⟨(Log.frame e.encode).length + j, by omega, ?_⟩
          rw [List.take_length_add_append, ← List.append_assoc]
          exact hb

/-- A cut sequence of writes spares what it was not to change. -/
theorem cut_write (h : Became file log d d' main logged) (hh : Pager.Held path file log d)
    {ps : Nat} {ids : PageId → Prop} {xs : List (PageId × Bytes)}
    (hxs : ∀ x ∈ xs, ids x.1 ∧ x.2.length ≤ ps) (n k : Nat) :
    ∃ main', Pager.Spares ps ids main main' ∧
      Became file log d (FileEffect.cut file log k n (xs.map (.writeAt ps)) d') main' logged := by
  induction xs generalizing n d' main with
  | nil =>
      refine ⟨main, .refl ps ids main, ?_⟩
      cases n <;> exact h
  | cons x xs ih =>
      obtain ⟨hid, hlen⟩ := hxs x List.mem_cons_self
      cases n with
      | zero =>
          have hfront := (List.length_take_le' k x.2).trans hlen
          exact ⟨_, .patch hid hfront main, h.write hh _ _⟩
      | succ n =>
          obtain ⟨main', hs, hb⟩ := ih (h.write hh (Pager.offset ps x.1) x.2)
            (fun y hy => hxs y (List.mem_cons_of_mem _ hy)) n
          exact ⟨main', (Pager.Spares.patch hid hlen main).trans hs, hb⟩

end Became

namespace Pager

open PagedStore.Action

/-! ## What a crash leaves -/

/-- The changes of the files that a commit makes: none at all if there is nothing to commit. -/
def effects (p : Pager) : List FileEffect := if p.hasChanges then p.commitEffects else []

/-- Whether the mark that completes the transaction is whole in the log when the first `n` changes
of a commit have been made, and `k` bytes of the next one. -/
def Marked (p : Pager) (n k : Nat) : Prop :=
  .append p.commitMark ∈ p.effects.take n ∨
    p.effects[n]? = some (.append p.commitMark) ∧ (Log.frame p.commitMark.encode).length ≤ k

/-- No entry before the mark is one. -/
theorem not_mem_logEntries (p : Pager) :
    FileEffect.append p.commitMark ∉ p.logEntries.map .append := by
  intro h
  obtain ⟨e, he, heq⟩ := List.mem_map.1 h
  rw [← entries_transaction] at he
  refine Log.Transaction.not_isMark_of_mem he ?_
  rw [FileEffect.append.inj heq]
  trivial

theorem not_marked_of_unchanged {p : Pager} (hch : p.hasChanges = false) (n k : Nat) :
    ¬ p.Marked n k := by
  rw [Marked, effects, hch]
  simp

theorem not_marked_of_lt {p : Pager} {n : Nat} (hch : p.hasChanges = true)
    (hn : n < p.logEntries.length) (k : Nat) : ¬ p.Marked n k := by
  have hlen : n < (p.logEntries.map FileEffect.append).length := by rwa [List.length_map]
  rw [Marked, effects, if_pos hch, commitEffects_eq, List.take_append_of_le_length hlen.le,
    List.getElem?_append_left hlen]
  rintro (h | ⟨h, -⟩)
  · exact p.not_mem_logEntries (List.mem_of_mem_take h)
  · exact p.not_mem_logEntries (List.mem_of_getElem? h)

theorem not_marked_of_stopped {p : Pager} (hch : p.hasChanges = true)
    (hc : p.crashPoint = some .beforeLogCommit) (n k : Nat) : ¬ p.Marked n k := by
  rw [Marked, effects, if_pos hch, commitEffects_eq, if_pos hc, List.append_nil]
  rintro (h | ⟨h, -⟩)
  · exact p.not_mem_logEntries (List.mem_of_mem_take h)
  · exact p.not_mem_logEntries (List.mem_of_getElem? h)

theorem marked_at {p : Pager} (hch : p.hasChanges = true)
    (hc : p.crashPoint ≠ some .beforeLogCommit) (k : Nat) :
    p.Marked p.logEntries.length k ↔ (Log.frame p.commitMark.encode).length ≤ k := by
  have hlen : p.logEntries.length = (p.logEntries.map FileEffect.append).length :=
    (List.length_map ..).symm
  rw [Marked, effects, if_pos hch, commitEffects_eq, if_neg hc, hlen, List.take_left,
    List.getElem?_append_right (by omega), Nat.sub_self, List.getElem?_cons_zero,
    or_iff_right p.not_mem_logEntries]
  exact and_iff_right rfl

theorem marked_of_lt {p : Pager} (hch : p.hasChanges = true)
    (hc : p.crashPoint ≠ some .beforeLogCommit) {n : Nat} (hn : p.logEntries.length < n) (k : Nat) :
    p.Marked n k := by
  have hlen : (p.logEntries.map FileEffect.append).length = p.logEntries.length :=
    List.length_map ..
  refine .inl (List.mem_of_getElem? (i := p.logEntries.length) ?_)
  rw [List.getElem?_take_of_lt hn, effects, if_pos hch, commitEffects_eq, if_neg hc,
    List.getElem?_append_right hlen.le, hlen, Nat.sub_self, List.getElem?_cons_zero]

/-- The states of the two files once the mark is in the log. -/
theorem Ready.torn_main {p : Pager} {d d' : Disk} (h : Ready p d) {log : NodeId}
    (hh : Held p.path p.file log d) {logged : Bytes}
    (hb : Became p.file log d d' (d.readAll p.file) logged) (n k : Nat) :
    ∃ main,
      (Spares p.pageSize p.Changes (d.readAll p.file) main ∧
        Became p.file log d (FileEffect.cut p.file log k n (p.mainWrites.map (.writeAt p.pageSize) ++
          if p.crashPoint = none then [.clear] else []) d') main logged) ∨
      (Carried p (d.readAll p.file) main ∧
        Became p.file log d (FileEffect.cut p.file log k n (p.mainWrites.map (.writeAt p.pageSize) ++
          if p.crashPoint = none then [.clear] else []) d') main []) := by
  have hwrites : ∀ x ∈ p.mainWrites, p.Changes x.1 ∧ x.2.length ≤ p.pageSize :=
    fun x hx => h.tidy.mem_mainWrites hx
  rcases Nat.lt_or_ge n (p.mainWrites.map (FileEffect.writeAt p.pageSize)).length with hn | hn
  · rw [FileEffect.cut_append_of_lt hn]
    obtain ⟨main, hs, hm⟩ := hb.cut_write hh hwrites n k
    exact ⟨main, .inl ⟨hs, hm⟩⟩
  -- All writes are done; what is left is to empty the log.
  rw [FileEffect.cut_append_of_le hn]
  have hall := hb.performAll_write hh p.pageSize p.mainWrites
  have hspares := Spares.patchAll (fun x hx => (hwrites x hx).1) (fun x hx => (hwrites x hx).2)
    (d.readAll p.file)
  by_cases hc : p.crashPoint = none
  · rw [if_pos hc]
    cases n - (p.mainWrites.map (FileEffect.writeAt p.pageSize)).length with
    | zero => exact ⟨_, .inl ⟨hspares, hall⟩⟩
    | succ i =>
        refine ⟨_, .inr ⟨h.tidy.carried_mainWrites hc _, ?_⟩⟩
        cases i <;> exact hall.clear hh
  · rw [if_neg hc]
    refine ⟨_, .inl ⟨hspares, ?_⟩⟩
    cases n - (p.mainWrites.map (FileEffect.writeAt p.pageSize)).length <;> exact hall

/-- What a commit leaves in the files when `disk` is where the crash came: a proper front of the
log while there is no mark, and a main file that the log makes up for once there is one. -/
def Torn (p : Pager) (d : Disk) (log : NodeId) (marked : Prop) (disk : Disk) : Prop :=
  (¬ marked ∧ ∃ j < p.transaction.logged.length,
    Became p.file log d disk (d.readAll p.file) (p.transaction.logged.take j)) ∨
  (marked ∧ ∃ main,
    (Spares p.pageSize p.Changes (d.readAll p.file) main ∧
      Became p.file log d disk main p.transaction.logged) ∨
    (Carried p (d.readAll p.file) main ∧ Became p.file log d disk main []))

theorem length_loggedEntries_lt (p : Pager) :
    p.loggedEntries.length < p.transaction.logged.length := by
  have hpos : 0 < (Log.frame p.commitMark.encode).length :=
    List.length_pos_iff.2 (Log.Reader.frame_ne_nil p.commitMark.encode_ne_nil)
  rw [p.logged_transaction, List.length_append]
  omega

/-- A crash while the mark is written: the mark counts only when all of it is there. -/
theorem torn_at_mark {p : Pager} {d d' : Disk} {log : NodeId} (hh : Held p.path p.file log d)
    (hch : p.hasChanges = true) (hc : p.crashPoint ≠ some .beforeLogCommit)
    (hb : Became p.file log d d' (d.readAll p.file) p.loggedEntries) (k : Nat) :
    Torn p d log (p.Marked p.logEntries.length k)
      (d'.append log ((Log.frame p.commitMark.encode).take k)) := by
  have hlogged := p.logged_transaction
  have hb' := hb.append hh ((Log.frame p.commitMark.encode).take k)
  rcases Nat.lt_or_ge k (Log.frame p.commitMark.encode).length with hk | hk
  · refine .inl ⟨fun hm => ?_, p.loggedEntries.length + k, ?_, ?_⟩
    · exact Nat.not_le_of_lt hk ((marked_at hch hc k).1 hm)
    · rw [hlogged, List.length_append]
      omega
    · rw [hlogged, List.take_length_add_append]
      exact hb'
  · have hwhole : p.loggedEntries ++ (Log.frame p.commitMark.encode).take k =
        p.transaction.logged := by rw [List.take_of_length_le hk, hlogged]
    rw [hwhole] at hb'
    exact .inr ⟨(marked_at hch hc k).2 hk, _, .inl ⟨.refl .., hb'⟩⟩

/-- The states of the two files between the beginning and the end of a commit. -/
theorem Ready.torn {p : Pager} {d : Disk} (h : Ready p d) {log : NodeId}
    (hh : Held p.path p.file log d) (hempty : d.readAll log = []) (hch : p.hasChanges = true)
    (n k : Nat) :
    Torn p d log (p.Marked n k) (FileEffect.cut p.file log k n p.effects d) := by
  have hstart := Became.refl p.file log d
  rw [hempty] at hstart
  have hmap : (p.logEntries.map FileEffect.append).length = p.logEntries.length :=
    List.length_map ..
  rw [effects, if_pos hch, commitEffects_eq]
  rcases Nat.lt_or_ge n p.logEntries.length with hn | hn
  · -- The crash comes among the entries before the mark.
    rw [FileEffect.cut_append_of_lt (by rwa [hmap])]
    obtain ⟨j, hj, hb⟩ := hstart.cut_append hh p.logEntries n k
    have hj' : j ≤ p.loggedEntries.length := hj
    have hfront : p.transaction.logged.take j = p.loggedEntries.take j := by
      rw [p.logged_transaction, List.take_append_of_le_length hj']
    refine .inl ⟨not_marked_of_lt hch hn k, j, ?_, ?_⟩
    · exact Nat.lt_of_le_of_lt hj' p.length_loggedEntries_lt
    · rw [hfront]
      exact hb
  -- From here on all entries are in the log.
  rw [FileEffect.cut_append_of_le (by rwa [hmap])]
  have hentries := hstart.performAll_append hh p.logEntries
  by_cases hc : p.crashPoint = some .beforeLogCommit
  · refine .inl ⟨not_marked_of_stopped hch hc n k, _, p.length_loggedEntries_lt, ?_⟩
    rw [if_pos hc, p.logged_transaction, List.take_left]
    cases n - (p.logEntries.map FileEffect.append).length <;> exact hentries
  rw [if_neg hc, hmap]
  obtain ⟨i, rfl⟩ := Nat.exists_eq_add_of_le hn
  rw [Nat.add_sub_cancel_left]
  cases i with
  | zero => exact torn_at_mark hh hch hc hentries k
  | succ i =>
      -- The mark is in the log as well, and what is cut short is the work on the main file.
      refine .inr ⟨marked_of_lt hch hc (by omega) k, ?_⟩
      rw [p.logged_transaction]
      exact h.torn_main hh (hentries.append hh (Log.frame p.commitMark.encode)) i k

/-! ## Opening after a crash -/

theorem fromFile_of_contents {file : NodeId} {d d' : Disk} (h : d'.readAll file = d.readAll file)
    (pageSize : Nat) : fromFile file pageSize d' = fromFile file pageSize d := by
  funext id
  rw [fromFile, fromFile, fileImage, fileImage, h]

/-- A pager that has just been opened shows the pages of the main file. -/
theorem view_ofHeader (path : String) (file : NodeId) (log : Option NodeId) (o : Options)
    (h : Header) (d : Disk) (id : PageId) :
    (ofHeader path file log o h).view d id =
      if id != 0 && id < h.pageCount then fromFile file h.pageSize.toNat d id
      else .error (.corrupt s!"page {id} out of range") := by
  rw [view]
  rfl

theorem view_rolledBack (p : Pager) (d : Disk) (id : PageId) :
    p.rolledBack.view d id =
      if id != 0 && id < p.committed.pageCount then fromFile p.file p.pageSize d id
      else .error (.corrupt s!"page {id} out of range") := by
  rw [view]
  rfl

/-- The disk when a commit is cut short after `n` changes of the files and `k` bytes of the next
one. -/
def crashed (p : Pager) (n k : Nat) (d : Disk) : Disk :=
  match p.log with
  | none => d
  | some log => FileEffect.cut p.file log k n p.effects d

variable {p : Pager} {d : Disk}

/-- Where there is nothing to commit, nothing happens to the files. -/
theorem crashed_of_unchanged (h : p.hasChanges = false) (n k : Nat) (d : Disk) :
    p.crashed n k d = d := by
  rw [crashed, effects, h]
  cases p.log <;> cases n <;> rfl

/-- Without changes a rollback takes nothing back. -/
theorem rolledBack_of_unchanged (hc : p.hasChanges = false) (d : Disk) :
    p.committed = p.header ∧ p.rolledBack.view d = p.view d := by
  rw [hasChanges, Bool.or_eq_false_iff, Bool.not_eq_false', bne_eq_false_iff_eq] at hc
  obtain ⟨hdirty, hheader⟩ := hc
  refine ⟨hheader.symm, ?_⟩
  have hempty : p.dirty = ∅ := Std.ExtTreeMap.isEmpty_iff.1 hdirty
  funext id
  rw [view_rolledBack, view, hempty, inRange, hheader]
  rfl

/-- What a file that carries all of a commit shows of a page. -/
theorem Carried.view_at {d' : Disk} {path : String} {log : Option NodeId} {o : Options}
    (hc : Carried p (d.readAll p.file) (d'.readAll p.file)) (h : Ready p d) {id : PageId}
    (hid : p.CoveredAt d id) :
    (ofHeader path p.file log o p.nextHeader).view d' id = p.view d id := by
  rw [view_ofHeader]
  have hps : p.nextHeader.pageSize.toNat = p.pageSize := h.current.size_eq
  rw [hps]
  by_cases hr : p.inRange id = true
  · rw [← hc.fromFile_eq h.tidy hid (inRange_iff.1 hr).1 (inRange_iff.1 hr).2]
    exact if_pos hr
  · rw [view, if_neg hr]
    exact if_neg hr

/-- What it shows. -/
theorem Carried.view_eq {d' : Disk} {path : String} {log : Option NodeId} {o : Options}
    (hc : Carried p (d.readAll p.file) (d'.readAll p.file)) (h : Ready p d) (hcov : p.Covered d) :
    (ofHeader path p.file log o p.nextHeader).view d' = p.view d :=
  funext fun id => hc.view_at h (hcov id)

/-- Opening the files that a crash has left, when carrying out the log makes up for it. -/
theorem exec_open_crashed (hd : Header) {log : NodeId} (hh : Held p.path p.file log d)
    {o : Options} (ho : o.readOnly = false) (he : o.errorIfExists = false) {d' : Disk}
    {main logged main' : Bytes} (hb : Became p.file log d d' main logged)
    (hreplay : ∀ d₁, p.file < d₁.nodes.size → d₁.readAll p.file = main →
      ∃ d₂, (replay p.file (Log.recover logged).committed).exec () d₁ = (.ok (), (), d₂) ∧
        d₂.readAll p.file = main' ∧ Stored p.file hd d₂) :
    ∃ d₂, («open» p.path o).exec () (p.release d') =
        (.ok (ofHeader p.path p.file (some log) o hd), (), d₂) ∧
      Ready (ofHeader p.path p.file (some log) o hd) d₂ ∧ d₂.readAll p.file = main' ∧
      d₂.readAll log = [] := by
  have hheld := hh.of_shape hb.shape
  have hsame : ∀ m, (p.release d').readAll m = d'.readAll m :=
    readAll_modify hheld.live fun _ => rfl
  refine hheld.closed.exec_open ho he ?_
  show ∀ d₁, _ → d₁.readAll p.file = (p.release d').readAll p.file →
    ∃ d₂, (replay p.file (Log.recover ((p.release d').readAll log)).committed).exec () d₁ = _ ∧ _
  rw [hsame, hsame, hb.log, hb.file]
  exact hreplay

/-- The two ways in which a file may be found again after the commit of `p` on the disk `d`. -/
structure Reopened (p : Pager) (d : Disk) (marked : Prop) (o : Options) (q : Pager) (d' : Disk) :
    Prop where
  ready : Ready q d'
  alike : ∃ log hd, p.log = some log ∧ q = ofHeader p.path p.file (some log) o hd
  empty : ∀ log, q.log = some log → d'.readAll log = []
  before : ¬ marked → q.header = p.committed ∧ q.view d' = p.rolledBack.view d
  after : marked → q.header = p.nextHeader ∧ q.view d' = p.view d

theorem Reopened.congr {marked marked' : Prop} {o : Options} {q : Pager} {d' : Disk}
    (h : Reopened p d marked o q d') (hiff : marked' ↔ marked) : Reopened p d marked' o q d' where
  ready := h.ready
  alike := h.alike
  empty := h.empty
  before hm := h.before fun hm' => hm (hiff.2 hm')
  after hm := h.after (hiff.1 hm)

/-- While nothing of the transaction is found the main file is as it was before the commit. -/
theorem Ready.reopens_before (h : Ready p d) {marked : Prop} (hm : ¬ marked) {log : NodeId}
    (hlog : p.log = some log) (hh : Held p.path p.file log d) {o : Options}
    (ho : o.readOnly = false) (he : o.errorIfExists = false) {d' : Disk} {logged : Bytes}
    (hb : Became p.file log d d' (d.readAll p.file) logged)
    (hnone : (Log.recover logged).committed = []) :
    ∃ q d₂, («open» p.path o).exec () (p.release d') = (.ok q, (), d₂) ∧
      Reopened p d marked o q d₂ := by
  obtain ⟨d₂, hexec, hready, hmain, hempty⟩ := exec_open_crashed p.committed hh ho he hb
    fun d₁ _ hd₁ => ⟨d₁, by rw [hnone]; rfl, hd₁, h.stored.of_contents hd₁⟩
  refine ⟨_, d₂, hexec, hready, ⟨log, _, hlog, rfl⟩, ?_, fun _ => ⟨rfl, ?_⟩,
    fun hm' => absurd hm' hm⟩
  · rintro _ ⟨⟩
    exact hempty
  · funext id
    rw [view_ofHeader, view_rolledBack, h.size_eq, fromFile_of_contents hmain]

/-- When carrying out the log completes the commit, the file shows what the pager showed. -/
theorem Ready.reopens_after (h : Ready p d) (hcov : p.Covered d)
    (hcheck : p.nextHeader.check = .ok p.nextHeader) {marked : Prop} (hm : marked) {log : NodeId}
    (hlog : p.log = some log) (hh : Held p.path p.file log d) {o : Options}
    (ho : o.readOnly = false) (he : o.errorIfExists = false) {d' : Disk}
    {main logged main' : Bytes} (hb : Became p.file log d d' main logged)
    (hcar : Carried p (d.readAll p.file) main')
    (hreplay : ∀ d₁, p.file < d₁.nodes.size → d₁.readAll p.file = main →
      ∃ d₂, (replay p.file (Log.recover logged).committed).exec () d₁ = (.ok (), (), d₂) ∧
        d₂.readAll p.file = main') :
    ∃ q d₂, («open» p.path o).exec () (p.release d') = (.ok q, (), d₂) ∧
      Reopened p d marked o q d₂ := by
  obtain ⟨d₂, hexec, hready, hmain, hempty⟩ := exec_open_crashed p.nextHeader hh ho he hb
    fun d₁ hlt hd₁ => by
      obtain ⟨d₂, hexec, hmain⟩ := hreplay d₁ hlt hd₁
      have hcar₂ : Carried p (d.readAll p.file) (d₂.readAll p.file) := by
        rw [hmain]
        exact hcar
      exact ⟨d₂, hexec, hmain, hcar₂.stored h.tidy hcov hcheck⟩
  refine ⟨_, d₂, hexec, hready, ⟨log, _, hlog, rfl⟩, ?_, fun hm' => absurd hm hm',
    fun _ => ⟨rfl, ?_⟩⟩
  · rintro _ ⟨⟩
    exact hempty
  · have hcar₂ : Carried p (d.readAll p.file) (d₂.readAll p.file) := by
      rw [hmain]
      exact hcar
    exact hcar₂.view_eq h hcov

/-- **A file that was given back between two commits can be opened again**, and shows what was
committed. -/
theorem Ready.reopen (h : Ready p d) {o : Options} (ho : o.readOnly = false)
    (he : o.errorIfExists = false) :
    ∃ q d', («open» p.path o).exec () (p.release d) = (.ok q, (), d') ∧
      Reopened p d False o q d' := by
  obtain ⟨log, hlog, hh, hempty⟩ := h.held
  -- The log is empty between two commits, so opening has nothing to carry out.
  have hstart := Became.refl p.file log d
  rw [hempty] at hstart
  exact h.reopens_before not_false hlog hh ho he hstart Log.recover_nil

/-- In a whole log the commit is found. -/
theorem Tidy.recover_logged (h : p.Tidy) :
    (Log.recover p.transaction.logged).committed = [p.transaction] := by
  have htake := Log.committed_recover_take h.loggable p.transaction.logged.length
  rwa [List.take_length, if_pos (Nat.le_refl _)] at htake

/-- Recovery carries out what it finds in a whole log. -/
theorem Ready.exec_replay_logged (h : Ready p d)
    (hcheck : p.nextHeader.check = .ok p.nextHeader) {d₁ : Disk} (hlt : p.file < d₁.nodes.size) :
    ∃ d₂, (replay p.file (Log.recover p.transaction.logged).committed).exec () d₁ =
        (.ok (), (), d₂) ∧
      d₂.readAll p.file = patch 0 p.nextHeader.encode
        (patchAll p.pageSize p.transaction.pages (d₁.readAll p.file)) := by
  have hps : p.nextHeader.pageSize.toNat = p.pageSize := h.current.size_eq
  have hdecode : Header.decode p.transaction.header = .ok p.nextHeader := by
    rw [h.tidy.decode_transaction, hcheck]
  have hlen : ∀ x ∈ p.transaction.pages, x.2.length = p.nextHeader.pageSize.toNat := by
    rw [hps]
    exact h.tidy.transaction_writable.length_eq
  obtain ⟨d₂, hexec, hmain⟩ := exec_replay_single hdecode hlen d₁ hlt
  rw [hps] at hmain
  exact ⟨d₂, by rw [h.tidy.recover_logged]; exact hexec, hmain⟩

/-- **A file can be opened after any crash**, and shows what was there before the commit or what
the commit was to make of it. -/
theorem Ready.reopens (h : Ready p d) (hcov : p.Covered d)
    (hcheck : p.nextHeader.check = .ok p.nextHeader) {o : Options} (ho : o.readOnly = false)
    (he : o.errorIfExists = false) (n k : Nat) :
    ∃ q d', («open» p.path o).exec () (p.release (p.crashed n k d)) = (.ok q, (), d') ∧
      Reopened p d (p.Marked n k) o q d' := by
  obtain ⟨log, hlog, hh, hempty⟩ := h.held
  have hcrash : p.crashed n k d = FileEffect.cut p.file log k n p.effects d := by
    rw [crashed, hlog]
  rw [hcrash]
  cases hch : p.hasChanges with
  | false =>
      -- There is nothing to commit, so nothing has happened to the files.
      have hcut : FileEffect.cut p.file log k n p.effects d = d := by
        rw [effects, hch]
        cases n <;> rfl
      rw [hcut]
      have hstart := Became.refl p.file log d
      rw [hempty] at hstart
      exact h.reopens_before (not_marked_of_unchanged hch n k) hlog hh ho he hstart Log.recover_nil
  | true =>
      rcases h.torn hh hempty hch n k with ⟨hm, j, hj, hb⟩ | ⟨hm, main, ⟨hs, hb⟩ | ⟨hcar, hb⟩⟩
      · -- A front of the log holds no transaction.
        refine h.reopens_before hm hlog hh ho he hb ?_
        rw [Log.committed_recover_take h.tidy.loggable, if_neg (Nat.not_le_of_lt hj)]
      · -- The log is whole, and what it holds covers all pages that were written in part.
        refine h.reopens_after hcov hcheck hm hlog hh ho he hb (h.tidy.carried hs) fun d₁ hlt hd₁ => ?_
        obtain ⟨d₂, hexec, hmain⟩ := h.exec_replay_logged hcheck hlt
        exact ⟨d₂, hexec, by rw [hmain, hd₁]⟩
      · -- The log was emptied after the main file was complete.
        refine h.reopens_after hcov hcheck hm hlog hh ho he hb hcar fun d₁ _ hd₁ => ?_
        exact ⟨d₁, by rw [Log.recover_nil]; rfl, hd₁⟩

end Pager

end PagedStore
