import PagedStore.Proofs.CarefulLives
import PagedStore.Proofs.CrashedReaders

/-!
# Opening a file after a commit

A commit that reports success leaves a file that can be opened again, and shows what the pager
showed, if the last page that the header counts is there: it was written since the last commit or
lies whole in the file. The header counts a page from its allocation on, while the file grows only
when a page is written. So a commit of pages that were allocated and never written succeeds, and
yet the file cannot be opened any more.
-/

set_option autoImplicit false

namespace PagedStore.Pager

open PagedStore.Action Bytes

/-! ## Opening a file with an empty log -/

/-- The header at the front of a main file, provided that the file is long enough for it. -/
def headerOf (main : Bytes) : Except Error Header :=
  match Header.decode (main.take Header.encodedLength) with
  | .error e => .error e
  | .ok h =>
      let needed := h.pageCount.toNat * h.pageSize.toNat
      if main.length < needed then
        .error (.corrupt s!"file holds {main.length} bytes but the header describes {needed}")
      else .ok h

section

variable {path : String} {file log : NodeId} {d : Disk} {o : Options}

theorem exec_openHeader_eq (hplain : (d.node file).isFolder = false)
    (hlen : Header.encodedLength ≤ (d.readAll file).length) :
    (openHeader file o).exec () d = (headerOf (d.readAll file), (), d) := by
  have hsize : (d.node file).contents.size ≠ 0 :=
    Nat.ne_of_gt (Nat.lt_of_lt_of_le (by decide) hlen)
  have hread : d.read file 0 Header.encodedLength = (d.readAll file).take Header.encodedLength :=
    Disk.read_eq_slice ..
  have hfront : ¬ ((d.readAll file).take Header.encodedLength).length < Header.encodedLength := by
    rw [List.length_take]
    omega
  rw [openHeader, exec_bind, exec_disk]
  simp only [decide_eq_false hsize, Bool.false_and, Bool.false_eq_true, if_false]
  rw [readHeader, exec_bind, exec_disk]
  simp only [hplain, hread, Bool.false_eq_true, if_false, if_neg hfront, headerOf]
  cases Header.decode ((d.readAll file).take Header.encodedLength) with
  | error e => rfl
  | ok h =>
      have hlength : d.size file = (d.readAll file).length := rfl
      rw [exec_bind, exec_ofResult]
      dsimp only
      rw [hlength]
      split <;> rfl

theorem readAll_unlock (d : Disk) (n m : NodeId) : (d.unlock n).readAll m = d.readAll m := by
  simp only [Disk.unlock, Disk.modify, Disk.readAll, Disk.node, Array.getD_eq_getD_getElem?,
    Array.getElem?_modify]
  split <;> cases d.nodes[m]? <;> rfl

/-- What is opened is what comes of opening the locked file, which is unlocked again on failure. -/
theorem exec_open_of_locked {d₁ d₂ : Disk} {r : Except Error Pager}
    (hfile : (openFile path o).exec () d = (.ok file, (), d₁))
    (hlocked : (openLocked path file o).exec () d₁ = (r, (), d₂)) :
    ∃ d', («open» path o).exec () d = (r, (), d') ∧ ∀ n, d'.readAll n = d₂.readAll n := by
  rw [«open», exec_bind_ok hfile, exec_bind, exec_attempt, hlocked]
  cases r with
  | ok p => exact ⟨d₂, rfl, fun _ => rfl⟩
  | error e => exact ⟨d₂.unlock file, rfl, readAll_unlock d₂ file⟩

/-- **Opening a file whose log is empty** gives what the header in the main file says, to a writer
and to a reader. -/
theorem Closed.exec_open_eq (h : Closed path file log d) (he : o.errorIfExists = false)
    (hempty : d.readAll log = []) (hlen : Header.encodedLength ≤ (d.readAll file).length) :
    ∃ l d', («open» path o).exec () d =
        ((headerOf (d.readAll file)).map (ofHeader path file l o), (), d') ∧
      d'.readAll file = d.readAll file := by
  cases ho : o.readOnly with
  | false =>
      obtain ⟨d₁, hfile, hheld, hsame⟩ := h.exec_openFile ho he
      have hb := (Became.refl file log d₁).clear hheld
      have hheld' := hheld.of_shape hb.shape
      have hmain : (d₁.truncate log 0).readAll file = d.readAll file := hb.file.trans (hsame file)
      have hheader := exec_openHeader_eq (o := o) hheld'.plain (by rwa [hmain])
      have hlocked : (openLocked path file o).exec () d₁ =
          ((headerOf (d.readAll file)).map (ofHeader path file (some log) o), (),
            d₁.truncate log 0) := by
        have hnothing : (replay file (Log.recover (d₁.readAll log)).committed).exec () d₁ =
            (.ok (), (), d₁) := by
          rw [hsame, hempty, Log.recover_nil]
          rfl
        rw [openLocked, exec_bind, exec_disk]
        dsimp only
        rw [hheld.recoverFile, exec_bind, exec_ofResult]
        dsimp only
        rw [ho, if_neg (by simp), exec_bind_ok hnothing, exec_bind_ok (exec_openLog hheld)]
        rw [hmain] at hheader
        exact exec_bind_pure hheader _
      obtain ⟨d', hopen, hkept⟩ := exec_open_of_locked hfile hlocked
      exact ⟨some log, d', hopen, (hkept file).trans hmain⟩
  | true =>
      obtain ⟨d₁, hfile, hplain, hlog, hsame⟩ := h.exec_openFile_reader ho he
      have hheader := exec_openHeader_eq (o := o) hplain (by rwa [hsame])
      have hlocked : (openLocked path file o).exec () d₁ =
          ((headerOf (d.readAll file)).map (ofHeader path file none o), (), d₁) := by
        rw [openLocked, exec_bind, exec_disk]
        dsimp only
        rw [hlog, exec_bind, exec_ofResult]
        dsimp only
        rw [ho, if_pos rfl, exec_bind, hheader, hsame, hempty, Log.recover_nil]
        cases headerOf (d.readAll file) <;> rfl
      obtain ⟨d', hopen, hkept⟩ := exec_open_of_locked hfile hlocked
      exact ⟨none, d', hopen, (hkept file).trans (hsame file)⟩

end

/-! ## What a commit leaves -/

/-- The last page that the header counts is there: it is dirty, or lies whole in the main file. -/
def Whole (p : Pager) (d : Disk) : Prop := p.CoveredAt d (p.header.pageCount - 1)

section

variable {p q : Pager} {d e : Disk}

/-- A page that can be read is dirty or lies whole in the file. -/
theorem Tidy.coveredAt (h : p.Tidy) {id : PageId} {page : Page} (hpage : p.view d id = .ok page) :
    p.CoveredAt d id := by
  intro h0 hlt hid
  rw [view, if_pos (inRange_iff.2 ⟨h0, hlt⟩), Std.ExtTreeMap.getElem?_eq_none hid] at hpage
  obtain ⟨-, hlen, -⟩ := fromFile_eq_ok hpage
  exact offset_add_le hlen h.transaction_writable.pos rfl

theorem length_patchAll_le_iff {ps m : Nat} (hps : 0 < ps) {pages : List (PageId × Bytes)}
    (hlen : ∀ x ∈ pages, x.2.length = ps) (bs : Bytes) :
    (patchAll ps pages bs).length ≤ m ↔
      bs.length ≤ m ∧ ∀ x ∈ pages, offset ps x.1 + ps ≤ m := by
  induction pages generalizing bs with
  | nil => simp [patchAll]
  | cons x pages ih =>
      have hx := hlen x List.mem_cons_self
      have hne : x.2 ≠ [] := List.ne_nil_of_length_pos (by omega)
      have hcons : patchAll ps (x :: pages) bs =
          patchAll ps pages (patch (offset ps x.1) x.2 bs) := rfl
      rw [hcons, ih (fun y hy => hlen y (List.mem_cons_of_mem _ hy)), length_patch hne, hx,
        Nat.max_le, List.forall_mem_cons, and_assoc]

/-- The main file after a commit is just as long as what was there, the header page and the dirty
pages make necessary. -/
structure Reaches (p : Pager) (old new : Bytes) : Prop where
  le_iff : ∀ m, new.length ≤ m ↔ old.length ≤ m ∧ p.pageSize ≤ m ∧
    ∀ id ∈ p.dirty, offset p.pageSize id + p.pageSize ≤ m

theorem Tidy.reaches (h : p.Tidy) (hc : p.crashPoint = none) (old : Bytes) :
    Reaches p old (patchAll p.pageSize p.mainWrites old) where
  le_iff m := by
    have hw := h.transaction_writable
    have hmain : p.mainWrites = p.transaction.pages ++ [(0, p.nextHeader.encode)] := by
      rw [mainWrites, hc]
    rw [length_patchAll_le_iff hw.pos, hmain, List.forall_mem_append, List.forall_mem_singleton,
      offset_zero, Nat.zero_add]
    · refine and_congr_right fun _ => and_comm.trans (and_congr_right fun _ => ?_)
      constructor
      · intro hall id hid
        obtain ⟨page, hpage⟩ := PageMap.mem_iff.1 hid
        exact hall (id, page.image) (h.mem_transaction.2 (by
          obtain ⟨rfl, -⟩ := h.current.sound id page hpage
          exact hpage))
      · exact fun hall x hx => hall x.1 (PageMap.mem_iff.2 ⟨_, h.mem_transaction.1 hx⟩)
    · intro x hx
      rcases List.mem_append.1 (hmain ▸ hx) with hx | hx
      · exact hw.length_eq x hx
      · rw [List.mem_singleton.1 hx]
        exact h.length_nextHeader

/-- **The file is long enough after a commit exactly if the last page is there.** -/
theorem Reaches.whole_iff {new : Bytes} (h : Reaches p (d.readAll p.file) new)
    (hps : 0 < p.pageSize) (hcount : p.header.pageCount ≠ 0)
    (hdirty : ∀ id ∈ p.dirty, id < p.header.pageCount) :
    p.Whole d ↔ p.header.pageCount.toNat * p.pageSize ≤ new.length := by
  have hpos : 0 < p.header.pageCount.toNat :=
    Nat.pos_of_ne_zero fun h0 => hcount (UInt32.toNat_inj.1 h0)
  have hlast : (p.header.pageCount - 1).toNat = p.header.pageCount.toNat - 1 := by
    refine UInt32.toNat_sub_of_le _ _ (UInt32.le_iff_toNat_le.2 ?_)
    exact hpos
  obtain ⟨hold, hroom, hpages⟩ := (h.le_iff _).1 (Nat.le_refl new.length)
  have hend : offset p.pageSize (p.header.pageCount - 1) + p.pageSize =
      p.header.pageCount.toNat * p.pageSize := by
    rw [offset, hlast, ← Nat.succ_mul]
    congr 1
    omega
  rw [← hend]
  constructor
  · intro hw
    by_cases h0 : p.header.pageCount - 1 = 0
    · rw [h0, offset_zero]
      omega
    by_cases hd : p.header.pageCount - 1 ∈ p.dirty
    · exact hpages _ hd
    · refine Nat.le_trans (hw h0 ?_ hd) hold
      rw [UInt32.lt_iff_toNat_lt, hlast]
      omega
  · -- Were the last page not there, everything that is would end before it does.
    intro hlong h0 hlt hd
    by_contra hshort
    have hone : (p.header.pageCount - 1).toNat ≠ 0 := fun hz => h0 (UInt32.toNat_inj.1 hz)
    have hsecond : p.pageSize ≤ offset p.pageSize (p.header.pageCount - 1) :=
      Nat.le_mul_of_pos_left _ (Nat.pos_of_ne_zero hone)
    have hbound := (h.le_iff (offset p.pageSize (p.header.pageCount - 1) + p.pageSize - 1)).2
      ⟨by omega, by omega, fun id hid => ?_⟩
    · omega
    · have hne : id ≠ p.header.pageCount - 1 := by
        rintro rfl
        exact hd hid
      have hid' := UInt32.lt_iff_toNat_lt.1 (hdirty id hid)
      rcases offset_apart p.pageSize hne with hapart | hapart
      · omega
      · rw [offset, offset, ← Nat.succ_mul] at hapart
        have hle := Nat.le_of_mul_le_mul_right hapart hps
        omega

/-- What a commit leaves that reports success. -/
structure Saved (p : Pager) (d : Disk) (q : Pager) (e : Disk) (log : NodeId) : Prop where
  tidy : p.Tidy
  writer : Writer q e log
  mirrors : Mirrors q e
  writable : q.log = some log
  usable : q.poisoned = none
  settled : Settled q e log
  clean : q.dirty = ∅
  header : q.committed = q.header
  path : q.path = p.path
  pageSize : q.pageSize = p.pageSize
  renumbered : ∃ txn, q.header = { p.header with lastTxn := txn }
  reaches : Reaches p (d.readAll p.file) (e.readAll q.file)
  kept : ∀ id page, p.view d id = .ok page → q.view e id = .ok page

/-- Only a writer that can be used is allowed to make changes. -/
theorem writable_of_guard (h : ensureWritable.exec p d = (.ok (), q, e)) :
    p.poisoned = none ∧ ∃ log, p.log = some log := by
  rw [exec_ensureWritable_eq, readOnly] at h
  cases hlog : p.log with
  | none =>
      rw [hlog] at h
      cases h
  | some log =>
      cases hu : p.poisoned with
      | some reason =>
          rw [hlog, exec_ensureUsable_stopped hu] at h
          cases h
      | none => exact ⟨rfl, log, rfl⟩

theorem writable_of_commit_ok (h : Pager.commit.exec p d = (.ok (), q, e)) :
    p.poisoned = none ∧ ∃ log, p.log = some log := by
  rw [commit] at h
  obtain ⟨⟨⟩, p', d', hguard, -⟩ := of_exec_bind_ok h
  exact writable_of_guard hguard

theorem Life.after_commit {allowed : Pager → Disk → Call → Prop} (h : Life allowed p d)
    (hc : allowed p d (.request .commit)) {r : Except Error Unit}
    (hcommit : Pager.commit.exec p d = (r, q, e)) : Life allowed q e := by
  have hlife := h.called (.request .commit) hc
  have hserve : (Call.request .commit).serve p d = (Pager.commit.exec p d).2 := rfl
  rwa [hserve, hcommit] at hlife

/-- What a commit leaves that succeeds between two calls. -/
theorem Coherent.saved (h : Coherent p d)
    (hs : ∀ log, p.poisoned = none → p.log = some log → Settled p d log)
    (hcommit : Pager.commit.exec p d = (.ok (), q, e)) : ∃ log, Saved p d q e log := by
  obtain ⟨hu, log, hlog⟩ := writable_of_commit_ok hcommit
  have hw := h.writer hu log hlog
  have hout := commitOutcome p d
  rw [hcommit] at hout
  refine ⟨log, ?_⟩
  cases hout with
  | unchanged hch =>
      obtain ⟨hempty, hheader⟩ := Bool.or_eq_false_iff.1 hch
      have hclean : p.dirty = ∅ := by
        rw [← Std.ExtTreeMap.isEmpty_iff]
        simpa using hempty
      have hsettled := hs log hu hlog
      refine ⟨hw.tidy, hw, h.mirrors hu, hlog, hu, hsettled, hclean, ?_, rfl, rfl, ⟨_, rfl⟩,
        ⟨fun m => ?_⟩, fun _ _ hp => hp⟩
      · exact (by simpa using hheader : p.header = p.committed).symm
      · have hroom := hsettled.room
        simp only [hclean, Std.ExtTreeMap.not_mem_empty, false_imp_iff, implies_true, and_true]
        omega
  | published hlog' hcrash =>
      obtain rfl := Option.some.inj (hlog'.symm.trans hlog)
      have hafter : Coherent (Pager.commit.exec p d).2.1 (Pager.commit.exec p d).2.2 :=
        h.of_blind .commit
      rw [hcommit] at hafter
      refine ⟨hw.tidy, hafter.writer hu _ hlog, hafter.mirrors hu, hlog, hu,
        hw.settled_published hcrash, rfl, rfl, rfl, rfl, ⟨_, rfl⟩, ?_,
        fun _ _ => hw.view_published hcrash⟩
      have hreaches := hw.tidy.reaches hcrash (d.readAll p.file)
      rwa [← (hw.held.became hcrash).file] at hreaches

theorem Life.saved (h : Life Call.Sized p d) (hcommit : Pager.commit.exec p d = (.ok (), q, e)) :
    ∃ log, Saved p d q e log :=
  h.coherent.saved (fun _ hu hlog => h.settled hu hlog) hcommit

/-- In a careful life the header that a commit leaves is one that a file can have. -/
theorem Life.check_saved (h : Life Call.Careful p d)
    (hcommit : Pager.commit.exec p d = (.ok (), q, e)) : q.header.check = .ok q.header := by
  obtain ⟨log, hsaved⟩ := h.sized.saved hcommit
  exact (h.after_commit trivial hcommit).check hsaved.usable hsaved.writable

/-! ## Opening it again -/

namespace Saved

variable {log : NodeId} {o : Options}

theorem pageCount (h : Saved p d q e log) : q.header.pageCount = p.header.pageCount := by
  obtain ⟨txn, hheader⟩ := h.renumbered
  rw [hheader]

theorem encodedLength_le (h : Saved p d q e log) :
    Header.encodedLength ≤ (e.readAll q.file).length :=
  Nat.le_trans (Nat.le_trans (by decide) (pageSize_bounds h.writer.tidy.size_mem).1) h.settled.room

/-- What comes of opening the file again. -/
theorem exec_open (h : Saved p d q e log) (he : o.errorIfExists = false) :
    ∃ l d', («open» p.path o).exec () (q.release e) =
        ((headerOf (e.readAll q.file)).map (ofHeader p.path q.file l o), (), d') ∧
      d'.readAll q.file = e.readAll q.file := by
  have hclosed := h.writer.held.closed
  have hsame := readAll_unlock e q.file
  rw [← h.path]
  have hopen := hclosed.exec_open_eq he ((hsame log).trans h.settled.empty)
    (by rw [hsame]; exact h.encodedLength_le)
  rwa [hsame] at hopen

/-- The file is long enough exactly if the last page is there. -/
theorem whole_iff (h : Saved p d q e log) (hcheck : q.header.check = .ok q.header) :
    p.Whole d ↔ p.header.pageCount.toNat * p.pageSize ≤ (e.readAll q.file).length := by
  refine h.reaches.whole_iff h.tidy.transaction_writable.pos ?_ fun id hid => ?_
  · rw [← h.pageCount]
    exact (Header.check_eq_ok.1 hcheck).2.2.1
  · obtain ⟨page, hpage⟩ := PageMap.mem_iff.1 hid
    exact (h.tidy.current.sound id page hpage).2.2.1

theorem headerOf_of_error (h : Saved p d q e log) {error : Error}
    (hcheck : q.header.check = .error error) : headerOf (e.readAll q.file) = .error error := by
  rw [headerOf, h.settled.front, h.header, hcheck]

theorem headerOf_of_ok (h : Saved p d q e log) (hcheck : q.header.check = .ok q.header) :
    headerOf (e.readAll q.file) =
      if (e.readAll q.file).length < p.header.pageCount.toNat * p.pageSize then
        .error (.corrupt (s!"file holds {(e.readAll q.file).length} bytes but the header describes "
          ++ s!"{p.header.pageCount.toNat * p.pageSize}"))
      else .ok q.header := by
  have hsize : q.header.pageSize.toNat = p.pageSize := by
    rw [← h.pageSize]
    exact h.writer.tidy.current.size_eq
  rw [headerOf, h.settled.front, h.header, hcheck]
  dsimp only
  rw [hsize, h.pageCount]

/-- **Opening the file again succeeds if the last page is there**, and shows what the commit
left. -/
theorem opens (h : Saved p d q e log) (he : o.errorIfExists = false)
    (hcheck : q.header.check = .ok q.header) (hwhole : p.Whole d) :
    ∃ r d', («open» p.path o).exec () (q.release e) = (.ok r, (), d') ∧ r.poisoned = none ∧
      Mirrors r d' ∧ r.header = q.header ∧ r.pageSize = q.pageSize ∧ r.view d' = q.view e := by
  obtain ⟨l, d', hopen, hmain⟩ := h.exec_open he
  have hlong := (h.whole_iff hcheck).1 hwhole
  rw [h.headerOf_of_ok hcheck, if_neg (by omega)] at hopen
  refine ⟨_, d', hopen, rfl, .of_empty rfl d', rfl, h.writer.tidy.current.size_eq,
    funext fun id => ?_⟩
  rw [view_ofHeader, fromFile_of_contents hmain, view, h.clean, h.writer.tidy.current.size_eq]
  simp only [Std.ExtTreeMap.getElem?_empty]
  rfl

/-- Without the last page the file is too short to be opened again. -/
theorem open_short (h : Saved p d q e log) (he : o.errorIfExists = false)
    (hcheck : q.header.check = .ok q.header) (hwhole : ¬ p.Whole d) :
    ∃ d', («open» p.path o).exec () (q.release e) =
      (.error (.corrupt (s!"file holds {(e.readAll q.file).length} bytes but the header describes "
        ++ s!"{p.header.pageCount.toNat * p.pageSize}")), (), d') := by
  obtain ⟨l, d', hopen, -⟩ := h.exec_open he
  have hshort := mt (h.whole_iff hcheck).2 hwhole
  rw [h.headerOf_of_ok hcheck, if_pos (by omega)] at hopen
  exact ⟨d', hopen⟩

/-- A header that no file can have is refused. -/
theorem open_refused (h : Saved p d q e log) (he : o.errorIfExists = false) {error : Error}
    (hcheck : q.header.check = .error error) :
    ∃ d', («open» p.path o).exec () (q.release e) = (.error error, (), d') := by
  obtain ⟨l, d', hopen, -⟩ := h.exec_open he
  rw [h.headerOf_of_error hcheck] at hopen
  exact ⟨d', hopen⟩

/-- Opening the file again succeeds exactly if the header is a sound one and the last page is there,
and then shows what the commit left. -/
theorem open_iff (h : Saved p d q e log) (he : o.errorIfExists = false) :
    ∃ r d', («open» p.path o).exec () (q.release e) = (r, (), d') ∧
      ((∃ s, r = .ok s) ↔ q.header.check = .ok q.header ∧ p.Whole d) ∧
      ∀ s, r = .ok s → s.poisoned = none ∧ Mirrors s d' ∧ s.header = q.header ∧
        s.pageSize = q.pageSize ∧ s.view d' = q.view e := by
  cases hcheck : q.header.check with
  | error error =>
      obtain ⟨d', hopen⟩ := h.open_refused he hcheck
      exact ⟨_, d', hopen, ⟨nofun, nofun⟩, nofun⟩
  | ok hd =>
      obtain rfl := (Header.check_eq_ok.1 hcheck).1
      by_cases hwhole : p.Whole d
      · obtain ⟨r, d', hopen, hr⟩ := h.opens he hcheck hwhole
        refine ⟨.ok r, d', hopen, ⟨fun _ => ⟨rfl, hwhole⟩, fun _ => ⟨r, rfl⟩⟩, ?_⟩
        rintro s ⟨⟩
        exact hr
      · obtain ⟨d', hopen⟩ := h.open_short he hcheck hwhole
        exact ⟨_, d', hopen, ⟨nofun, fun hboth => absurd hboth.2 hwhole⟩, nofun⟩

end Saved

/-- **A file can be opened again after a commit if the last page of it is there**, to read or to
write. Then it shows the header that the commit left and every page that could be read before.
Otherwise the file is too short for its header, and cannot be opened. Where no page of the free
list is written to or freed and the root is one of the pages, the header is always a sound one;
where it is not, opening fails for that reason. -/
theorem open_after_commit (h : Life Call.Sized p d)
    (hcommit : Pager.commit.exec p d = (.ok (), q, e)) {o : Options}
    (he : o.errorIfExists = false) :
    (Life Call.Careful p d → q.header.check = .ok q.header) ∧
      (q.header.check = .ok q.header → p.Whole d →
        ∃ r d', («open» p.path o).exec () (q.release e) = (.ok r, (), d') ∧
          r.Exposes d' q.header (fun id => ((read id).exec q e).1) ∧
          ∀ id page, ((read id).exec p d).1 = .ok page → ((read id).exec r d').1 = .ok page) ∧
      (q.header.check = .ok q.header → ¬ p.Whole d →
        ∃ length d', length < p.header.pageCount.toNat * p.pageSize ∧
          («open» p.path o).exec () (q.release e) =
            (.error (.corrupt (s!"file holds {length} bytes but the header describes "
              ++ s!"{p.header.pageCount.toNat * p.pageSize}")), (), d')) ∧
      ∀ error, q.header.check = .error error →
        ∃ d', («open» p.path o).exec () (q.release e) = (.error error, (), d') := by
  obtain ⟨log, hsaved⟩ := h.saved hcommit
  refine ⟨fun hcareful => hcareful.check_saved hcommit, fun hcheck hwhole => ?_,
    fun hcheck hwhole => ?_, fun error hcheck => hsaved.open_refused he hcheck⟩
  · obtain ⟨r, d', hopen, hr, hmirrors, hheader, -, hview⟩ := hsaved.opens he hcheck hwhole
    obtain ⟨hu, -⟩ := writable_of_commit_ok hcommit
    refine ⟨r, d', hopen, ⟨hheader, fun id => ?_⟩, fun id page hread => ?_⟩
    · rw [hmirrors.read_eq hr, hview]
      exact (hsaved.mirrors.read_eq hsaved.usable id).symm
    · rw [(h.coherent.mirrors hu).read_eq hu] at hread
      rw [hmirrors.read_eq hr, hview]
      exact hsaved.kept id page hread
  · obtain ⟨d', hopen⟩ := hsaved.open_short he hcheck hwhole
    exact ⟨_, d', Nat.not_le.1 (mt (hsaved.whole_iff hcheck).2 hwhole), hopen⟩

/-! ## The first page of a file -/

/-- The pager after it has allocated a page. -/
def withUnwrittenPage : Pager :=
  { onEmptyFile with header := { onEmptyFile.header with pageCount := 2 } }

theorem life_withUnwrittenPage : ∃ d, Life Call.Careful withUnwrittenPage d ∧
    Reached withUnwrittenPage d ∧ d.readAll withUnwrittenPage.file = (Header.fresh 512).encode := by
  obtain ⟨d, hopen⟩ := closed_emptyFiles.exec_open_empty (o := { pageSize := 512 }) rfl rfl rfl rfl
  have hlife : Life Call.Careful onEmptyFile d := .opened new_emptyFiles rfl hopen
  have hreached : Reached onEmptyFile d :=
    .opened namesLive_emptyFiles namesApart_emptyFiles rfl (by decide) hopen
  exact ⟨d, hlife.called (.request .allocate) trivial, hreached.served .allocate trivial,
    closed_emptyFiles.readAll_open_empty rfl rfl rfl hopen⟩

/-- No page is on an empty free list. -/
theorem unlisted_of_empty (h : p.header.freeHead = 0) (id : PageId) : (p.face d).Unlisted id := by
  intro free hlist hid
  cases free with
  | nil => cases hid
  | cons first rest =>
      obtain ⟨-, next, hfirst, -⟩ := hlist
      rw [show (p.face d).header.freeHead = 0 from h] at hfirst
      cases hfirst

theorem open_after_commit_first_page : ∃ p d q e, Life Call.Careful p d ∧
    Pager.commit.exec p d = (.ok (), q, e) ∧ ∃ r d',
      («open» p.path {}).exec () (q.release e) = (.ok r, (), d') ∧ r.header.pageCount = 2 ∧
      ((read 1).exec r d').1 = .ok (Page.make 1 512 .overflow []).sealed := by
  obtain ⟨d, hlife, hreached, -⟩ := life_withUnwrittenPage
  have hlen : (Page.make 1 512 .overflow []).image.length = 512 :=
    Page.length_make (by decide) 1 .overflow []
  have hwritten : Life Call.Careful withFirstPage d :=
    hlife.called (.request (.write (.make 1 512 .overflow []))) ⟨hlen, unlisted_of_empty rfl 1⟩
  have hready : Ready withFirstPage d :=
    (hreached.served (.write (.make 1 512 .overflow [])) hlen).ready rfl
  have hchanged : withFirstPage.hasChanges = true := Bool.or_eq_true_iff.2 (.inr (by decide))
  obtain ⟨log, -, -, -, hcommit⟩ := exec_commit hready
  rw [if_pos hchanged] at hcommit
  have hwhole : withFirstPage.Whole d := fun _ _ hid => absurd Std.ExtTreeMap.mem_insert_self hid
  obtain ⟨hsound, hopens, -⟩ := open_after_commit hwritten.sized hcommit (o := {}) rfl
  obtain ⟨r, d', hopen, ⟨hheader, -⟩, hkept⟩ := hopens (hsound hwritten) hwhole
  refine ⟨_, d, _, _, hwritten, hcommit, r, d', hopen, ?_, hkept 1 _ ?_⟩
  · rw [hheader]
    rfl
  · have hdirty : withFirstPage.dirty[(1 : PageId)]? = some _ :=
      Std.ExtTreeMap.getElem?_insert_self
    rw [hready.read_eq, view, if_pos (by decide), hdirty]

/-- **A commit can leave a file that cannot be opened any more.** The page that was allocated was
never written, so the file ends before it. -/
theorem open_short_after_allocate : ∃ p d q e, Life Call.Careful p d ∧
    Pager.commit.exec p d = (.ok (), q, e) ∧ ∃ d', («open» p.path {}).exec () (q.release e) =
      (.error (.corrupt "file holds 512 bytes but the header describes 1024"), (), d') := by
  obtain ⟨d, hlife, hreached, hmain⟩ := life_withUnwrittenPage
  have hready : Ready withUnwrittenPage d := hreached.ready rfl
  have hchanged : withUnwrittenPage.hasChanges = true := Bool.or_eq_true_iff.2 (.inr (by decide))
  obtain ⟨log, -, -, -, hcommit⟩ := exec_commit hready
  rw [if_pos hchanged] at hcommit
  obtain ⟨log, hsaved⟩ := hlife.sized.saved hcommit
  have hlength : (d.readAll withUnwrittenPage.file).length = 512 :=
    (congrArg List.length hmain).trans (Header.length_encode _)
  have hlast : ¬ withUnwrittenPage.Whole d := fun hwhole => by
    have hle := hwhole (by decide) (by decide) Std.ExtTreeMap.not_mem_empty
    rw [hlength] at hle
    exact absurd hle (by decide)
  -- What the commit wrote is the header page, which is as long as the file was.
  have hnew := Nat.le_antisymm ((hsaved.reaches.le_iff 512).2 ⟨hlength.le, by decide, fun id hid =>
    absurd hid Std.ExtTreeMap.not_mem_empty⟩) hsaved.settled.room
  obtain ⟨d', hopen⟩ := hsaved.open_short (o := {}) rfl (hlife.check_saved hcommit) hlast
  refine ⟨_, d, _, _, hlife, hcommit, d', hopen.trans ?_⟩
  rw [hnew]
  rfl

end

end PagedStore.Pager
