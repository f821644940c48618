import PagedStore.Proofs.PagerHistory
import PagedStore.Proofs.Readers

/-!
# Readers after a crash

A writer that opens the files left by a crash carries out the log on the main file and reads the
header afterwards; a reader reads the header first and lays the log over the pages in memory. Both
show the same header and the same pages, page for page, and the reader changes no file.

There is one exception. A crash in the middle of the first bytes of the header leaves a mixture of
the old header and the new one in the main file. The log makes up for it, but only the writer looks
there before it reads the header.
-/

set_option autoImplicit false

namespace PagedStore

open Bytes

/-! ## Stopping anywhere -/

/-- What is cut short leaves between the two states of the main file what each of its writes, also
one that is cut short itself, leaves there. -/
theorem Became.cut_writes {path : String} {file log : NodeId} {d d' : Disk} {main logged : Bytes}
    {R : Bytes → Bytes → Prop} (hrefl : ∀ bs, R bs bs)
    (htrans : ∀ {a b c}, R a b → R b c → R a c) (hh : Pager.Held path file log d)
    {es : List FileEffect} (hes : ∀ e ∈ es, ∀ at' bs, e = .write at' bs →
      ∀ k old, R old (patch at' (bs.take k) old))
    (h : Became file log d d' main logged) (n k : Nat) :
    ∃ main' logged', R main main' ∧
      Became file log d (FileEffect.cut file log k n es d') main' logged' := by
  induction es generalizing n d' main logged with
  | nil =>
      refine ⟨main, logged, hrefl main, ?_⟩
      cases n <;> exact h
  | cons e es ih =>
      have hmore := fun e' he' => hes e' (List.mem_cons_of_mem e he')
      cases n with
      | zero =>
          cases e with
          | append entry => exact ⟨main, _, hrefl main, h.append hh _⟩
          | write at' bs =>
              exact ⟨_, logged, hes _ List.mem_cons_self at' bs rfl k main, h.write hh _ _⟩
          | clear => exact ⟨main, logged, hrefl main, h⟩
      | succ n =>
          cases e with
          | append entry => exact ih hmore (h.append hh _) n
          | write at' bs =>
              obtain ⟨main', logged', hR, hb⟩ := ih hmore (h.write hh at' bs) n
              have hwhole := hes _ List.mem_cons_self at' bs rfl bs.length main
              rw [List.take_length] at hwhole
              exact ⟨main', logged', htrans hwhole hR, hb⟩
          | clear => exact ih hmore (h.clear hh) n

namespace Pager

open PagedStore.Action

/-! ## Opening a closed file to read it -/

section

variable {path : String} {file log : NodeId} {d d' : Disk} {o : Options} {q : Pager} {hd : Header}

/-- A reader shares the lock and finds the log. -/
theorem Closed.exec_openFile_reader (h : Closed path file log d) (ho : o.readOnly = true)
    (he : o.errorIfExists = false) :
    ∃ d', (openFile path o).exec () d = (.ok file, (), d') ∧ (d'.node file).isFolder = false ∧
      Log.recoverFile (Log.pathFor path) d' = .ok (Log.recover (d.readAll log)) ∧
      ∀ n, d'.readAll n = d.readAll n := by
  have hsame := readAll_modify h.live (f := fun x => { x with lock := .shared 1 }) fun _ => rfl
  refine ⟨d.modify file fun x => { x with lock := .shared 1 }, ?_, ?_, ?_, hsame⟩
  · have hthere : d.hasName path = true := by
      rw [Disk.hasName, h.named]
      rfl
    have hopen : d.openToRead path = .ok file := by rw [Disk.openToRead, h.named]
    have hlock : d.tryLock file false =
        some (d.modify file fun x => { x with lock := .shared 1 }) := by
      unfold Disk.tryLock
      rw [h.unlocked]
    rw [openFile, exec_bind, exec_disk]
    simp only [hthere, ho, he, hopen, Bool.not_true, Bool.false_and, Bool.and_false,
      Bool.false_eq_true, if_false, if_true, Except.map, exec_bind, exec_updateDisk]
    rw [hlock]
    rfl
  · rw [Disk.node_modify_self h.live]
    exact h.plain
  · have hlog : (d.modify file fun x => { x with lock := .shared 1 }).find? (Log.pathFor path) =
        some log := h.logNamed
    rw [Log.recoverFile, hlog]
    dsimp only
    rw [Disk.node_modify_of_ne h.apart, h.logPlain, hsame]
    rfl

/-- **A reader can open a closed file** that has a header and all its pages, and whose log can be
laid over it. No file is changed. -/
theorem Closed.exec_open_reader (h : Closed path file log d) (ho : o.readOnly = true)
    (he : o.errorIfExists = false) (hs : Stored file hd d)
    (hover : overlay (Log.recover (d.readAll log)).committed (ofHeader path file none o hd) =
      .ok q) :
    ∃ d', («open» path o).exec () d = (.ok q, (), d') ∧ ∀ n, d'.readAll n = d.readAll n := by
  obtain ⟨d₁, hfile, hplain, hlog, hsame⟩ := h.exec_openFile_reader ho he
  refine ⟨d₁, ?_, hsame⟩
  have hheader := openHeader_of_stored (o := o) hplain (hs.of_contents (hsame file))
  have hlocked : (openLocked path file o).exec () d₁ = (.ok q, (), d₁) := by
    rw [openLocked, exec_bind, exec_disk]
    dsimp only
    rw [hlog, exec_bind, exec_ofResult]
    dsimp only
    rw [ho, if_pos rfl, exec_bind_ok hheader, exec_ofResult, hover]
  rw [«open», exec_bind_ok hfile, exec_bind, exec_attempt, hlocked]
  rfl

/-- A file that is not empty has a header. -/
theorem stored_of_openHeader_nonempty (hne : d.readAll file ≠ [])
    (h : (openHeader file o).exec () d = (.ok hd, (), d')) : Stored file hd d' ∧ d' = d := by
  have hsize : (d.node file).contents.size ≠ 0 := fun h0 => hne (List.length_eq_zero_iff.1 h0)
  rw [openHeader, exec_bind, exec_disk] at h
  simp only [decide_eq_false hsize, Bool.false_and, Bool.false_eq_true, if_false] at h
  exact stored_of_readHeader h

/-- What a writer has done when it could open a closed file. -/
theorem Closed.of_open_writer (h : Closed path file log d) (ho : o.readOnly = false)
    (hopen : («open» path o).exec () d = (.ok q, (), d')) :
    ∃ d₁ d₂ hd, Held path file log d₁ ∧ Held path file log d₂ ∧
      (∀ n, d₁.readAll n = d.readAll n) ∧
      (replay file (Log.recover (d.readAll log)).committed).exec () d₁ = (.ok (), (), d₂) ∧
      (openHeader file o).exec () (d₂.truncate log 0) = (.ok hd, (), d') ∧
      q = ofHeader path file (some log) o hd := by
  obtain ⟨file', d₁, hfile, hlocked⟩ := open_eq_ok hopen
  have he : o.errorIfExists = false := by
    by_contra he
    rw [Bool.not_eq_false] at he
    rw [Pager.exec_openFile ho, Disk.hasName, h.named, he] at hfile
    cases hfile
  obtain ⟨d₁', hfile', hheld, hsame⟩ := h.exec_openFile ho he
  rw [hfile] at hfile'
  cases hfile'
  obtain ⟨recovery, d₂, log', d₃, hd, hrecovery, hreplay, hlog, hheader, rfl⟩ :=
    openLocked_eq_ok ho hlocked
  rw [hheld.recoverFile, hsame] at hrecovery
  cases hrecovery
  have hreplayed := keeps_replay file d₁ (Log.recover (d.readAll log)).committed () d₁
    (.refl file d₁)
  rw [hreplay] at hreplayed
  have hheld₂ := hheld.of_shape hreplayed.shape
  rw [exec_openLog hheld₂] at hlog
  cases hlog
  exact ⟨d₁, d₂, hd, hheld, hheld₂, hsame, hreplay, hheader, rfl⟩

end

/-! ## Laying the log over the pages -/

/-- Logged pages take the places of those that were there. -/
theorem overlayPages_eq_ok {ps : Nat} {pages : List (PageId × Bytes)} (h : Writable ps pages)
    (dirty : PageMap) :
    ∃ dirty', overlayPages ps pages dirty = .ok dirty' ∧
      (∀ x ∈ pages, dirty'[x.1]? = some ⟨x.1, x.2⟩) ∧
      ∀ id, (∀ x ∈ pages, x.1 ≠ id) → dirty'[id]? = dirty[id]? := by
  -- The last image of a page stays, and all images of one page are the same.
  induction pages generalizing dirty with
  | nil => exact ⟨dirty, rfl, fun _ hx => absurd hx List.not_mem_nil, fun _ _ => rfl⟩
  | cons x pages ih =>
      have hmore : Writable ps pages := ⟨h.pos,
        fun y hy => h.length_eq y (List.mem_cons_of_mem _ hy),
        fun y hy z hz => h.alike y (List.mem_cons_of_mem _ hy) z (List.mem_cons_of_mem _ hz)⟩
      obtain ⟨dirty', hover, hshown, hkept⟩ := ih hmore (dirty.insert x.1 ⟨x.1, x.2⟩)
      have hcheck : checkImage x.1 x.2 ps = .ok () := if_pos (h.length_eq x List.mem_cons_self)
      refine ⟨dirty', ?_, fun y hy => ?_, fun id hid => ?_⟩
      · obtain ⟨id, image⟩ := x
        rw [overlayPages, hcheck]
        exact hover
      · rcases List.mem_cons.1 hy with rfl | hy
        · by_cases hagain : ∃ z ∈ pages, z.1 = y.1
          · obtain ⟨z, hz, hzy⟩ := hagain
            rw [← hzy, hshown z hz,
              h.alike z (List.mem_cons_of_mem _ hz) y List.mem_cons_self hzy]
          · rw [hkept y.1 fun z hz hzy => hagain ⟨z, hz, hzy⟩, PageMap.getElem?_insert, if_pos rfl]
        · exact hshown y hy
      · rw [hkept id fun z hz => hid z (List.mem_cons_of_mem _ hz), PageMap.getElem?_insert, if_neg]
        exact hid x List.mem_cons_self

/-- Laid over no pages, the transaction of a commit gives the pages that the commit was to
write. -/
theorem Tidy.overlayPages_transaction {p : Pager} (h : p.Tidy) :
    overlayPages p.pageSize p.transaction.pages ∅ = .ok p.dirty := by
  obtain ⟨dirty, hover, hshown, hkept⟩ := overlayPages_eq_ok h.transaction_writable ∅
  rw [hover]
  congr 1
  refine Std.ExtTreeMap.ext_getElem? fun id => ?_
  cases hd : p.dirty[id]? with
  | some page =>
      obtain ⟨rfl, -⟩ := h.current.sound id page hd
      exact hshown (page.id, page.image) (h.mem_transaction.2 hd)
  | none =>
      refine (hkept id fun x hx hid => ?_).trans (by simp)
      rw [← hid, h.mem_transaction.1 hx] at hd
      cases hd

/-- What a reader makes of the log of a commit. -/
theorem Tidy.overlay_transaction {p : Pager} (h : p.Tidy)
    (hcheck : p.nextHeader.check = .ok p.nextHeader) {q : Pager} (hq : q.dirty = ∅) :
    overlay [p.transaction] q =
      .ok { q with dirty := p.dirty, header := p.nextHeader, committed := p.nextHeader } := by
  have hsize : p.nextHeader.pageSize.toNat = p.pageSize := h.current.size_eq
  rw [overlay, h.decode_transaction, hcheck]
  show (overlayPages p.nextHeader.pageSize.toNat p.transaction.pages q.dirty >>= _) = _
  rw [hsize, hq, h.overlayPages_transaction]
  rfl

/-! ## The header in a torn file -/

section

variable {p : Pager} {d : Disk}

/-- The first bytes of the main file, where the header is. -/
def frontOf (bs : Bytes) : Bytes := bs.take Header.encodedLength

/-- The crash comes while the header is written, within its first bytes. -/
def HeaderCut (p : Pager) (n k : Nat) : Prop :=
  p.effects[n]? = some (.write 0 p.nextHeader.encode) ∧ 0 < k ∧ k < Header.encodedLength

/-- What becomes of the header in the main file by a commit that is cut short. -/
inductive HeaderFate (p : Pager) (d : Disk) (n k : Nat) (main : Bytes) : Prop where
  | old (front : frontOf main = frontOf (d.readAll p.file))
  | new (front : frontOf main = p.nextHeader.front)
      (long : (patchAll p.pageSize p.transaction.pages (d.readAll p.file)).length ≤ main.length)
  | cut (cut : p.HeaderCut n k)
      (long : (patchAll p.pageSize p.transaction.pages (d.readAll p.file)).length ≤ main.length)

theorem frontOf_patch {bs : Bytes} (h : Header.encodedLength ≤ bs.length) (old : Bytes) :
    frontOf (patch 0 bs old) = frontOf bs := by
  rw [frontOf, frontOf, patch_zero, List.take_append_of_le_length h]

/-- What a commit does before it writes the header into the main file. -/
def beforeHeader (p : Pager) : List FileEffect :=
  (p.logEntries ++ [p.commitMark]).map .append ++ p.transaction.pages.map (.writeAt p.pageSize)

/-- A change of the files by which the header in the main file is not touched. -/
def SparesHeader (p : Pager) (e : FileEffect) : Prop :=
  (∃ entry, e = .append entry) ∨ ∃ x ∈ p.transaction.pages, e = .writeAt p.pageSize x

theorem sparesHeader_beforeHeader : ∀ e ∈ p.beforeHeader, p.SparesHeader e := by
  intro e he
  rcases List.mem_append.1 he with he | he
  · obtain ⟨entry, -, rfl⟩ := List.mem_map.1 he
    exact .inl ⟨entry, rfl⟩
  · obtain ⟨x, hx, rfl⟩ := List.mem_map.1 he
    exact .inr ⟨x, hx, rfl⟩

/-- A commit that is made to stop never comes to the header. -/
theorem sparesHeader_of_stopped {point : CrashPoint} (hc : p.crashPoint = some point) :
    ∀ e ∈ p.commitEffects, p.SparesHeader e := by
  have hwrites : ∀ x ∈ p.mainWrites, x ∈ p.transaction.pages := by
    intro x hx
    rw [mainWrites, hc] at hx
    cases point with
    | duringPageApply => exact List.mem_of_mem_take hx
    | _ => cases hx
  have hnone : p.crashPoint ≠ none := by
    rw [hc]
    exact Option.some_ne_none point
  intro e he
  rw [commitEffects_eq, if_neg hnone, List.append_nil] at he
  rcases List.mem_append.1 he with he | he
  · obtain ⟨entry, -, rfl⟩ := List.mem_map.1 he
    exact .inl ⟨entry, rfl⟩
  · split at he
    · cases he
    · rcases List.mem_cons.1 he with rfl | he
      · exact .inl ⟨_, rfl⟩
      · obtain ⟨x, hx, rfl⟩ := List.mem_map.1 he
        exact .inr ⟨x, hwrites x hx, rfl⟩

theorem commitEffects_whole (hc : p.crashPoint = none) :
    p.commitEffects = p.beforeHeader ++ [.write 0 p.nextHeader.encode, .clear] := by
  rw [commitEffects_eq, hc, if_neg (by simp), if_pos rfl, mainWrites, hc, beforeHeader]
  simp [FileEffect.writeAt, offset_zero]

/-- Changes that do not touch the header leave it alone, wherever they are cut short. -/
theorem Ready.frontOf_cut (h : Ready p d) {log : NodeId} (hh : Held p.path p.file log d)
    {es : List FileEffect} (hes : ∀ e ∈ es, p.SparesHeader e) (n k : Nat) :
    frontOf ((FileEffect.cut p.file log k n es d).readAll p.file) =
      frontOf (d.readAll p.file) := by
  have hsize := pageSize_bounds h.size_mem
  have h52 : Header.encodedLength = 52 := rfl
  -- Pages other than that of the header lie behind it.
  have hwrites : ∀ e ∈ es, ∀ at' bs, e = .write at' bs → ∀ k old,
      Header.encodedLength ≤ old.length →
        Header.encodedLength ≤ (patch at' (bs.take k) old).length ∧
          frontOf (patch at' (bs.take k) old) = frontOf old := by
    rintro e he at' bs rfl k old hlen
    refine ⟨hlen.trans (le_length_patch ..), ?_⟩
    rcases hes _ he with ⟨entry, heq⟩ | ⟨x, hx, heq⟩
    · cases heq
    · cases heq
      obtain ⟨-, h0, -⟩ := h.current.sound _ _ (h.tidy.mem_transaction.1 hx)
      have hapart := offset_apart p.pageSize h0
      rw [offset_zero] at hapart
      rw [frontOf, frontOf, ← slice_zero, ← slice_zero]
      exact slice_patch_before (by omega) (by omega)
  obtain ⟨main, logged, hfront, hb⟩ := Became.cut_writes
    (R := fun a b => Header.encodedLength ≤ a.length →
      Header.encodedLength ≤ b.length ∧ frontOf b = frontOf a)
    (fun _ hlen => ⟨hlen, rfl⟩)
    (fun hab hbc hlen => ⟨(hbc (hab hlen).1).1, (hbc (hab hlen).1).2.trans (hab hlen).2⟩) hh
    hwrites (Became.refl p.file log d) n k
  rw [hb.file]
  exact (hfront h.stored.header_le).2

/-- The files when everything but the header has been written. -/
theorem Held.became_beforeHeader {log : NodeId} (hh : Held p.path p.file log d) :
    ∃ logged, Became p.file log d (FileEffect.performAll p.file log p.beforeHeader d)
      (patchAll p.pageSize p.transaction.pages (d.readAll p.file)) logged := by
  rw [beforeHeader, FileEffect.performAll_append]
  exact ⟨_, ((Became.refl p.file log d).performAll_append hh _).performAll_write hh p.pageSize
    p.transaction.pages⟩

/-- Once as many bytes of the header are written as are read of it, it is the new one. -/
theorem Ready.frontOf_written (h : Ready p d) {j : Nat} (hj : Header.encodedLength ≤ j)
    (old : Bytes) : frontOf (patch 0 (p.nextHeader.encode.take j) old) = p.nextHeader.front := by
  have hle := h.tidy.header_le
  have hlen : Header.encodedLength ≤ (p.nextHeader.encode.take j).length := by
    rw [List.length_take, Header.length_encode]
    exact Nat.le_min.2 ⟨hj, hle⟩
  rw [frontOf_patch hlen, frontOf, List.take_take, Nat.min_eq_left hj]
  exact Header.take_encode hle

/-- What becomes of the header once the commit has come to it. -/
theorem Ready.headerFate_late (h : Ready p d) (hch : p.hasChanges = true)
    (hc : p.crashPoint = none) {log : NodeId} (hh : Held p.path p.file log d) (i k : Nat) :
    HeaderFate p d (p.beforeHeader.length + i) k
      ((FileEffect.cut p.file log k i [.write 0 p.nextHeader.encode, .clear]
        (FileEffect.performAll p.file log p.beforeHeader d)).readAll p.file) := by
  obtain ⟨logged, hb⟩ := hh.became_beforeHeader
  cases i with
  | zero =>
      show HeaderFate p d p.beforeHeader.length k ((Disk.write _ _ 0 _).readAll p.file)
      rw [(hb.write hh 0 _).file]
      rcases Nat.eq_zero_or_pos k with rfl | hpos
      · have hfront := h.frontOf_cut hh sparesHeader_beforeHeader p.beforeHeader.length 0
        rw [FileEffect.cut_of_length_le (Nat.le_refl _), hb.file] at hfront
        rw [List.take_zero, patch_nil]
        exact .old hfront
      · rcases Nat.lt_or_ge k Header.encodedLength with hk | hk
        · refine .cut ⟨?_, hpos, hk⟩ (le_length_patch ..)
          rw [effects, if_pos hch, commitEffects_whole hc,
            List.getElem?_append_right (Nat.le_refl _), Nat.sub_self, List.getElem?_cons_zero]
        · exact .new (h.frontOf_written hk _) (le_length_patch ..)
  | succ i =>
      have hfile : (FileEffect.cut p.file log k (i + 1) [.write 0 p.nextHeader.encode, .clear]
          (FileEffect.performAll p.file log p.beforeHeader d)).readAll p.file =
            patch 0 p.nextHeader.encode
              (patchAll p.pageSize p.transaction.pages (d.readAll p.file)) := by
        cases i with
        | zero => exact (hb.write hh 0 _).file
        | succ i => cases i <;> exact ((hb.write hh 0 _).clear hh).file
      have hle : Header.encodedLength ≤ p.nextHeader.encode.length := by
        rw [Header.length_encode]
        exact h.tidy.header_le
      have hfront := h.frontOf_written hle
        (patchAll p.pageSize p.transaction.pages (d.readAll p.file))
      rw [List.take_length] at hfront
      rw [hfile]
      exact .new hfront (le_length_patch ..)

/-- **A crash leaves the old header or the new one** in the main file, unless it comes within the
first bytes of the header. -/
theorem Ready.headerFate (h : Ready p d) (n k : Nat) :
    HeaderFate p d n k ((p.crashed n k d).readAll p.file) := by
  obtain ⟨log, hlog, hh, -⟩ := h.held
  have hcrash : p.crashed n k d = FileEffect.cut p.file log k n p.effects d := by
    rw [crashed, hlog]
  rw [hcrash]
  cases hch : p.hasChanges with
  | false =>
      have hnone : ∀ e ∈ p.effects, p.SparesHeader e := by
        rw [effects, hch]
        exact fun _ he => absurd he List.not_mem_nil
      exact .old (h.frontOf_cut hh hnone n k)
  | true =>
      rw [effects, if_pos hch]
      cases hc : p.crashPoint with
      | some point => exact .old (h.frontOf_cut hh (sparesHeader_of_stopped hc) n k)
      | none =>
          rw [commitEffects_whole hc]
          rcases Nat.lt_or_ge n p.beforeHeader.length with hn | hn
          · rw [FileEffect.cut_append_of_lt hn]
            exact .old (h.frontOf_cut hh sparesHeader_beforeHeader n k)
          · obtain ⟨i, rfl⟩ := Nat.exists_eq_add_of_le hn
            rw [FileEffect.cut_append_of_le hn, Nat.add_sub_cancel_left]
            exact h.headerFate_late hch hc hh i k

/-- Whatever a crash leaves, the files are there and nobody has them open. -/
theorem Ready.closed_crashed (h : Ready p d) (n k : Nat) :
    ∃ log, Closed p.path p.file log (p.release (p.crashed n k d)) ∧
      ∀ m, (p.release (p.crashed n k d)).readAll m = (p.crashed n k d).readAll m := by
  obtain ⟨log, hlog, hh, -⟩ := h.held
  have hcut : ∃ main logged, True ∧
      Became p.file log d (FileEffect.cut p.file log k n p.effects d) main logged :=
    Became.cut_writes (R := fun _ _ => True) (fun _ => trivial) (fun _ _ => trivial) hh
      (fun _ _ _ _ _ _ _ => trivial) (Became.refl p.file log d) n k
  obtain ⟨main, logged, -, hb⟩ := hcut
  have hheld : Held p.path p.file log (p.crashed n k d) := by
    rw [crashed, hlog]
    exact hh.of_shape hb.shape
  exact ⟨log, hheld.closed, readAll_modify hheld.live fun _ => rfl⟩

/-- What a crash within the first bytes of the header leaves of it. -/
theorem Ready.frontOf_crashed (h : Ready p d) (hch : p.hasChanges = true)
    (hc : p.crashPoint = none) {k : Nat} (hk : k ≤ Header.encodedLength) :
    frontOf ((p.crashed p.beforeHeader.length k d).readAll p.file) =
      p.nextHeader.front.take k ++ (frontOf (d.readAll p.file)).drop k := by
  obtain ⟨log, hlog, hh, -⟩ := h.held
  obtain ⟨logged, hb⟩ := hh.became_beforeHeader
  have hfront := h.frontOf_cut hh sparesHeader_beforeHeader p.beforeHeader.length 0
  rw [FileEffect.cut_of_length_le (Nat.le_refl _), hb.file] at hfront
  have hcrash : p.crashed p.beforeHeader.length k d =
      (FileEffect.performAll p.file log p.beforeHeader d).write p.file 0
        (p.nextHeader.encode.take k) := by
    rw [crashed, hlog]
    dsimp only
    rw [effects, if_pos hch, commitEffects_whole hc, FileEffect.cut_append_of_le (Nat.le_refl _),
      Nat.sub_self]
    rfl
  have hle := h.tidy.header_le
  have hlen : (p.nextHeader.encode.take k).length = k := by
    rw [List.length_take, Header.length_encode]
    omega
  have hnew : p.nextHeader.encode.take k = p.nextHeader.front.take k := by
    rw [← Header.take_encode hle, List.take_take, Nat.min_eq_left hk]
  rw [hcrash, (hb.write hh 0 _).file, ← hfront, patch_zero, hlen, frontOf, frontOf, List.drop_take,
    List.take_append, hlen, ← hnew, List.take_of_length_le (by omega)]

/-- The first bytes of the main file are neither those of the old header nor those of the new
one. -/
def HeaderMixed (p : Pager) (d : Disk) (n k : Nat) : Prop :=
  frontOf ((p.crashed n k d).readAll p.file) ≠ frontOf (d.readAll p.file) ∧
    frontOf ((p.crashed n k d).readAll p.file) ≠ p.nextHeader.front

/-- Headers are mixed only by a crash within the first bytes of the header. -/
theorem Ready.headerCut_of_mixed (h : Ready p d) {n k : Nat} (hm : p.HeaderMixed d n k) :
    p.HeaderCut n k := by
  cases h.headerFate n k with
  | old front => exact absurd front hm.1
  | new front => exact absurd front hm.2
  | cut cut => exact cut

/-! ## A reader and a writer of the same files -/

/-- A page that was there before the commit or is written by it, or that is none. The only others
are pages that were allocated and never written. -/
def Imaged (p : Pager) (id : PageId) : Prop :=
  id ∈ p.dirty ∨ id < p.committed.pageCount ∨ p.header.pageCount ≤ id

/-- A reader can open the files, changes none of them, and shows the header and the pages that a
writer shows who has opened them. -/
def ReadAlike (p : Pager) (files : Disk) (o : Options) (q : Pager) (d' : Disk) : Prop :=
  ∃ q' d'', («open» p.path o).exec () files = (.ok q', (), d'') ∧
    (∀ file, d''.readAll file = files.readAll file) ∧ q'.header = q.header ∧
    ∀ id, p.Imaged id → ((read id).exec q' d'').1 = ((read id).exec q d').1

variable {log : NodeId} {files d' : Disk} {o r : Options} {q : Pager}

/-- Where the log has nothing to carry out, reader and writer find the same file. -/
theorem readAlike_of_nothing (hc : Closed p.path p.file log files)
    (hnone : (Log.recover (files.readAll log)).committed = []) (hne : files.readAll p.file ≠ [])
    (ho : o.readOnly = false) (hr : r.readOnly = true) (hre : r.errorIfExists = false)
    (hw : («open» p.path o).exec () files = (.ok q, (), d')) : ReadAlike p files r q d' := by
  obtain ⟨d₁, d₂, hd, hheld, -, hsame, hreplay, hheader, rfl⟩ := hc.of_open_writer ho hw
  rw [hnone] at hreplay
  cases hreplay
  have hb := (Became.refl p.file log d₁).clear hheld
  have hmain : (d₁.truncate log 0).readAll p.file = files.readAll p.file :=
    hb.file.trans (hsame p.file)
  obtain ⟨hstored, rfl⟩ := stored_of_openHeader_nonempty (by rwa [hmain]) hheader
  have hover : overlay (Log.recover (files.readAll log)).committed
      (ofHeader p.path p.file none r hd) = .ok (ofHeader p.path p.file none r hd) := by
    rw [hnone]
    rfl
  obtain ⟨d'', hopen, hkept⟩ :=
    hc.exec_open_reader hr hre (hstored.of_contents hmain.symm) hover
  refine ⟨_, d'', hopen, hkept, rfl, fun id _ => ?_⟩
  have hfile : d''.readAll p.file = (d₁.truncate log 0).readAll p.file := by rw [hkept, hmain]
  rw [(Mirrors.of_empty rfl d'').read_eq rfl, (Mirrors.of_empty rfl _).read_eq rfl, view_ofHeader,
    view_ofHeader, fromFile_of_contents hfile]

/-- A commit that a writer can carry out makes a header that a file can have. -/
theorem Tidy.check_of_replay (h : p.Tidy) {d₁ d₂ : Disk}
    (hreplay : (replay p.file [p.transaction]).exec () d₁ = (.ok (), (), d₂)) :
    p.nextHeader.check = .ok p.nextHeader := by
  obtain ⟨hd, _, _, hdecode, -⟩ := of_exec_bind_ok hreplay
  rw [exec_ofResult, h.decode_transaction] at hdecode
  have hcheck := (Prod.mk.inj hdecode).1
  rw [hcheck, (Header.check_eq_ok.1 hcheck).1]

/-- Carrying the commit out a second time does not make the file longer. -/
theorem Ready.length_replayed (h : Ready p d) {main : Bytes}
    (hlong : (patchAll p.pageSize p.transaction.pages (d.readAll p.file)).length ≤ main.length) :
    (patch 0 p.nextHeader.encode (patchAll p.pageSize p.transaction.pages main)).length =
      main.length := by
  have hw := h.tidy.transaction_writable
  have hspares := Spares.patchAll (fun x hx => h.tidy.changes hx)
    (fun x hx => (hw.length_eq x hx).le) (d.readAll p.file)
  have hpages : (patchAll p.pageSize p.transaction.pages main).length = main.length := by
    refine length_patchAll_of_le main fun x hx => ?_
    have hshown := hw.shows_patchAll (d.readAll p.file) x hx
    have hend := offset_add_le (hw.length_eq x hx) hw.pos hshown
    rw [hw.length_eq x hx]
    exact hend.trans hlong
  have hfirst : p.nextHeader.encode.length ≤ main.length := by
    rw [h.tidy.length_nextHeader]
    exact h.pageSize_le.trans (hspares.long.trans hlong)
  rw [length_patch_of_le, hpages]
  rw [Nat.zero_add, hpages]
  exact hfirst

/-- The header that a reader finds in a torn file is the old one or the new one. -/
theorem Ready.stored_torn (h : Ready p d) {n k : Nat} (hmixed : ¬ p.HeaderMixed d n k)
    (hspares : Spares p.pageSize p.Changes (d.readAll p.file) (files.readAll p.file))
    (hfiles : files.readAll p.file = (p.crashed n k d).readAll p.file)
    (hcheck : p.nextHeader.check = .ok p.nextHeader)
    (hneeded : p.nextHeader.pageCount.toNat * p.nextHeader.pageSize.toNat ≤ (patch 0
      p.nextHeader.encode
      (patchAll p.pageSize p.transaction.pages (files.readAll p.file))).length) :
    ∃ hd, Stored p.file hd files ∧ hd.pageSize.toNat = p.pageSize := by
  have hcases : frontOf (files.readAll p.file) = frontOf (d.readAll p.file) ∨
      frontOf (files.readAll p.file) = p.nextHeader.front ∧
        (patchAll p.pageSize p.transaction.pages (d.readAll p.file)).length ≤
          (files.readAll p.file).length := by
    rw [hfiles]
    cases h.headerFate n k with
    | old front => exact .inl front
    | new front long => exact .inr ⟨front, long⟩
    | cut _ long =>
        by_cases hold : frontOf ((p.crashed n k d).readAll p.file) = frontOf (d.readAll p.file)
        · exact .inl hold
        · exact .inr ⟨not_not.1 fun hnew => hmixed ⟨hold, hnew⟩, long⟩
  rcases hcases with hold | ⟨hnew, hlong⟩
  · refine ⟨p.committed, ⟨?_, h.stored.long.trans hspares.long⟩, h.size_eq⟩
    have hfront := h.stored.front
    rw [frontOf, frontOf] at hold
    rwa [← hold] at hfront
  · refine ⟨p.nextHeader, ⟨?_, ?_⟩, h.current.size_eq⟩
    · rw [← hcheck]
      refine Header.decode_of_take ?_
      rw [List.take_take, Nat.min_self]
      exact hnew
    · rwa [h.length_replayed hlong] at hneeded

/-- A reader of the files of `p` with the commit laid over a header that was found. -/
def overlaid (p : Pager) (r : Options) (hd : Header) : Pager :=
  { ofHeader p.path p.file none r hd with
    dirty := p.dirty, header := p.nextHeader, committed := p.nextHeader }

/-- A reader with the commit laid over the torn file shows what was to be committed. -/
theorem view_overlaid {hd : Header} (hsize : hd.pageSize.toNat = p.pageSize) {d'' : Disk}
    (hspares : Spares p.pageSize p.Changes (d.readAll p.file) (d''.readAll p.file))
    {id : PageId} (hid : p.CoveredAt d id) : (p.overlaid r hd).view d'' id = p.view d id := by
  have hsame : (p.overlaid r hd).inRange id = p.inRange id ∧
      (p.overlaid r hd).dirty = p.dirty := ⟨rfl, rfl⟩
  rw [view, view, hsame.1, hsame.2]
  by_cases hr : p.inRange id = true
  · rw [if_pos hr, if_pos hr]
    obtain ⟨h0, hlt⟩ := inRange_iff.1 hr
    cases hdirty : p.dirty[id]? with
    | some page => rfl
    | none =>
        -- A page that is not dirty lies in the file, and nothing has touched it.
        have hmem : id ∉ p.dirty := fun hm => by
          obtain ⟨page, hp⟩ := PageMap.mem_iff.1 hm
          rw [hdirty] at hp
          cases hp
        show fromFile p.file hd.pageSize.toNat d'' id = _
        rw [hsize, hspares.fromFile_kept h0 hmem (hid h0 hlt hmem)]
  · rw [if_neg hr, if_neg hr]

/-- A page that was there before the commit lies in the file. -/
theorem Ready.coveredAt_of_imaged (h : Ready p d) {id : PageId} (hid : p.Imaged id) :
    p.CoveredAt d id := by
  intro _ hlt hmem
  rcases hid with hid | hid | hid
  · exact absurd hid hmem
  · exact h.stored.page_le h.size_eq hid
  · exact absurd hlt (UInt32.not_lt.2 hid)

/-- **Where the log is whole, a writer carries out the commit** before it looks for the header, and
finds the one that was to be committed. -/
theorem Ready.carried_of_open (h : Ready p d) (hc : Closed p.path p.file log files)
    (hlogged : files.readAll log = p.transaction.logged)
    (hspares : Spares p.pageSize p.Changes (d.readAll p.file) (files.readAll p.file))
    (ho : o.readOnly = false) (hw : («open» p.path o).exec () files = (.ok q, (), d')) :
    p.nextHeader.check = .ok p.nextHeader ∧
      q = ofHeader p.path p.file (some log) o p.nextHeader ∧ Stored p.file p.nextHeader d' ∧
      d'.readAll p.file = patch 0 p.nextHeader.encode
        (patchAll p.pageSize p.transaction.pages (files.readAll p.file)) := by
  obtain ⟨d₁, d₂, hd, hheld₁, hheld₂, hsame, hreplay, hheader, rfl⟩ := hc.of_open_writer ho hw
  -- What the writer has carried out is the commit.
  rw [hlogged, h.tidy.recover_logged] at hreplay
  have hcheck := h.tidy.check_of_replay hreplay
  obtain ⟨d₂', hexec, hreplayed⟩ := h.exec_replay_logged hcheck hheld₁.live
  rw [h.tidy.recover_logged, hreplay] at hexec
  cases hexec
  have hcleared := (Became.refl p.file log d₂).clear hheld₂
  generalize d₂.truncate log 0 = d₃ at hcleared hheader ⊢
  have hmain : d₃.readAll p.file = patch 0 p.nextHeader.encode
      (patchAll p.pageSize p.transaction.pages (files.readAll p.file)) := by
    rw [hcleared.file, hreplayed, hsame]
  have hcar : Carried p (d.readAll p.file) (d₃.readAll p.file) := by
    rw [hmain]
    exact h.tidy.carried hspares
  have hne : d₃.readAll p.file ≠ [] := by
    refine List.ne_nil_of_length_pos (Nat.lt_of_lt_of_le ?_ hcar.spares.long)
    exact Nat.lt_of_lt_of_le (by decide) h.stored.header_le
  obtain ⟨hstored, rfl⟩ := stored_of_openHeader_nonempty hne hheader
  have hnew : hd = p.nextHeader := by
    have hfront := hstored.front
    rw [hcar.decode_front h.tidy, hcheck] at hfront
    exact (Except.ok.inj hfront).symm
  subst hnew
  exact ⟨hcheck, rfl, hstored, hmain⟩

/-- Where the log is whole, the reader lays over the torn file what the writer carries out. -/
theorem Ready.readAlike_of_logged (h : Ready p d) (hh : Held p.path p.file log d) {n k : Nat}
    (hmixed : ¬ p.HeaderMixed d n k) {main : Bytes}
    (hspares : Spares p.pageSize p.Changes (d.readAll p.file) main)
    (hb : Became p.file log d (p.crashed n k d) main p.transaction.logged)
    (ho : o.readOnly = false) (hr : r.readOnly = true) (hre : r.errorIfExists = false)
    (hw : («open» p.path o).exec () (p.release (p.crashed n k d)) = (.ok q, (), d')) :
    ReadAlike p (p.release (p.crashed n k d)) r q d' := by
  have hheld := hh.of_shape hb.shape
  have hkept : ∀ m, (p.release (p.crashed n k d)).readAll m = (p.crashed n k d).readAll m :=
    readAll_modify hheld.live fun _ => rfl
  have hclosed : Closed p.path p.file log (p.release (p.crashed n k d)) := hheld.closed
  obtain rfl : (p.release (p.crashed n k d)).readAll p.file = main := by rw [hkept, hb.file]
  have hlogged : (p.release (p.crashed n k d)).readAll log = p.transaction.logged := by
    rw [hkept, hb.log]
  obtain ⟨hcheck, rfl, hstored, hmain⟩ := h.carried_of_open hclosed hlogged hspares ho hw
  have hcar : Carried p (d.readAll p.file) (d'.readAll p.file) := by
    rw [hmain]
    exact h.tidy.carried hspares
  -- The reader finds one of the two headers, and the commit in the log.
  have hneeded := hstored.long
  rw [hmain] at hneeded
  obtain ⟨hd, hfound, hsize⟩ := h.stored_torn hmixed hspares (hkept p.file) hcheck hneeded
  have hover : overlay (Log.recover ((p.release (p.crashed n k d)).readAll log)).committed
      (ofHeader p.path p.file none r hd) = .ok (p.overlaid r hd) := by
    rw [hlogged, h.tidy.recover_logged]
    exact h.tidy.overlay_transaction hcheck rfl
  obtain ⟨d'', hopen, hsame⟩ := hclosed.exec_open_reader hr hre hfound hover
  refine ⟨_, d'', hopen, hsame, rfl, fun id hid => ?_⟩
  rw [← hsame] at hspares
  rw [(Mirrors.of_empty rfl d'').read_eq rfl, (Mirrors.of_empty rfl _).read_eq rfl]
  rw [view_overlaid hsize hspares (h.coveredAt_of_imaged hid),
    hcar.view_at h (h.coveredAt_of_imaged hid)]

/-- Where the log holds no whole transaction, there is nothing to lay over the file. -/
theorem Ready.readAlike_of_unlogged (h : Ready p d) (hh : Held p.path p.file log d) {n k : Nat}
    {main logged : Bytes} (hlong : (d.readAll p.file).length ≤ main.length)
    (hb : Became p.file log d (p.crashed n k d) main logged)
    (hnone : (Log.recover logged).committed = [])
    (ho : o.readOnly = false) (hr : r.readOnly = true) (hre : r.errorIfExists = false)
    (hw : («open» p.path o).exec () (p.release (p.crashed n k d)) = (.ok q, (), d')) :
    ReadAlike p (p.release (p.crashed n k d)) r q d' := by
  have hheld := hh.of_shape hb.shape
  have hkept : ∀ m, (p.release (p.crashed n k d)).readAll m = (p.crashed n k d).readAll m :=
    readAll_modify hheld.live fun _ => rfl
  refine readAlike_of_nothing hheld.closed ?_ ?_ ho hr hre hw
  · show (Log.recover ((p.release (p.crashed n k d)).readAll log)).committed = []
    rw [hkept, hb.log, hnone]
  · show (p.release (p.crashed n k d)).readAll p.file ≠ []
    rw [hkept, hb.file]
    refine List.ne_nil_of_length_pos (Nat.lt_of_lt_of_le ?_ hlong)
    exact Nat.lt_of_lt_of_le (by decide) h.stored.header_le

/-- **Readers and writers agree after a crash.** Whatever a commit that was cut short has left: if
a writer can open the files, so can a reader, who changes none of them and shows the header and the
pages that the writer shows. This holds of all crashes but those that leave a header mixed of the
old one and the new one, and of all pages but those that were allocated and never written. -/
theorem readers_agree_after_crash (hp : Reached p d) (hu : p.poisoned = none) {n k : Nat}
    (hmixed : ¬ p.HeaderMixed d n k) (ho : o.readOnly = false) (hr : r.readOnly = true)
    (hre : r.errorIfExists = false)
    (hw : («open» p.path o).exec () (p.release (p.crashed n k d)) = (.ok q, (), d')) :
    ReadAlike p (p.release (p.crashed n k d)) r q d' := by
  have h := hp.ready hu
  obtain ⟨log, hlog, hh, hempty⟩ := h.held
  have hcrash : FileEffect.cut p.file log k n p.effects d = p.crashed n k d := by
    rw [crashed, hlog]
  cases hch : p.hasChanges with
  | false =>
      -- There is nothing to commit, so nothing has happened to the files.
      have hcut := crashed_of_unchanged hch n k d
      have hb := Became.refl p.file log d
      rw [hempty] at hb
      exact h.readAlike_of_unlogged hh (Nat.le_refl _) (by rwa [hcut]) Log.recover_nil ho hr hre hw
  | true =>
      have htorn := h.torn hh hempty hch n k
      rw [hcrash] at htorn
      rcases htorn with ⟨-, j, hj, hb⟩ | ⟨-, main, ⟨hspares, hb⟩ | ⟨hcar, hb⟩⟩
      · -- A front of the log holds no transaction.
        refine h.readAlike_of_unlogged hh (Nat.le_refl _) hb ?_ ho hr hre hw
        rw [Log.committed_recover_take h.tidy.loggable, if_neg (Nat.not_le_of_lt hj)]
      · exact h.readAlike_of_logged hh hmixed hspares hb ho hr hre hw
      · -- The log was emptied after the main file was complete.
        exact h.readAlike_of_unlogged hh hcar.spares.long hb Log.recover_nil ho hr hre hw

end

/-! ## A first page -/

theorem readers_agree_after_crash_first_page :
    ∃ d q d', Reached withFirstPage d ∧ ¬ withFirstPage.HeaderMixed d 4 0 ∧
      («open» "a" {}).exec () (withFirstPage.release (withFirstPage.crashed 4 0 d)) =
        (.ok q, (), d') ∧
      ReadAlike withFirstPage (withFirstPage.release (withFirstPage.crashed 4 0 d))
        { readOnly := true } q d' := by
  obtain ⟨d, hd⟩ := reached_withFirstPage
  have h : Ready withFirstPage d := hd.ready rfl
  have hmixed : ¬ withFirstPage.HeaderMixed d 4 0 := fun hm =>
    Nat.lt_irrefl 0 (h.headerCut_of_mixed hm).2.1
  obtain ⟨q, d', hopen, -⟩ := h.reopens (h.covered committable_withFirstPage)
    committable_withFirstPage.check (o := {}) rfl rfl 4 0
  exact ⟨d, q, d', hd, hmixed, hopen,
    readers_agree_after_crash hd rfl hmixed rfl rfl rfl hopen⟩

/-! ## A mixed header -/

section

variable {path : String} {file log : NodeId} {d d' : Disk} {o : Options}

/-- A reader is refused when the header in the main file cannot be read, whatever the log holds. -/
theorem Closed.exec_open_reader_refused (h : Closed path file log d) (ho : o.readOnly = true)
    (he : o.errorIfExists = false) (hlen : Header.encodedLength ≤ (d.readAll file).length)
    {e : Error} (hdecode : Header.decode (frontOf (d.readAll file)) = .error e) :
    ∃ d', («open» path o).exec () d = (.error e, (), d') := by
  obtain ⟨d₁, hfile, hplain, hlog, hsame⟩ := h.exec_openFile_reader ho he
  have hread : d₁.read file 0 Header.encodedLength = frontOf (d.readAll file) := by
    rw [Disk.read_eq_slice, hsame, slice_zero, frontOf]
  have hfront : ¬ (frontOf (d.readAll file)).length < Header.encodedLength := by
    rw [frontOf, List.length_take]
    omega
  have hsize : (d₁.node file).contents.size ≠ 0 := by
    have hle : Header.encodedLength ≤ (d₁.node file).contents.size := by
      rw [← hsame] at hlen
      exact hlen
    exact Nat.ne_of_gt (Nat.lt_of_lt_of_le (by decide) hle)
  have hheader : (openHeader file o).exec () d₁ = (.error e, (), d₁) := by
    rw [openHeader, exec_bind, exec_disk]
    simp only [decide_eq_false hsize, Bool.false_and, Bool.false_eq_true, if_false]
    rw [readHeader, exec_bind, exec_disk]
    simp only [hplain, hread, Bool.false_eq_true, if_false, if_neg hfront, hdecode]
    rfl
  have hlocked : (openLocked path file o).exec () d₁ = (.error e, (), d₁) := by
    rw [openLocked, exec_bind, exec_disk]
    dsimp only
    rw [hlog, exec_bind, exec_ofResult]
    dsimp only
    rw [ho, if_pos rfl, exec_bind_error hheader]
  rw [«open», exec_bind_ok hfile, exec_bind, exec_attempt, hlocked]
  exact ⟨_, rfl⟩

/-- Opening an empty file for writing gives it the header of a new one. -/
theorem Closed.readAll_open_empty (h : Closed path file log d) (ho : o.readOnly = false)
    {q : Pager} (hmain : d.readAll file = []) (hlog : d.readAll log = [])
    (hopen : («open» path o).exec () d = (.ok q, (), d')) :
    d'.readAll file = (Header.fresh o.pageSize).encode := by
  obtain ⟨d₁, d₂, hd, -, hheld, hsame, hreplay, hheader, -⟩ := h.of_open_writer ho hopen
  rw [hlog, Log.recover_nil] at hreplay
  cases hreplay
  have hb := (Became.refl file log d₁).clear hheld
  have hempty : (d₁.truncate log 0).readAll file = [] := by rw [hb.file, hsame, hmain]
  have hsize : ((d₁.truncate log 0).node file).contents.size = 0 := congrArg List.length hempty
  rw [openHeader, exec_bind, exec_disk] at hheader
  simp only [hsize, (hheld.of_shape hb.shape).plain, ho, decide_true, Bool.not_false,
    Bool.and_self, if_true] at hheader
  cases hheader
  rw [Disk.readAll_write_self (hheld.of_shape hb.shape).live, hempty, patch_zero, List.drop_nil,
    List.append_nil]

end

/-- The first bytes of the main file when 20 bytes of the header of `withFirstPage` have been
written. -/
def mixedFront : Bytes :=
  withFirstPage.nextHeader.front.take 20 ++ (Header.fresh 512).front.drop 20

theorem decode_mixedFront :
    Header.decode mixedFront = .error (.checksumMismatch 2752530026 1829719765) := by
  decide +kernel

/-- **A reader may be refused where a writer is not**: after a crash within the header the checksum
of what the main file holds is wrong, and the log in which the header stands is not looked at. -/
theorem reader_refused_after_crash :
    ∃ d q d' d'', Reached withFirstPage d ∧
      («open» "a" {}).exec () (withFirstPage.release
        (withFirstPage.crashed withFirstPage.beforeHeader.length 20 d)) = (.ok q, (), d') ∧
      («open» "a" { readOnly := true }).exec () (withFirstPage.release
        (withFirstPage.crashed withFirstPage.beforeHeader.length 20 d)) =
          (.error (.checksumMismatch 2752530026 1829719765), (), d'') := by
  obtain ⟨d, hnew⟩ := closed_emptyFiles.exec_open_empty (o := { pageSize := 512 }) rfl rfl rfl rfl
  have hold := closed_emptyFiles.readAll_open_empty rfl rfl rfl hnew
  have hp : Reached withFirstPage d := Reached.firstPage
    (.opened namesLive_emptyFiles namesApart_emptyFiles rfl (by decide) hnew)
  have h : Ready withFirstPage d := hp.ready rfl
  have hch : withFirstPage.hasChanges = true := Bool.or_eq_true_iff.2 (.inr (by decide))
  obtain ⟨q, d', hopen, -⟩ := h.reopens (h.covered committable_withFirstPage)
    committable_withFirstPage.check (o := {}) rfl rfl withFirstPage.beforeHeader.length 20
  obtain ⟨log, hclosed, hkept⟩ := h.closed_crashed withFirstPage.beforeHeader.length 20
  -- What the main file begins with is mixed of the two headers.
  have hfront := h.frontOf_crashed hch rfl (k := 20) (by decide)
  have hfresh : frontOf (d.readAll withFirstPage.file) = (Header.fresh 512).front := by
    rw [frontOf]
    exact (congrArg (List.take Header.encodedLength) hold).trans (Header.take_encode (by decide))
  rw [hfresh, ← hkept] at hfront
  have hlen := congrArg List.length hfront
  rw [frontOf, List.length_take] at hlen
  have hlong : mixedFront.length = Header.encodedLength := by decide +kernel
  have hlong' : Header.encodedLength ≤ _ := (hlen.trans hlong).ge.trans (Nat.min_le_right _ _)
  have hdecode := (congrArg Header.decode hfront).trans decode_mixedFront
  obtain ⟨d'', hrefused⟩ := hclosed.exec_open_reader_refused (o := { readOnly := true }) rfl rfl
    hlong' hdecode
  exact ⟨d, q, d', d'', hp, hopen, hrefused⟩

end Pager

end PagedStore
