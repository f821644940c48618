import Mathlib.Data.List.Nodup
import Mathlib.Data.List.Perm.Subperm
import PagedStore.Proofs.Faces
import PagedStore.Proofs.LogRecovery
import PagedStore.Proofs.PagePatches

/-!
# What a commit does to the files

A commit writes one transaction to the log and then its pages and its header into the main file.
When all of that is done (`Carried`) the file shows, page for page, what the pager showed before,
and the pager is ready for the next transaction.
-/

set_option autoImplicit false

namespace PagedStore

open Bytes

/-! ## Following the two files -/

/-- The writing of a page, at the place of its number. -/
def FileEffect.writeAt (pageSize : Nat) (x : PageId × Bytes) : FileEffect :=
  .write (Pager.offset pageSize x.1) x.2

/-- On the way from `d` to `d'` nothing but the contents of the main file and of the log has
changed, and they have become `main` and `logged`. -/
structure Became (file log : NodeId) (d d' : Disk) (main logged : Bytes) : Prop where
  shape : Disk.SameShape d d'
  file : d'.readAll file = main
  log : d'.readAll log = logged

namespace Became

variable {path : String} {file log : NodeId} {d d' : Disk} {main logged : Bytes}

theorem refl (file log : NodeId) (d : Disk) :
    Became file log d d (d.readAll file) (d.readAll log) := ⟨.refl d, rfl, rfl⟩

theorem append (h : Became file log d d' main logged) (hh : Pager.Held path file log d)
    (bs : Bytes) : Became file log d (d'.append log bs) main (logged ++ bs) where
  shape := h.shape.trans (.append ..)
  file := (Disk.readAll_modify_of_ne hh.apart.symm _).trans h.file
  log := by
    rw [Disk.readAll_append_self (by rw [h.shape.size]; exact hh.logLive), h.log]

theorem write (h : Became file log d d' main logged) (hh : Pager.Held path file log d)
    (at' : Nat) (bs : Bytes) :
    Became file log d (d'.write file at' bs) (patch at' bs main) logged where
  shape := h.shape.trans (.write ..)
  file := by
    rw [Disk.readAll_write_self (by rw [h.shape.size]; exact hh.live), h.file]
  log := (Disk.readAll_modify_of_ne hh.apart _).trans h.log

theorem clear (h : Became file log d d' main logged) (hh : Pager.Held path file log d) :
    Became file log d (d'.truncate log 0) main [] where
  shape := h.shape.trans (.truncate ..)
  file := (Disk.readAll_modify_of_ne hh.apart.symm _).trans h.file
  log := by
    rw [Disk.readAll_truncate_self (by rw [h.shape.size]; exact hh.logLive)]
    exact List.length_eq_zero_iff.1 (length_resize _ _)

theorem performAll_append (h : Became file log d d' main logged) (hh : Pager.Held path file log d)
    (es : List Log.Entry) :
    Became file log d (FileEffect.performAll file log (es.map .append) d') main
      (logged ++ es.flatMap fun e => Log.frame e.encode) := by
  induction es generalizing d' logged with
  | nil =>
      rw [List.flatMap_nil, List.append_nil]
      exact h
  | cons e es ih =>
      rw [List.flatMap_cons, ← List.append_assoc]
      exact ih (h.append hh _)

theorem performAll_write (h : Became file log d d' main logged) (hh : Pager.Held path file log d)
    (pageSize : Nat) (xs : List (PageId × Bytes)) :
    Became file log d (FileEffect.performAll file log (xs.map (.writeAt pageSize)) d')
      (Pager.patchAll pageSize xs main) logged := by
  induction xs generalizing d' main with
  | nil => exact h
  | cons x xs ih => exact ih (h.write hh _ _)

end Became

theorem FileEffect.performAll_append (file log : NodeId) (es es' : List FileEffect) (d : Disk) :
    performAll file log (es ++ es') d = performAll file log es' (performAll file log es d) :=
  List.foldl_append

theorem Pager.Held.of_shape {path : String} {file log : NodeId} {d d' : Disk}
    (h : Held path file log d) (hs : Disk.SameShape d d') : Held path file log d' where
  named := (hs.find? path).trans h.named
  logNamed := (hs.find? _).trans h.logNamed
  apart := h.apart
  live := hs.size ▸ h.live
  logLive := hs.size ▸ h.logLive
  plain := (hs.folder file).trans h.plain
  logPlain := (hs.folder log).trans h.logPlain
  locked := (hs.lock file).trans h.locked

namespace Pager

open PagedStore.Action

/-! ## The transaction -/

/-- The transaction that a commit logs. -/
def transaction (p : Pager) : Log.Transaction :=
  ⟨p.nextHeader.lastTxn, p.nextHeader.encode, p.dirtyPages.map fun page => (page.id, page.image)⟩

theorem entries_transaction (p : Pager) : p.transaction.entries = p.logEntries := by
  rw [Log.Transaction.entries, transaction, logEntries, List.map_map]
  rfl

theorem mark_transaction (p : Pager) : p.transaction.mark = p.commitMark := by
  rw [Log.Transaction.mark, transaction, commitMark, List.length_map, dirtyPages, List.length_map,
    Std.ExtTreeMap.length_toList]

/-- The bytes that a commit appends to the log. -/
def loggedEntries (p : Pager) : Bytes := p.logEntries.flatMap fun e => Log.frame e.encode

theorem logged_transaction (p : Pager) :
    p.transaction.logged = p.loggedEntries ++ Log.frame p.commitMark.encode := by
  rw [Log.Transaction.logged, entries_transaction, mark_transaction, List.flatMap_append,
    List.flatMap_singleton, loggedEntries]

theorem nextHeader_pageSize (p : Pager) : p.nextHeader.pageSize = p.header.pageSize := rfl

/-- The changes of a pager are such as a commit can write into its file. -/
structure Tidy (p : Pager) : Prop where
  size_mem : p.pageSize ∈ pageSizes
  current : Returnable p.pageSize p.header p.dirty

theorem Ready.tidy {p : Pager} {d : Disk} (h : Ready p d) : p.Tidy := ⟨h.size_mem, h.current⟩

namespace Tidy

variable {p : Pager}

theorem five_le (h : p.Tidy) : Page.frontLength ≤ p.pageSize :=
  Nat.le_trans (by decide) (pageSize_bounds h.size_mem).1

/-- A page has room for a header. -/
theorem header_le (h : p.Tidy) : Header.encodedLength ≤ p.nextHeader.pageSize.toNat := by
  rw [nextHeader_pageSize, h.current.size_eq]
  exact Nat.le_trans (by decide) (pageSize_bounds h.size_mem).1

theorem mem_dirtyPages (h : p.Tidy) {page : Page} :
    page ∈ p.dirtyPages ↔ p.dirty[page.id]? = some page := by
  rw [dirtyPages, List.mem_map]
  constructor
  · rintro ⟨⟨id, pg⟩, hmem, rfl⟩
    have hp := Std.ExtTreeMap.mem_toList_iff_getElem?_eq_some.1 hmem
    rw [(h.current.sound id pg hp).1]
    exact hp
  · intro hp
    exact ⟨(page.id, page), Std.ExtTreeMap.mem_toList_iff_getElem?_eq_some.2 hp, rfl⟩

theorem mem_transaction (h : p.Tidy) {x : PageId × Bytes} :
    x ∈ p.transaction.pages ↔ p.dirty[x.1]? = some ⟨x.1, x.2⟩ := by
  rw [transaction, List.mem_map]
  constructor
  · rintro ⟨page, hmem, rfl⟩
    exact h.mem_dirtyPages.1 hmem
  · intro hx
    exact ⟨⟨x.1, x.2⟩, h.mem_dirtyPages.2 hx, rfl⟩

theorem length_nextHeader (h : p.Tidy) : p.nextHeader.encode.length = p.pageSize := by
  rw [Header.length_encode, nextHeader_pageSize, h.current.size_eq]

theorem transaction_writable (h : p.Tidy) : Writable p.pageSize p.transaction.pages where
  pos := Nat.lt_of_lt_of_le (by decide) h.five_le
  length_eq x hx := (h.current.sound _ _ (h.mem_transaction.1 hx)).2.2.2.1
  alike x hx y hy hxy := by
    have hx' := h.mem_transaction.1 hx
    rw [hxy, h.mem_transaction.1 hy] at hx'
    exact (Page.mk.inj (Option.some.inj hx')).2.symm

/-- The header that a log holds. -/
theorem decode_transaction (h : p.Tidy) :
    Header.decode p.transaction.header = p.nextHeader.check :=
  Header.decode_of_take (Header.take_encode h.header_le)

/-- There are fewer dirty pages than numbers of pages. -/
theorem size_dirty_lt (h : p.Tidy) : p.dirty.size < 2 ^ 32 := by
  have hnodup : (p.dirty.keys.map UInt32.toNat).Nodup :=
    List.Nodup.map (fun _ _ hn => UInt32.toNat_inj.1 hn) Std.ExtTreeMap.nodup_keys
  have hsub : p.dirty.keys.map UInt32.toNat ⊆ List.range p.header.pageCount.toNat := by
    intro n hn
    obtain ⟨id, hid, rfl⟩ := List.mem_map.1 hn
    obtain ⟨page, hp⟩ := PageMap.mem_iff.1 (Std.ExtTreeMap.mem_keys.1 hid)
    obtain ⟨-, -, hlt, -⟩ := h.current.sound id page hp
    exact List.mem_range.2 (UInt32.lt_iff_toNat_lt.1 hlt)
  have hle := (List.subperm_of_subset hnodup hsub).length_le
  rw [List.length_map, Std.ExtTreeMap.length_keys, List.length_range] at hle
  exact Nat.lt_of_le_of_lt hle p.header.pageCount.toNat_lt

theorem loggable (h : p.Tidy) : p.transaction.Loggable := by
  have hsize := pageSize_bounds h.size_mem
  have hlen := h.length_nextHeader
  refine ⟨List.ne_nil_of_length_pos ?_, ?_, ?_, ?_⟩
  · show 0 < p.nextHeader.encode.length
    omega
  · show p.nextHeader.encode.length < _
    omega
  · intro x hx
    rw [h.transaction_writable.length_eq x hx]
    omega
  · rw [transaction, List.length_map, dirtyPages, List.length_map, Std.ExtTreeMap.length_toList]
    exact h.size_dirty_lt

end Tidy

/-! ## The main file afterwards -/

/-- Every page that the header speaks of is dirty or lies whole in the main file. -/
def Covered (p : Pager) (d : Disk) : Prop :=
  ∀ id, id ≠ 0 → id < p.header.pageCount → id ∉ p.dirty →
    offset p.pageSize id + p.pageSize ≤ (d.readAll p.file).length

/-- The same of one page. -/
def CoveredAt (p : Pager) (d : Disk) (id : PageId) : Prop :=
  id ≠ 0 → id < p.header.pageCount → id ∉ p.dirty →
    offset p.pageSize id + p.pageSize ≤ (d.readAll p.file).length

/-- The pages of the main file that a commit may change. -/
def Changes (p : Pager) (id : PageId) : Prop := id = 0 ∨ id ∈ p.dirty

/-- The main file after a commit has been carried out on it. -/
structure Carried (p : Pager) (old new : Bytes) : Prop where
  spares : Spares p.pageSize p.Changes old new
  shows : Shows p.pageSize p.transaction.pages new
  front : new.take p.pageSize = p.nextHeader.encode

section

variable {p : Pager} {d d' : Disk}

theorem Tidy.changes (h : p.Tidy) {x : PageId × Bytes} (hx : x ∈ p.transaction.pages) :
    p.Changes x.1 := .inr (PageMap.mem_iff.2 ⟨_, h.mem_transaction.1 hx⟩)

/-- Writing the pages and the header carries a commit out, also where parts of them had been
written before. -/
theorem Tidy.carried (h : p.Tidy) {old mid : Bytes}
    (hs : Spares p.pageSize p.Changes old mid) :
    Carried p old
      (patch 0 p.nextHeader.encode (patchAll p.pageSize p.transaction.pages mid)) := by
  have hw := h.transaction_writable
  have hheader : Spares p.pageSize (fun id => id = 0) (patchAll p.pageSize p.transaction.pages mid)
      (patch 0 p.nextHeader.encode (patchAll p.pageSize p.transaction.pages mid)) := by
    have hpatch := Spares.patch_one 0 h.length_nextHeader.le
      (patchAll p.pageSize p.transaction.pages mid)
    rwa [offset_zero] at hpatch
  have hfront : slice 0 p.pageSize
      (patch 0 p.nextHeader.encode (patchAll p.pageSize p.transaction.pages mid)) =
      p.nextHeader.encode := slice_patch_self h.length_nextHeader hw.pos _
  rw [slice_zero] at hfront
  refine ⟨?_, ?_, hfront⟩
  · have hpages :=
      Spares.patchAll (fun x hx => h.changes hx) (fun x hx => (hw.length_eq x hx).le) mid
    refine (hs.trans hpages).trans ⟨hheader.long, fun id hid => ?_⟩
    exact hheader.kept id fun h0 => hid (.inl h0)
  · -- The header comes last, but no page is in its place.
    intro x hx
    have hshown := hw.shows_patchAll mid x hx
    rw [← hshown]
    refine hheader.kept x.1 ?_ (offset_add_le (hw.length_eq x hx) hw.pos hshown)
    exact (h.current.sound _ _ (h.mem_transaction.1 hx)).2.1

/-- A page that a commit does not change stays as it is. -/
theorem Spares.fromFile_kept (hs : Spares p.pageSize p.Changes (d.readAll p.file) (d'.readAll p.file))
    {id : PageId} (h0 : id ≠ 0) (hid : id ∉ p.dirty)
    (hlen : offset p.pageSize id + p.pageSize ≤ (d.readAll p.file).length) :
    fromFile p.file p.pageSize d' id = fromFile p.file p.pageSize d id := by
  have hkept : fileImage p.file p.pageSize d' id = fileImage p.file p.pageSize d id :=
    hs.kept id (fun hch => hch.elim h0 hid) hlen
  rw [fromFile, fromFile, hkept]

/-- A page that is dirty comes into the file as it is. -/
theorem Carried.fromFile_dirty (hc : Carried p (d.readAll p.file) (d'.readAll p.file))
    (h : p.Tidy) {id : PageId} {page : Page} (hd : p.dirty[id]? = some page) :
    fromFile p.file p.pageSize d' id = .ok page := by
  obtain ⟨rfl, -, -, hlen, hver⟩ := h.current.sound id page hd
  have himage : fileImage p.file p.pageSize d' page.id = page.image :=
    hc.shows (page.id, page.image) (h.mem_transaction.2 hd)
  rw [fromFile]
  dsimp only
  rw [himage, if_neg (by omega), hver]

/-- After a commit the file shows what the pager showed. -/
theorem Carried.fromFile_eq (hc : Carried p (d.readAll p.file) (d'.readAll p.file))
    (h : p.Tidy) {id : PageId} (hid : p.CoveredAt d id) (h0 : id ≠ 0)
    (hlt : id < p.header.pageCount) : fromFile p.file p.pageSize d' id = p.view d id := by
  rw [view, if_pos (inRange_iff.2 ⟨h0, hlt⟩)]
  cases hd : p.dirty[id]? with
  | some page => exact hc.fromFile_dirty h hd
  | none =>
      have hmem : id ∉ p.dirty := fun hm => by
        obtain ⟨page, hp⟩ := PageMap.mem_iff.1 hm
        rw [hd] at hp
        cases hp
      exact hc.spares.fromFile_kept h0 hmem (hid h0 hlt hmem)

/-- The length that the pages up to the last one of a file make necessary. -/
theorem pageCount_mul_le {n : UInt32} {ps len : Nat} (hn : n ≠ 0)
    (h : ∀ id, id < n → offset ps id + ps ≤ len) : n.toNat * ps ≤ len := by
  have hpos : 0 < n.toNat := by
    rw [Nat.pos_iff_ne_zero]
    exact fun h0 => hn (UInt32.toNat_inj.1 h0)
  have hlast : (n - 1).toNat = n.toNat - 1 := by
    rw [UInt32.toNat_sub_of_le]
    · rfl
    · rw [UInt32.le_iff_toNat_le]
      exact hpos
  have := h (n - 1) (by rw [UInt32.lt_iff_toNat_lt]; omega)
  rw [offset, hlast, ← Nat.succ_mul] at this
  have hsucc : (n.toNat - 1).succ = n.toNat := by omega
  rwa [hsucc] at this

/-- The header that is found after a commit. -/
theorem Carried.decode_front {old new : Bytes} (hc : Carried p old new) (h : p.Tidy) :
    Header.decode (new.take Header.encodedLength) = p.nextHeader.check := by
  have hps : p.nextHeader.pageSize.toNat = p.pageSize := h.current.size_eq
  have hle : Header.encodedLength ≤ p.pageSize := hps ▸ h.header_le
  refine Header.decode_of_take ?_
  rw [List.take_take, Nat.min_self, ← Nat.min_eq_left hle, ← List.take_take, hc.front,
    Header.take_encode h.header_le]

theorem Carried.stored (hc : Carried p (d.readAll p.file) (d'.readAll p.file)) (h : p.Tidy)
    (hcov : p.Covered d) (hcheck : p.nextHeader.check = .ok p.nextHeader) :
    Stored p.file p.nextHeader d' := by
  have hps : p.nextHeader.pageSize.toNat = p.pageSize := h.current.size_eq
  have hw := h.transaction_writable
  constructor
  · rw [hc.decode_front h, hcheck]
  · -- Each page is a dirty one, which was written, or lay in the file before.
    rw [hps]
    refine pageCount_mul_le (Header.check_eq_ok.1 hcheck).2.2.1 fun id hlt => ?_
    by_cases h0 : id = 0
    · have := congrArg List.length hc.front
      rw [List.length_take, h.length_nextHeader] at this
      rw [h0, offset_zero]
      omega
    by_cases hd : id ∈ p.dirty
    · obtain ⟨page, hp⟩ := PageMap.mem_iff.1 hd
      obtain ⟨rfl, -, -, hlen, -⟩ := h.current.sound id page hp
      have hx : (page.id, page.image) ∈ p.transaction.pages := h.mem_transaction.2 hp
      exact offset_add_le hlen hw.pos (hc.shows _ hx)
    · exact Nat.le_trans (hcov id h0 hlt hd) hc.spares.long

end

/-! ## The sequence of changes -/

/-- What a commit writes into the main file, up to the place where it is made to stop. -/
def mainWrites (p : Pager) : List (PageId × Bytes) :=
  match p.crashPoint with
  | none => p.transaction.pages ++ [(0, p.nextHeader.encode)]
  | some .duringPageApply => p.transaction.pages.take p.pagesApplied
  | some _ => []

/-- The changes of a commit in their three phases. -/
theorem commitEffects_eq (p : Pager) :
    p.commitEffects = p.logEntries.map .append ++
      if p.crashPoint = some .beforeLogCommit then []
      else .append p.commitMark :: (p.mainWrites.map (.writeAt p.pageSize) ++
        if p.crashPoint = none then [.clear] else []) := by
  have hpages : ∀ n, (p.dirtyPages.take n).map p.pageEffect =
      (p.transaction.pages.take n).map (.writeAt p.pageSize) := by
    intro n
    rw [transaction, ← List.map_take, List.map_map]
    rfl
  rw [commitEffects, mainWrites]
  cases hc : p.crashPoint with
  | none =>
      have happlied : p.transaction.pages.take p.pagesApplied = p.transaction.pages := by
        refine List.take_of_length_le ?_
        rw [pagesApplied, hc, transaction, List.length_map, dirtyPages, List.length_map,
          Std.ExtTreeMap.length_toList]
      have hzero : FileEffect.write 0 p.nextHeader.encode =
          .writeAt p.pageSize (0, p.nextHeader.encode) := by
        rw [FileEffect.writeAt, offset_zero]
      simp [hpages, happlied, hzero]
  | some point => cases point <;> simp [hpages]

theorem Tidy.mem_mainWrites {p : Pager} (h : p.Tidy) {x : PageId × Bytes}
    (hx : x ∈ p.mainWrites) : p.Changes x.1 ∧ x.2.length ≤ p.pageSize := by
  have hpages : x ∈ p.transaction.pages → p.Changes x.1 ∧ x.2.length ≤ p.pageSize := fun hx =>
    ⟨h.changes hx, (h.transaction_writable.length_eq x hx).le⟩
  rw [mainWrites] at hx
  split at hx
  · rcases List.mem_append.1 hx with hx | hx
    · exact hpages hx
    · rw [List.mem_singleton.1 hx]
      exact ⟨.inl rfl, h.length_nextHeader.le⟩
  · exact hpages (List.mem_of_mem_take hx)
  · cases hx

theorem Tidy.carried_mainWrites {p : Pager} (h : p.Tidy) (hc : p.crashPoint = none)
    (old : Bytes) : Carried p old (patchAll p.pageSize p.mainWrites old) := by
  have := h.carried (.refl p.pageSize p.Changes old)
  rw [mainWrites, hc, patchAll, List.foldl_append, List.foldl_cons, List.foldl_nil, offset_zero]
  exact this

/-! ## Committing -/

theorem exec_commit {p : Pager} {d : Disk} (h : Ready p d) :
    ∃ log, p.log = some log ∧ Held p.path p.file log d ∧ d.readAll log = [] ∧
      commit.exec p d =
        if p.hasChanges then
          match p.crashPoint with
          | none => (.ok (), p.published, FileEffect.performAll p.file log p.commitEffects d)
          | some point =>
              (.error (.aborted ("simulated crash at " ++ point.name)), p.interrupted point,
                FileEffect.performAll p.file log p.commitEffects d)
        else (.ok (), p, d) := by
  obtain ⟨log, hlog, hheld, hempty⟩ := h.held
  refine ⟨log, hlog, hheld, hempty, ?_⟩
  rw [commit, exec_bind_ok (exec_ensureWritable h), exec_bind, exec_self]
  dsimp only
  rw [hlog]
  dsimp only
  split
  · rw [exec_bind, exec_updateDisk]
    cases p.crashPoint with
    | none => rfl
    | some point => rfl
  · rfl

/-- What may come of a commit, of whatever pager. -/
inductive CommitOutcome (p : Pager) (d : Disk) : Except Error Unit × Pager × Disk → Prop where
  /-- The file may only be read, or the pager must not be used any more. -/
  | refused {e : Error} (h : p.log = none ∨ p.poisoned ≠ none) : CommitOutcome p d (.error e, p, d)
  | unchanged (h : p.hasChanges = false) : CommitOutcome p d (.ok (), p, d)
  | published {log : NodeId} (hlog : p.log = some log) (hc : p.crashPoint = none) :
      CommitOutcome p d (.ok (), p.published, FileEffect.performAll p.file log p.commitEffects d)
  | stopped {log : NodeId} {point : CrashPoint} (hlog : p.log = some log)
      (hc : p.crashPoint = some point) :
      CommitOutcome p d (.error (.aborted ("simulated crash at " ++ point.name)),
        p.interrupted point, FileEffect.performAll p.file log p.commitEffects d)

theorem commitOutcome (p : Pager) (d : Disk) : CommitOutcome p d (commit.exec p d) := by
  have hguard := exec_ensureWritable_eq p d
  rw [readOnly] at hguard
  cases hlog : p.log with
  | none =>
      rw [hlog] at hguard
      rw [commit, exec_bind_error hguard]
      exact .refused (.inl hlog)
  | some log =>
      rw [hlog] at hguard
      cases hu : p.poisoned with
      | some reason =>
          rw [commit, exec_bind_error (hguard.trans (exec_ensureUsable_stopped hu d))]
          exact .refused (.inr (by rw [hu]; exact Option.some_ne_none reason))
      | none =>
          rw [commit, exec_bind_ok (hguard.trans (exec_ensureUsable hu)), exec_bind, exec_self]
          dsimp only
          rw [hlog]
          dsimp only
          by_cases hch : p.hasChanges = true
          · rw [if_pos hch, exec_bind, exec_updateDisk]
            cases hc : p.crashPoint with
            | none => exact .published hlog hc
            | some point => exact .stopped hlog hc
          · rw [if_neg hch]
            exact .unchanged (Bool.not_eq_true _ ▸ hch)

/-- The files after a commit that was not stopped. -/
theorem Held.became {p : Pager} {d : Disk} {log : NodeId} (hh : Held p.path p.file log d)
    (hc : p.crashPoint = none) :
    Became p.file log d (FileEffect.performAll p.file log p.commitEffects d)
      (patchAll p.pageSize p.mainWrites (d.readAll p.file)) [] := by
  rw [commitEffects_eq, hc, if_neg (by simp), if_pos rfl, FileEffect.performAll_append]
  have happend := (Became.refl p.file log d).performAll_append hh p.logEntries
  have hall := (happend.append hh (Log.frame p.commitMark.encode)).performAll_write hh p.pageSize
    p.mainWrites
  show Became _ _ _ (FileEffect.performAll _ _ (_ ++ [.clear]) (FileEffect.perform _ _ _ _)) _ _
  rw [FileEffect.performAll_append]
  exact hall.clear hh

section

variable {p : Pager} {d d' : Disk}

/-- Whatever is cached after a commit is what the file shows. -/
theorem Tidy.mirrors_published (h : p.Tidy) (hm : Mirrors p d)
    (hcar : Carried p (d.readAll p.file) (d'.readAll p.file)) : Mirrors p.published d' := by
  refine ⟨fun id page hp => ?_, hm.cache.foldl_insert _⟩
  -- A cached page was committed now, or has not been dirty since it was cached.
  rcases Cache.getElem?_foldl_insert _ hm.cache hp with ⟨hmem, rfl⟩ | ⟨hne, hold⟩
  · have hdirty := h.mem_dirtyPages.1 hmem
    exact ⟨(h.current.sound page.id page hdirty).2.1, hcar.fromFile_dirty h hdirty⟩
  · obtain ⟨h0, hfile⟩ := hm.cached id page hold
    refine ⟨h0, ?_⟩
    obtain ⟨-, hlen, -⟩ := fromFile_eq_ok hfile
    have hid : id ∉ p.dirty := fun hm => by
      obtain ⟨pg, hpg⟩ := PageMap.mem_iff.1 hm
      obtain ⟨rfl, -⟩ := h.current.sound id pg hpg
      exact hne pg (h.mem_dirtyPages.2 hpg) rfl
    have hkept :=
      hcar.spares.fromFile_kept h0 hid (offset_add_le hlen h.transaction_writable.pos rfl)
    exact hkept.trans hfile

/-- What a pager shows after a commit is what it showed before. -/
theorem Ready.view_published (h : Ready p d) (hcov : p.Covered d)
    (hcar : Carried p (d.readAll p.file) (d'.readAll p.file)) (id : PageId) :
    p.published.view d' id = p.view d id := by
  have hnew : p.published.view d' id =
      if p.inRange id then fromFile p.file p.pageSize d' id
      else .error (.corrupt s!"page {id} out of range") := rfl
  rw [hnew]
  by_cases hr : p.inRange id = true
  · rw [if_pos hr]
    exact hcar.fromFile_eq h.tidy (hcov id) (inRange_iff.1 hr).1 (inRange_iff.1 hr).2
  · rw [if_neg hr]
    exact (if_neg hr).symm

/-- **After a commit the pager is ready** and shows the same pages as before. -/
theorem Ready.published (h : Ready p d) {log : NodeId} (hlog : p.log = some log)
    (hh : Held p.path p.file log d) (hc : p.crashPoint = none) (hcov : p.Covered d)
    (hcheck : p.nextHeader.check = .ok p.nextHeader) :
    Ready p.published (FileEffect.performAll p.file log p.commitEffects d) ∧
      p.published.face (FileEffect.performAll p.file log p.commitEffects d) =
        (p.face d).withHeader p.nextHeader := by
  have hb := hh.became hc
  generalize FileEffect.performAll p.file log p.commitEffects d = d' at hb
  have hcar : Carried p (d.readAll p.file) (d'.readAll p.file) := by
    rw [hb.file]
    exact h.tidy.carried_mainWrites hc _
  have hmirrors := h.tidy.mirrors_published h.mirrors hcar
  constructor
  · refine ⟨h.usable, ⟨log, hlog, hh.of_shape hb.shape, hb.log⟩, hcar.stored h.tidy hcov hcheck,
      h.current.size_eq, ⟨h.current.size_eq, ?_⟩, ?_, hmirrors.cached, hmirrors.cache⟩
    · intro id page hp
      simp [Pager.published] at hp
    · rintro hm ⟨⟩
  · rw [face, face, Face.withHeader]
    congr 1
    funext id
    exact h.view_published hcov hcar id

end

end Pager

end PagedStore
