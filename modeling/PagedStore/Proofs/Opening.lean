import PagedStore.Proofs.Commits

/-!
# What opening a file leads to

Opening finds the file and locks it, carries out what the log holds, empties the log and reads the
header. Whenever this succeeds for a writer the pager that comes of it is ready; and it does
succeed on a file that has a header and all its pages once the log has been carried out.
-/

set_option autoImplicit false

namespace PagedStore.Pager

open PagedStore.Action Bytes

/-! ## The file and its lock -/

/-- The name of the log is not that of the file. -/
theorem pathFor_ne (path : String) : Log.pathFor path ≠ path := by
  intro h
  have := congrArg String.length h
  rw [Log.pathFor, String.length_append] at this
  exact absurd this (by simp)

/-- A file in the hands of one writer, whatever has become of its log. -/
structure Claimed (path : String) (file : NodeId) (d : Disk) : Prop where
  named : d.find? path = some file
  live : file < d.nodes.size
  plain : (d.node file).isFolder = false
  locked : (d.node file).lock = .exclusive
  log : ∀ log, d.find? (Log.pathFor path) = some log → log ≠ file ∧ log < d.nodes.size

theorem Claimed.of_shape {path : String} {file : NodeId} {d d' : Disk} (h : Claimed path file d)
    (hs : Disk.SameShape d d') : Claimed path file d' where
  named := (hs.find? path).trans h.named
  live := hs.size ▸ h.live
  plain := (hs.folder file).trans h.plain
  locked := (hs.lock file).trans h.locked
  log n hn := by
    rw [hs.size]
    exact h.log n ((hs.find? _).symm.trans hn)

theorem exec_openFile {path : String} {o : Options} (ho : o.readOnly = false) (d : Disk) :
    (openFile path o).exec () d =
      if !d.hasName path && !o.createIfMissing then
        (.error (.cannotOpen (path ++ " does not exist")), (), d)
      else if d.hasName path && o.errorIfExists then
        (.error (.alreadyExists ("database already exists: " ++ path)), (), d)
      else
        match d.openToWrite path with
        | .error f => (.error (.cannotOpen (path ++ ": " ++ f.text)), (), d)
        | .ok (file, d₁) =>
            match d₁.tryLock file true with
            | none => (.error (.busy (path ++ " is in use by another handle")), (), d₁)
            | some d₂ => (.ok file, (), d₂) := by
  rw [openFile, exec_bind, exec_disk]
  simp only [ho, Bool.false_or, Bool.not_false, Bool.false_eq_true, if_false]
  split
  · rfl
  · split
    · rfl
    · cases d.openToWrite path with
      | error f => rfl
      | ok nd =>
          obtain ⟨file, d₁⟩ := nd
          simp only [exec_bind, exec_updateDisk]
          cases d₁.tryLock file true <;> rfl

/-- What is known when a file could be opened. -/
theorem openFile_eq_ok {path : String} {o : Options} {d d' : Disk} {file : NodeId}
    (ho : o.readOnly = false) (h : (openFile path o).exec () d = (.ok file, (), d')) :
    ∃ d₁, d.openToWrite path = .ok (file, d₁) ∧
      d' = d₁.modify file fun x => { x with lock := .exclusive } := by
  rw [exec_openFile ho] at h
  split at h
  · cases h
  split at h
  · cases h
  split at h
  · cases h
  rename_i n d₁ hopen
  split at h
  · cases h
  rename_i d₂ hlock
  obtain ⟨rfl, -, rfl⟩ : n = file ∧ () = () ∧ d₂ = d' := by simpa using h
  exact ⟨d₁, hopen, Disk.tryLock_eq_some hlock⟩

/-- Opening takes the one lock on the file. -/
theorem claimed_of_openFile {path : String} {o : Options} {d d' : Disk} {file : NodeId}
    (hlive : d.NamesLive) (hapart : d.NamesApart) (ho : o.readOnly = false)
    (h : (openFile path o).exec () d = (.ok file, (), d')) : Claimed path file d' := by
  obtain ⟨d₁, hopen, rfl⟩ := openFile_eq_ok ho h
  rcases Disk.openToWrite_eq_ok hopen with ⟨hname, hplain, rfl⟩ | ⟨hname, rfl, rfl⟩
  · -- The file was there; its log has another name, hence another node.
    have hlt := hlive _ _ hname
    refine ⟨hname, by rwa [Disk.size_nodes_modify], ?_, ?_, ?_⟩
    · rw [Disk.node_modify_self hlt]
      exact hplain
    · rw [Disk.node_modify_self hlt]
    · intro log hlog
      refine ⟨?_, by simpa using hlive _ _ hlog⟩
      rintro rfl
      exact pathFor_ne path (hapart _ _ _ hlog hname)
  · -- The file is made, on a node behind all that are there.
    have hlt : d.nodes.size < (d.make path false).2.nodes.size := by
      rw [Disk.size_nodes_make]
      exact Nat.lt_succ_self _
    refine ⟨Disk.find?_make_self d path false, by rwa [Disk.size_nodes_modify], ?_, ?_, ?_⟩
    · rw [Disk.node_modify_self hlt, Disk.node_make_self]
    · rw [Disk.node_modify_self hlt]
    · intro log hlog
      rw [Disk.find?_modify, Disk.find?_make_of_ne d (pathFor_ne path)] at hlog
      have hlog := hlive _ _ hlog
      refine ⟨Nat.ne_of_lt hlog, ?_⟩
      rw [Disk.size_nodes_modify, Disk.size_nodes_make]
      exact Nat.lt_succ_of_lt hlog

/-! ## Carrying out the log -/

/-- Nothing but the contents of one file has changed. -/
structure OnlyFile (file : NodeId) (d d' : Disk) : Prop where
  shape : Disk.SameShape d d'
  others : ∀ n, n ≠ file → d'.readAll n = d.readAll n

theorem OnlyFile.refl (file : NodeId) (d : Disk) : OnlyFile file d d := ⟨.refl d, fun _ _ => rfl⟩

theorem OnlyFile.trans {file : NodeId} {d₁ d₂ d₃ : Disk} (h₁ : OnlyFile file d₁ d₂)
    (h₂ : OnlyFile file d₂ d₃) : OnlyFile file d₁ d₃ :=
  ⟨h₁.shape.trans h₂.shape, fun n hn => (h₂.others n hn).trans (h₁.others n hn)⟩

theorem OnlyFile.write (file : NodeId) (d : Disk) (at' : Nat) (bs : Bytes) :
    OnlyFile file d (d.write file at' bs) :=
  ⟨.write .., fun _ hn => Disk.readAll_modify_of_ne hn _⟩

theorem keeps_write (file : NodeId) (d₀ : Disk) (at' : Nat) (bs : Bytes) :
    Keeps (fun (_ : Unit) d => OnlyFile file d₀ d)
      (updateDisk fun d => d.write file at' bs : Action Unit Unit) :=
  fun _ _ h => h.trans (.write ..)

theorem keeps_replayPages (file : NodeId) (d₀ : Disk) (ps : Nat) (pages : List (PageId × Bytes)) :
    Keeps (fun (_ : Unit) d => OnlyFile file d₀ d) (replayPages file ps pages) := by
  induction pages with
  | nil => exact .pure ()
  | cons x pages ih =>
      exact .bind (.ofResult _) fun _ => .bind (keeps_write _ _ _ _) fun _ => ih

/-- Carrying out the log changes the main file alone, even when it fails. -/
theorem keeps_replay (file : NodeId) (d₀ : Disk) (ts : List Log.Transaction) :
    Keeps (fun (_ : Unit) d => OnlyFile file d₀ d) (replay file ts) := by
  induction ts with
  | nil => exact .pure ()
  | cons t ts ih =>
      exact .bind (.ofResult _) fun _ => .bind (keeps_replayPages _ _ _ _) fun _ =>
        .bind (keeps_write _ _ _ _) fun _ => ih

/-- Images that are as long as a page are written, one after the other. -/
theorem exec_replayPages (file : NodeId) {ps : Nat} {pages : List (PageId × Bytes)}
    (hlen : ∀ x ∈ pages, x.2.length = ps) (d : Disk) :
    (replayPages file ps pages).exec () d =
      (.ok (), (), pages.foldl (fun d x => d.write file (offset ps x.1) x.2) d) := by
  induction pages generalizing d with
  | nil => rfl
  | cons x pages ih =>
      have hcheck : checkImage x.1 x.2 ps = .ok () := if_pos (hlen x List.mem_cons_self)
      obtain ⟨id, image⟩ := x
      rw [replayPages, hcheck]
      exact ih (fun y hy => hlen y (List.mem_cons_of_mem _ hy)) _

theorem readAll_foldl_write {file : NodeId} (ps : Nat) (pages : List (PageId × Bytes)) (d : Disk)
    (hlive : file < d.nodes.size) :
    file < (pages.foldl (fun d x => d.write file (offset ps x.1) x.2) d).nodes.size ∧
      (pages.foldl (fun d x => d.write file (offset ps x.1) x.2) d).readAll file =
        patchAll ps pages (d.readAll file) := by
  induction pages generalizing d with
  | nil => exact ⟨hlive, rfl⟩
  | cons x pages ih =>
      have hrest := ih (d.write file (offset ps x.1) x.2) (by rwa [Disk.size_nodes_write])
      rwa [Disk.readAll_write_self hlive] at hrest

/-- What carrying out one transaction makes of the main file. -/
theorem exec_replay_single {file : NodeId} {t : Log.Transaction} {h : Header}
    (hd : Header.decode t.header = .ok h)
    (hlen : ∀ x ∈ t.pages, x.2.length = h.pageSize.toNat) (d : Disk)
    (hlive : file < d.nodes.size) :
    ∃ d', (replay file [t]).exec () d = (.ok (), (), d') ∧
      d'.readAll file = patch 0 t.header (patchAll h.pageSize.toNat t.pages (d.readAll file)) := by
  have hexec := exec_replayPages file hlen d
  obtain ⟨hlive₁, hall⟩ := readAll_foldl_write h.pageSize.toNat t.pages d hlive
  generalize List.foldl _ d t.pages = d₁ at hexec hlive₁ hall
  refine ⟨d₁.write file 0 t.header, ?_, ?_⟩
  · rw [replay, exec_bind, exec_ofResult, hd]
    dsimp only
    rw [exec_bind_ok hexec]
    rfl
  · rw [Disk.readAll_write_self hlive₁, hall]

/-! ## The log -/

/-- A log that was opened is empty, and the main file is as it was. -/
theorem held_of_openLog {path : String} {file log : NodeId} {d d' : Disk}
    (hc : Claimed path file d) (h : (openLog (Log.pathFor path)).exec () d = (.ok log, (), d')) :
    Held path file log d' ∧ d'.readAll log = [] ∧ d'.readAll file = d.readAll file := by
  rw [openLog, exec_bind, exec_disk] at h
  dsimp only [Log.Writer.create] at h
  cases hopen : d.openToWrite (Log.pathFor path) with
  | error f =>
      rw [hopen] at h
      cases h
  | ok nd =>
      obtain ⟨n, d₁⟩ := nd
      rw [hopen] at h
      have hpair : n = log ∧ d₁.truncate n 0 = d' := by
        have := Prod.mk.inj h
        exact ⟨Except.ok.inj this.1, (Prod.mk.inj this.2).2⟩
      obtain ⟨rfl, rfl⟩ := hpair
      have hshape := Disk.SameShape.truncate d₁ n 0
      rcases Disk.openToWrite_eq_ok hopen with ⟨hname, hplain, rfl⟩ | ⟨hname, rfl, rfl⟩
      · -- A log that was there is emptied.
        obtain ⟨hne, hlt⟩ := hc.log n hname
        have hheld : Held path file n d₁ :=
          ⟨hc.named, hname, hne, hc.live, hlt, hc.plain, hplain, hc.locked⟩
        have hb := (Became.refl file n d₁).clear hheld
        exact ⟨hheld.of_shape hb.shape, hb.log, hb.file⟩
      · -- A log that is made gets a node of its own.
        have hnode := Disk.node_make_of_lt d hc.live (Log.pathFor path) false
        have hself := Disk.node_make_self d (Log.pathFor path) false
        have hheld : Held path file d.nodes.size (d.make (Log.pathFor path) false).2 := by
          refine ⟨?_, Disk.find?_make_self d _ false, Nat.ne_of_gt hc.live, ?_, ?_, ?_, ?_, ?_⟩
          · rw [Disk.find?_make_of_ne d (pathFor_ne path).symm]
            exact hc.named
          · rw [Disk.size_nodes_make]
            exact Nat.lt_succ_of_lt hc.live
          · rw [Disk.size_nodes_make]
            exact Nat.lt_succ_self _
          · rw [hnode]
            exact hc.plain
          · rw [hself]
          · rw [hnode]
            exact hc.locked
        have hb := (Became.refl file d.nodes.size _).clear hheld
        refine ⟨hheld.of_shape hb.shape, hb.log, hb.file.trans ?_⟩
        rw [Disk.readAll, hnode, Disk.readAll]

theorem exec_openLog {path : String} {file log : NodeId} {d : Disk} (hh : Held path file log d) :
    (openLog (Log.pathFor path)).exec () d = (.ok log, (), d.truncate log 0) := by
  have hopen : d.openToWrite (Log.pathFor path) = .ok (log, d) := by
    rw [Disk.openToWrite, hh.logNamed]
    dsimp only
    rw [hh.logPlain]
    rfl
  rw [openLog, exec_bind, exec_disk]
  dsimp only [Log.Writer.create]
  rw [hopen]
  rfl

/-! ## The header -/

theorem readHeader_of_stored {file : NodeId} {h : Header} {d : Disk}
    (hplain : (d.node file).isFolder = false) (hs : Stored file h d) :
    (readHeader file).exec () d = (.ok h, (), d) := by
  have hread : d.read file 0 Header.encodedLength =
      (d.readAll file).take Header.encodedLength := Disk.read_eq_slice ..
  have hlen : ¬ ((d.readAll file).take Header.encodedLength).length < Header.encodedLength := by
    rw [List.length_take, Nat.min_eq_left hs.header_le]
    exact Nat.lt_irrefl _
  have hlong : ¬ d.size file < h.pageCount.toNat * h.pageSize.toNat :=
    Nat.not_lt_of_le hs.long
  rw [readHeader, exec_bind, exec_disk]
  simp only [hplain, hread, Bool.false_eq_true, if_false, if_neg hlen, exec_bind, exec_ofResult,
    hs.front, if_neg hlong, exec_pure]

/-- A file that holds a header and its pages is opened with that header. -/
theorem openHeader_of_stored {file : NodeId} {h : Header} {d : Disk} {o : Options}
    (hplain : (d.node file).isFolder = false) (hs : Stored file h d) :
    (openHeader file o).exec () d = (.ok h, (), d) := by
  have hsize : (d.node file).contents.size ≠ 0 := by
    have hle : Header.encodedLength ≤ (d.node file).contents.size := hs.header_le
    have h52 : Header.encodedLength = 52 := rfl
    omega
  rw [openHeader, exec_bind, exec_disk]
  simp only [decide_eq_false hsize, Bool.false_and, Bool.false_eq_true, if_false]
  exact readHeader_of_stored hplain hs

theorem stored_of_readHeader {file : NodeId} {h : Header} {d d' : Disk}
    (hread : (readHeader file).exec () d = (.ok h, (), d')) : Stored file h d' ∧ d' = d := by
  have heq : d.read file 0 Header.encodedLength =
      (d.readAll file).take Header.encodedLength := Disk.read_eq_slice ..
  rw [readHeader, exec_bind, exec_disk] at hread
  simp only [heq] at hread
  split at hread
  · cases hread
  split at hread
  · cases hread
  cases hd : Header.decode ((d.readAll file).take Header.encodedLength) with
  | error e =>
      rw [hd] at hread
      cases hread
  | ok h' =>
      rw [hd, exec_bind, exec_ofResult] at hread
      dsimp only at hread
      split at hread
      · cases hread
      · rename_i hlong
        cases hread
        exact ⟨⟨hd, Nat.le_of_not_lt hlong⟩, rfl⟩

theorem pageSize_fresh {n : Nat} (hp : n ∈ pageSizes) : (Header.fresh n).pageSize.toNat = n :=
  UInt32.toNat_ofNat_of_lt' (Nat.lt_of_le_of_lt (pageSize_bounds hp).2 (by decide))

/-- The header of a new file passes its own check. -/
theorem check_fresh {n : Nat} (hp : n ∈ pageSizes) :
    (Header.fresh n).check = .ok (Header.fresh n) := by
  have hcount : (1 : UInt32) ≠ 0 := by decide
  have hzero : (0 : UInt32) < 1 := by decide
  refine Header.check_eq_ok.2 ⟨rfl, ?_, hcount, hzero, hzero, hzero⟩
  rw [pageSize_fresh hp]
  exact hp

/-- A file into which the header of a new file was written stores it. -/
theorem stored_fresh {file : NodeId} {d : Disk} (hlive : file < d.nodes.size) {n : Nat}
    (hp : n ∈ pageSizes) :
    Stored file (Header.fresh n) (d.write file 0 (Header.fresh n).encode) := by
  have hb := pageSize_bounds hp
  have hsize := pageSize_fresh hp
  have h52 : Header.encodedLength = 52 := rfl
  have hlen : (Header.fresh n).encode.length = n := by rw [Header.length_encode, hsize]
  have hfront : slice 0 n ((d.write file 0 (Header.fresh n).encode).readAll file) =
      (Header.fresh n).encode := by
    rw [Disk.readAll_write_self hlive]
    exact slice_patch_self hlen (by omega) _
  constructor
  · rw [Header.decode_of_take (h := Header.fresh n), check_fresh hp]
    rw [List.take_take, Nat.min_self, ← slice_zero, ← take_slice (n := n) (by omega) 0, hfront,
      Header.take_encode (by omega)]
  · -- A new file has one page, and the header fills it.
    have hlong := congrArg List.length hfront
    rw [length_slice, hlen] at hlong
    rw [hsize]
    show 1 * n ≤ _
    omega

/-- A header that was read, or given to an empty file, is stored. -/
theorem stored_of_openHeader {file : NodeId} {h : Header} {d d' : Disk} {o : Options}
    (hlive : file < d.nodes.size) (ho : o.readOnly = false) (hp : o.pageSize ∈ pageSizes)
    (hopen : (openHeader file o).exec () d = (.ok h, (), d')) :
    Stored file h d' ∧ OnlyFile file d d' := by
  rw [openHeader, exec_bind, exec_disk] at hopen
  dsimp only at hopen
  split at hopen
  · -- The empty file is given the header of a new one.
    rw [ho] at hopen
    have hpair : Header.fresh o.pageSize = h ∧
        d.write file 0 (Header.fresh o.pageSize).encode = d' := by
      have := Prod.mk.inj hopen
      exact ⟨Except.ok.inj this.1, (Prod.mk.inj this.2).2⟩
    obtain ⟨rfl, rfl⟩ := hpair
    exact ⟨stored_fresh hlive hp, .write ..⟩
  · obtain ⟨hs, rfl⟩ := stored_of_readHeader hopen
    exact ⟨hs, .refl file d'⟩

/-! ## Opening -/

/-- A pager that begins with a stored header is ready. -/
theorem ready_ofHeader {path : String} {file log : NodeId} {d : Disk} {h : Header} {o : Options}
    (hh : Held path file log d) (hempty : d.readAll log = []) (hs : Stored file h d) :
    Ready (ofHeader path file (some log) o h) d := by
  refine ⟨rfl, ⟨log, rfl, hh, hempty⟩, hs, rfl, ⟨rfl, ?_⟩, ?_, ?_, Cache.sound_empty _⟩
  · intro id page hp
    simp [ofHeader] at hp
  · rintro hm ⟨⟩
  · intro id page hp
    simp [ofHeader] at hp

/-- The steps of opening a file that is locked. -/
theorem openLocked_eq_ok {path : String} {file : NodeId} {o : Options} {d d' : Disk} {p : Pager}
    (ho : o.readOnly = false) (h : (openLocked path file o).exec () d = (.ok p, (), d')) :
    ∃ recovery d₂ log d₃ hd, Log.recoverFile (Log.pathFor path) d = .ok recovery ∧
      (replay file recovery.committed).exec () d = (.ok (), (), d₂) ∧
      (openLog (Log.pathFor path)).exec () d₂ = (.ok log, (), d₃) ∧
      (openHeader file o).exec () d₃ = (.ok hd, (), d') ∧
      p = ofHeader path file (some log) o hd := by
  rw [openLocked, exec_bind, exec_disk] at h
  obtain ⟨recovery, ⟨⟩, d₁, h₁, h⟩ := of_exec_bind_ok h
  rw [exec_ofResult] at h₁
  obtain ⟨hrecovery, hrest⟩ := Prod.mk.inj h₁
  obtain rfl : d = d₁ := (Prod.mk.inj hrest).2
  rw [ho] at h
  obtain ⟨⟨⟩, ⟨⟩, d₂, h₂, h⟩ := of_exec_bind_ok h
  obtain ⟨log, ⟨⟩, d₃, h₃, h⟩ := of_exec_bind_ok h
  obtain ⟨hd, ⟨⟩, d₄, h₄, h⟩ := of_exec_bind_ok h
  obtain ⟨rfl, -, rfl⟩ := exec_ok_inj h
  exact ⟨recovery, d₂, log, d₃, hd, hrecovery, h₂, h₃, h₄, rfl⟩

theorem ready_of_openLocked {path : String} {file : NodeId} {o : Options} {d d' : Disk} {p : Pager}
    (hc : Claimed path file d) (ho : o.readOnly = false) (hp : o.pageSize ∈ pageSizes)
    (h : (openLocked path file o).exec () d = (.ok p, (), d')) :
    ∃ log hd, p = ofHeader path file (some log) o hd ∧ Ready p d' := by
  obtain ⟨recovery, d₂, log, d₃, hd, -, h₂, h₃, h₄, rfl⟩ := openLocked_eq_ok ho h
  -- Carrying out the log and opening it leave the lock and the names as they were.
  have hreplayed := keeps_replay file d recovery.committed () d (.refl file d)
  rw [h₂] at hreplayed
  obtain ⟨hheld, hempty, -⟩ := held_of_openLog (hc.of_shape hreplayed.shape) h₃
  obtain ⟨hstored, hheader⟩ := stored_of_openHeader hheld.live ho hp h₄
  refine ⟨log, hd, rfl, ready_ofHeader (hheld.of_shape hheader.shape) ?_ hstored⟩
  rw [hheader.others log hheld.apart, hempty]

/-- Opening takes the lock first. -/
theorem open_eq_ok {path : String} {o : Options} {d d' : Disk} {p : Pager}
    (h : («open» path o).exec () d = (.ok p, (), d')) :
    ∃ file d₁, (openFile path o).exec () d = (.ok file, (), d₁) ∧
      (openLocked path file o).exec () d₁ = (.ok p, (), d') := by
  obtain ⟨file, ⟨⟩, d₁, hfile, h⟩ := of_exec_bind_ok h
  rw [exec_bind, exec_attempt] at h
  match hl : (openLocked path file o).exec () d₁ with
  | (.error e, (), d₂) =>
      rw [hl] at h
      cases h
  | (.ok q, (), d₂) =>
      rw [hl] at h
      obtain ⟨rfl, -, rfl⟩ := exec_ok_inj h
      exact ⟨file, d₁, hfile, hl⟩

/-- **A pager that was opened for writing is ready**, and has changed nothing yet. -/
theorem ready_of_open {path : String} {o : Options} {d d' : Disk} {p : Pager}
    (hlive : d.NamesLive) (hapart : d.NamesApart) (ho : o.readOnly = false)
    (hp : o.pageSize ∈ pageSizes) (h : («open» path o).exec () d = (.ok p, (), d')) :
    ∃ file log hd, p = ofHeader path file (some log) o hd ∧ Ready p d' := by
  obtain ⟨file, d₁, hfile, hlocked⟩ := open_eq_ok h
  have hclaimed := claimed_of_openFile hlive hapart ho hfile
  exact ⟨file, ready_of_openLocked hclaimed ho hp hlocked⟩

/-- Options that are accepted have a page size of the format. -/
theorem pageSize_of_validate {o : Options} (h : o.validate = .ok ()) : o.pageSize ∈ pageSizes := by
  rw [Options.validate] at h
  split at h
  · cases h
  · rename_i hp
    exact not_not.1 hp

/-! ## Opening again -/

/-- A database file and its log under their names, and nobody who has them open. -/
structure Closed (path : String) (file log : NodeId) (d : Disk) : Prop where
  named : d.find? path = some file
  logNamed : d.find? (Log.pathFor path) = some log
  apart : log ≠ file
  live : file < d.nodes.size
  logLive : log < d.nodes.size
  plain : (d.node file).isFolder = false
  logPlain : (d.node log).isFolder = false
  unlocked : (d.node file).lock = .free

/-- A change of a node that is none of its contents leaves what all files hold alone. -/
theorem readAll_modify {d : Disk} {n : NodeId} (hn : n < d.nodes.size) {f : Node → Node}
    (hf : ∀ x, (f x).contents = x.contents) (m : NodeId) : (d.modify n f).readAll m = d.readAll m := by
  by_cases hm : m = n
  · rw [hm, Disk.readAll, Disk.node_modify_self hn, hf, Disk.readAll]
  · exact Disk.readAll_modify_of_ne hm _

/-- Giving a file back leaves it closed. -/
theorem Held.closed {path : String} {file log : NodeId} {d : Disk} (h : Held path file log d) :
    Closed path file log (d.unlock file) := by
  refine ⟨h.named, h.logNamed, h.apart, ?_, ?_, ?_, ?_, ?_⟩
  · rw [Disk.unlock, Disk.size_nodes_modify]
    exact h.live
  · rw [Disk.unlock, Disk.size_nodes_modify]
    exact h.logLive
  · rw [Disk.unlock, Disk.node_modify_self h.live]
    exact h.plain
  · rw [Disk.unlock, Disk.node_modify_of_ne h.apart]
    exact h.logPlain
  · rw [Disk.unlock, Disk.node_modify_self h.live, h.locked]

/-- Opening takes the lock on a closed file. -/
theorem Closed.exec_openFile {path : String} {file log : NodeId} {d : Disk}
    (h : Closed path file log d) {o : Options} (ho : o.readOnly = false)
    (he : o.errorIfExists = false) :
    ∃ d', (openFile path o).exec () d = (.ok file, (), d') ∧ Held path file log d' ∧
      ∀ n, d'.readAll n = d.readAll n := by
  have hthere : d.hasName path = true := by
    rw [Disk.hasName, h.named]
    rfl
  have hopen : d.openToWrite path = .ok (file, d) := by
    rw [Disk.openToWrite, h.named]
    dsimp only
    rw [h.plain]
    rfl
  have hlock : d.tryLock file true = some (d.modify file fun x => { x with lock := .exclusive }) := by
    unfold Disk.tryLock
    rw [h.unlocked]
  refine ⟨d.modify file fun x => { x with lock := .exclusive }, ?_, ?_, ?_⟩
  · rw [Pager.exec_openFile ho, hthere, he, hopen]
    dsimp only
    rw [hlock]
    rfl
  · refine ⟨h.named, h.logNamed, h.apart, ?_, ?_, ?_, ?_, ?_⟩
    · rw [Disk.size_nodes_modify]
      exact h.live
    · rw [Disk.size_nodes_modify]
      exact h.logLive
    · rw [Disk.node_modify_self h.live]
      exact h.plain
    · rw [Disk.node_modify_of_ne h.apart]
      exact h.logPlain
    · rw [Disk.node_modify_self h.live]
  · exact readAll_modify h.live fun _ => rfl

/-- The log of a file that is held, as opening finds it. -/
theorem Held.recoverFile {path : String} {file log : NodeId} {d : Disk}
    (h : Held path file log d) :
    Log.recoverFile (Log.pathFor path) d = .ok (Log.recover (d.readAll log)) := by
  rw [Log.recoverFile, h.logNamed]
  dsimp only
  rw [h.logPlain]
  rfl

/-- Opening a file whose log exists, step by step. -/
theorem exec_open_of_steps {path : String} {o : Options} {file log : NodeId} {hd : Header}
    {d d₁ d₂ d₃ : Disk} (hfile : (openFile path o).exec () d = (.ok file, (), d₁))
    (hh : Held path file log d₁) (ho : o.readOnly = false)
    (hreplay : (replay file (Log.recover (d₁.readAll log)).committed).exec () d₁ =
      (.ok (), (), d₂))
    (hheader : (openHeader file o).exec () (d₂.truncate log 0) = (.ok hd, (), d₃)) :
    («open» path o).exec () d = (.ok (ofHeader path file (some log) o hd), (), d₃) := by
  have hreplayed := keeps_replay file d₁ (Log.recover (d₁.readAll log)).committed () d₁
    (.refl file d₁)
  rw [hreplay] at hreplayed
  have hlocked : (openLocked path file o).exec () d₁ =
      (.ok (ofHeader path file (some log) o hd), (), d₃) := by
    rw [openLocked, exec_bind, exec_disk]
    dsimp only
    rw [hh.recoverFile, exec_bind, exec_ofResult]
    dsimp only
    rw [ho, if_neg (by simp), exec_bind_ok hreplay,
      exec_bind_ok (exec_openLog (hh.of_shape hreplayed.shape)), exec_bind_ok hheader]
    rfl
  rw [«open», exec_bind_ok hfile, exec_bind, exec_attempt, hlocked]
  rfl

/-- **A writer can open a closed file** when carrying out its log leads to a file that has a
header and all its pages. -/
theorem Closed.exec_open {path : String} {file log : NodeId} {d : Disk}
    (h : Closed path file log d) {o : Options} (ho : o.readOnly = false)
    (he : o.errorIfExists = false) {hd : Header} {main : Bytes}
    (hreplay : ∀ d₁, file < d₁.nodes.size → d₁.readAll file = d.readAll file →
      ∃ d₂, (replay file (Log.recover (d.readAll log)).committed).exec () d₁ = (.ok (), (), d₂) ∧
        d₂.readAll file = main ∧ Stored file hd d₂) :
    ∃ d', («open» path o).exec () d = (.ok (ofHeader path file (some log) o hd), (), d') ∧
      Ready (ofHeader path file (some log) o hd) d' ∧ d'.readAll file = main ∧
      d'.readAll log = [] := by
  obtain ⟨d₁, hfile, hheld, hsame⟩ := h.exec_openFile ho he
  obtain ⟨d₂, hexec, hmain, hstored⟩ := hreplay d₁ hheld.live (hsame file)
  have hreplayed := keeps_replay file d₁ (Log.recover (d.readAll log)).committed () d₁
    (.refl file d₁)
  rw [hexec] at hreplayed
  rw [← hsame] at hexec
  have hheld₂ := hheld.of_shape hreplayed.shape
  have hb := (Became.refl file log d₂).clear hheld₂
  have hheld₃ := hheld₂.of_shape hb.shape
  have hstored₃ : Stored file hd (d₂.truncate log 0) := hstored.of_contents hb.file
  exact ⟨d₂.truncate log 0,
    exec_open_of_steps hfile hheld ho hexec (openHeader_of_stored hheld₃.plain hstored₃),
    ready_ofHeader hheld₃ hb.log hstored₃, hb.file.trans hmain, hb.log⟩

/-- A writer can open an empty file, which is given the header of a new one. -/
theorem Closed.exec_open_empty {path : String} {file log : NodeId} {d : Disk}
    (h : Closed path file log d) {o : Options} (ho : o.readOnly = false)
    (he : o.errorIfExists = false) (hmain : d.readAll file = []) (hlog : d.readAll log = []) :
    ∃ d', («open» path o).exec () d =
      (.ok (ofHeader path file (some log) o (Header.fresh o.pageSize)), (), d') := by
  obtain ⟨d₁, hfile, hheld, hsame⟩ := h.exec_openFile ho he
  have hreplay : (replay file (Log.recover (d₁.readAll log)).committed).exec () d₁ =
      (.ok (), (), d₁) := by
    rw [hsame, hlog, Log.recover_nil]
    rfl
  have hb := (Became.refl file log d₁).clear hheld
  have hsize : ((d₁.truncate log 0).node file).contents.size = 0 := by
    have := congrArg List.length hb.file
    rw [hsame, hmain] at this
    exact this
  have hheader : (openHeader file o).exec () (d₁.truncate log 0) =
      (.ok (Header.fresh o.pageSize), (),
        (d₁.truncate log 0).write file 0 (Header.fresh o.pageSize).encode) := by
    rw [openHeader, exec_bind, exec_disk]
    simp only [hsize, (hheld.of_shape hb.shape).plain, ho, decide_true, Bool.not_false,
      Bool.and_self, if_true]
    rfl
  exact ⟨_, exec_open_of_steps hfile hheld ho hreplay hheader⟩

end PagedStore.Pager
