import PagedStore.Proofs.CrashedReaders
import PagedStore.Proofs.EngineContents

/-!
# Databases that may only be read

A database that has been given back leaves files in which a reader finds the records that a writer
would find who opened them (`Engine.Lasts.reads`), whoever else reads them at the same time. Nothing
of what the reader is used for changes that.
-/

set_option autoImplicit false

namespace PagedStore

open PagedStore.Action Bytes

/-! ## The same files in other hands -/

/-- Two disks with the same files under the same names; the locks on them may differ. -/
structure Disk.SameFiles (d d' : Disk) : Prop where
  names : d'.names = d.names
  folder : ∀ n, (d'.node n).isFolder = (d.node n).isFolder
  contents : ∀ n, d'.readAll n = d.readAll n

namespace Disk.SameFiles

theorem refl (d : Disk) : SameFiles d d := ⟨rfl, fun _ => rfl, fun _ => rfl⟩

theorem trans {d₁ d₂ d₃ : Disk} (h : SameFiles d₁ d₂) (h' : SameFiles d₂ d₃) : SameFiles d₁ d₃ :=
  ⟨h'.names.trans h.names, fun n => (h'.folder n).trans (h.folder n),
    fun n => (h'.contents n).trans (h.contents n)⟩

theorem find? {d d' : Disk} (h : SameFiles d d') (name : String) :
    d'.find? name = d.find? name := by
  rw [Disk.find?, Disk.find?, h.names]

theorem blank {d d' : Disk} (h : SameFiles d d') {name : String} (hd : d.Blank name) :
    d'.Blank name := by
  intro n hn
  rw [h.contents]
  exact hd n (h.find? name ▸ hn)

/-- A change of a lock changes nothing else. -/
theorem modify (d : Disk) (n : NodeId) {f : Node → Node}
    (hf : ∀ x, (f x).isFolder = x.isFolder ∧ (f x).contents = x.contents) :
    SameFiles d (d.modify n f) where
  names := rfl
  folder m := by
    simp only [Disk.modify, node, Array.getD_eq_getD_getElem?, Array.getElem?_modify]
    split <;> cases d.nodes[m]? <;> simp [hf]
  contents m := by
    simp only [readAll, Disk.modify, node, Array.getD_eq_getD_getElem?, Array.getElem?_modify]
    split <;> cases d.nodes[m]? <;> simp [hf]

theorem of_tryLock {d d' : Disk} {n : NodeId} {alone : Bool} (h : d.tryLock n alone = some d') :
    SameFiles d d' := by
  unfold Disk.tryLock at h
  split at h
  · cases h
    exact modify d n fun _ => ⟨rfl, rfl⟩
  · cases h
    exact modify d n fun _ => ⟨rfl, rfl⟩
  · cases h
    exact modify d n fun _ => ⟨rfl, rfl⟩
  · cases h

theorem release (p : Pager) (d : Disk) : SameFiles d (p.release d) :=
  modify d p.file fun _ => ⟨rfl, rfl⟩

end Disk.SameFiles

namespace Pager

section

variable {path : String} {file log : NodeId} {d d' files : Disk} {o r : Options} {p q w : Pager}

/-- A reader finds the file under its name, and changes nothing but the lock on it. -/
theorem openFile_reader_eq_ok (hr : r.readOnly = true)
    (h : (openFile path r).exec () d = (.ok file, (), d')) :
    d.find? path = some file ∧ Disk.SameFiles d d' := by
  rw [openFile, exec_bind, exec_disk] at h
  dsimp only at h
  split at h
  · cases h
  split at h
  · cases h
  rw [Disk.openToRead] at h
  cases hname : d.find? path with
  | none =>
      rw [hname] at h
      dsimp only at h
      cases hfolder : d.checkFolder path <;> rw [hfolder] at h <;> cases h
  | some n =>
      rw [hname] at h
      dsimp only [Except.map] at h
      cases hlock : d.tryLock n !r.readOnly with
      | none =>
          rw [hlock] at h
          cases h
      | some d₁ =>
          rw [hlock] at h
          cases h
          exact ⟨rfl, .of_tryLock hlock⟩

/-- What a reader has found who could open the files. -/
theorem of_open_reader (hh : Held path file log d) (hne : d.readAll file ≠ [])
    (hfiles : Disk.SameFiles d files) (hr : r.readOnly = true)
    (hopen : («open» path r).exec () files = (.ok q, (), d')) :
    ∃ hd, Stored file hd d' ∧
      overlay (Log.recover (d.readAll log)).committed (ofHeader path file none r hd) = .ok q ∧
      ∀ n, d'.readAll n = d.readAll n := by
  obtain ⟨file', d₁, hfile, hlocked⟩ := open_eq_ok hopen
  obtain ⟨hname, hsame⟩ := openFile_reader_eq_ok hr hfile
  rw [hfiles.find?, hh.named] at hname
  obtain rfl := Option.some.inj hname
  have hall := hfiles.trans hsame
  obtain ⟨recovery, hd, hrecovery, hheader, hover, rfl⟩ := openLocked_reader_eq_ok hr hlocked
  have hlog : d'.find? (Log.pathFor path) = some log := (hall.find? _).trans hh.logNamed
  have hplain : (d'.node log).isFolder = false := (hall.folder log).trans hh.logPlain
  rw [Log.recoverFile, hlog] at hrecovery
  dsimp only at hrecovery
  rw [hplain, hall.contents] at hrecovery
  obtain rfl := Except.ok.inj hrecovery
  have hne' : d'.readAll file ≠ [] := by rwa [hall.contents]
  exact ⟨hd, (stored_of_openHeader_nonempty hne' hheader).1, hover, hall.contents⟩

/-- The header that a reader finds in a file is the one it finds in another with the same front. -/
theorem header_of_front {hd hd' : Header} (hs : Stored file hd d) (hs' : Stored file hd' d')
    (hfront : frontOf (d'.readAll file) = frontOf (d.readAll file)) : hd' = hd := by
  have hdecode := hs'.front
  rw [show (d'.readAll file).take Header.encodedLength = _ from hfront] at hdecode
  exact (Except.ok.inj (hs.front.symm.trans hdecode)).symm

theorem Ready.file_ne_nil (h : Ready p d) : d.readAll p.file ≠ [] :=
  List.ne_nil_of_length_pos (Nat.lt_of_lt_of_le (by decide) h.stored.header_le)

/-- Where the log holds no whole transaction, a reader shows the file as it is. -/
theorem Reopened.displays_unlogged {marked : Prop} (hw : Reopened p d marked o w d')
    (hm : ¬ marked) (h : Ready p d) (hh : Held p.path p.file log d) {d₁ : Disk} {logged : Bytes}
    (hb : Became p.file log d d₁ (d.readAll p.file) logged)
    (hnone : (Log.recover logged).committed = []) (hfiles : Disk.SameFiles d₁ files)
    (hr : r.readOnly = true) {dr : Disk}
    (hopen : («open» p.path r).exec () files = (.ok q, (), dr)) :
    q.log = none ∧ Displays (w.face d') q dr := by
  have hne : d₁.readAll p.file ≠ [] := by
    rw [hb.file]
    exact h.file_ne_nil
  obtain ⟨hd, hstored, hover, hall⟩ := of_open_reader (hh.of_shape hb.shape) hne hfiles hr hopen
  have hmain : dr.readAll p.file = d.readAll p.file := (hall _).trans hb.file
  obtain rfl := header_of_front h.stored hstored (congrArg frontOf hmain)
  rw [hb.log, hnone] at hover
  obtain rfl := Except.ok.inj hover
  obtain ⟨hheader, hview⟩ := hw.before hm
  obtain ⟨_, hd', -, rfl⟩ := hw.alike
  obtain rfl : hd' = p.committed := hheader
  refine ⟨rfl, .of_empty rfl dr, rfl, rfl, rfl, ?_⟩
  show _ = (ofHeader p.path p.file (some _) o p.committed).view d'
  rw [hview]
  funext id
  rw [view_ofHeader, view_rolledBack, h.size_eq, fromFile_of_contents hmain]

/-- Where the log is whole, a reader lays the commit over what was done of it. -/
theorem Reopened.displays_logged {marked : Prop} (hw : Reopened p d marked o w d')
    (hm : marked) (h : Ready p d) (hcov : p.Covered d)
    (hcheck : p.nextHeader.check = .ok p.nextHeader) (hh : Held p.path p.file log d) {d₁ : Disk}
    (hspares : Spares p.pageSize p.Changes (d.readAll p.file) (d₁.readAll p.file))
    (hshape : Disk.SameShape d d₁) (hlogged : d₁.readAll log = p.transaction.logged)
    (hfront : frontOf (d₁.readAll p.file) = frontOf (d.readAll p.file))
    (hfiles : Disk.SameFiles d₁ files) (hr : r.readOnly = true) {dr : Disk}
    (hopen : («open» p.path r).exec () files = (.ok q, (), dr)) :
    q.log = none ∧ Displays (w.face d') q dr := by
  have hne : d₁.readAll p.file ≠ [] := List.ne_nil_of_length_pos
    (Nat.lt_of_lt_of_le (List.length_pos_of_ne_nil h.file_ne_nil) hspares.long)
  obtain ⟨hd, hstored, hover, hall⟩ := of_open_reader (hh.of_shape hshape) hne hfiles hr hopen
  have hfront' : frontOf (dr.readAll p.file) = frontOf (d.readAll p.file) := by
    rw [hall, hfront]
  obtain rfl := header_of_front h.stored hstored hfront'
  rw [hlogged, h.tidy.recover_logged, h.tidy.overlay_transaction hcheck rfl] at hover
  obtain rfl := Except.ok.inj hover
  rw [← hall] at hspares
  obtain ⟨hheader, hview⟩ := hw.after hm
  obtain ⟨_, hd', -, rfl⟩ := hw.alike
  obtain rfl : hd' = p.nextHeader := hheader
  have hsize : p.nextHeader.pageSize.toNat = p.pageSize := h.current.size_eq
  refine ⟨rfl, .of_empty rfl dr, rfl, rfl, h.size_eq.trans hsize.symm, ?_⟩
  show (p.overlaid r p.committed).view dr = (ofHeader p.path p.file (some _) o p.nextHeader).view d'
  rw [hview]
  exact funext fun id => view_overlaid h.size_eq hspares (hcov id)

/-- Where the log was emptied, the file shows the commit. -/
theorem Reopened.displays_carried {marked : Prop} (hw : Reopened p d marked o w d')
    (hm : marked) (h : Ready p d) (hcov : p.Covered d)
    (hcheck : p.nextHeader.check = .ok p.nextHeader) (hh : Held p.path p.file log d) {d₁ : Disk}
    {main : Bytes} (hcar : Carried p (d.readAll p.file) main)
    (hb : Became p.file log d d₁ main []) (hfiles : Disk.SameFiles d₁ files)
    (hr : r.readOnly = true) {dr : Disk}
    (hopen : («open» p.path r).exec () files = (.ok q, (), dr)) :
    q.log = none ∧ Displays (w.face d') q dr := by
  have hne : d₁.readAll p.file ≠ [] := by
    rw [hb.file]
    exact List.ne_nil_of_length_pos
      (Nat.lt_of_lt_of_le (List.length_pos_of_ne_nil h.file_ne_nil) hcar.spares.long)
  obtain ⟨hd, hstored, hover, hall⟩ := of_open_reader (hh.of_shape hb.shape) hne hfiles hr hopen
  have hmain : dr.readAll p.file = main := (hall _).trans hb.file
  subst hmain
  obtain rfl : hd = p.nextHeader := by
    have hfront := hstored.front
    rw [hcar.decode_front h.tidy, hcheck] at hfront
    exact (Except.ok.inj hfront).symm
  rw [hb.log, Log.recover_nil] at hover
  obtain rfl := Except.ok.inj hover
  obtain ⟨hheader, hview⟩ := hw.after hm
  obtain ⟨_, hd', -, rfl⟩ := hw.alike
  obtain rfl : hd' = p.nextHeader := hheader
  refine ⟨rfl, .of_empty rfl dr, rfl, rfl, rfl, ?_⟩
  show _ = (ofHeader p.path p.file (some _) o p.nextHeader).view d'
  rw [hview]
  exact hcar.view_eq h hcov

/-- **A reader shows what a writer shows who opens the same files**, after a commit that was cut
short before it came to the header of the main file. -/
theorem Reopened.displays_reader {n k : Nat} (hw : Reopened p d (p.Marked n k) o w d')
    (h : Ready p d) (hcov : p.Covered d) (hcheck : p.nextHeader.check = .ok p.nextHeader)
    (hfront : frontOf ((p.crashed n k d).readAll p.file) = frontOf (d.readAll p.file))
    (hfiles : Disk.SameFiles (p.crashed n k d) files) (hr : r.readOnly = true) {dr : Disk}
    (hopen : («open» p.path r).exec () files = (.ok q, (), dr)) :
    q.log = none ∧ Displays (w.face d') q dr := by
  obtain ⟨log, hlog, hh, hempty⟩ := h.held
  have hcrash : FileEffect.cut p.file log k n p.effects d = p.crashed n k d := by
    rw [crashed, hlog]
  cases hch : p.hasChanges with
  | false =>
      have hb := Became.refl p.file log d
      rw [hempty] at hb
      rw [crashed_of_unchanged hch] at hfiles
      exact hw.displays_unlogged (not_marked_of_unchanged hch n k) h hh hb Log.recover_nil hfiles hr
        hopen
  | true =>
      have htorn := h.torn hh hempty hch n k
      rw [hcrash] at htorn
      rcases htorn with ⟨hm, j, hj, hb⟩ | ⟨hm, main, ⟨hspares, hb⟩ | ⟨hcar, hb⟩⟩
      · -- A front of the log holds no transaction.
        refine hw.displays_unlogged hm h hh hb ?_ hfiles hr hopen
        rw [Log.committed_recover_take h.tidy.loggable, if_neg (Nat.not_le_of_lt hj)]
      · refine hw.displays_logged hm h hcov hcheck hh ?_ hb.shape hb.log hfront hfiles hr hopen
        rw [hb.file]
        exact hspares
      · exact hw.displays_carried hm h hcov hcheck hh hcar hb hfiles hr hopen

/-- What a rollback leaves has nothing to be committed. -/
theorem hasChanges_rolledBack (p : Pager) : p.rolledBack.hasChanges = false := by
  rw [hasChanges, rolledBack, Bool.or_eq_false_iff, Bool.not_eq_false', bne_eq_false_iff_eq]
  exact ⟨Std.ExtTreeMap.isEmpty_empty, rfl⟩

/-- Of a file without any page but the first no page can be seen. -/
theorem view_fresh (path : String) (file : NodeId) (log : Option NodeId) (o : Options)
    (pageSize : Nat) (d : Disk) (id : PageId) :
    (ofHeader path file log o (Header.fresh pageSize)).view d id =
      .error (.corrupt s!"page {id} out of range") := by
  have hnone : ¬ (id != 0 && decide (id < (Header.fresh pageSize).pageCount)) = true := by
    show ¬ (id != 0 && decide (id < 1)) = true
    rw [Bool.and_eq_true, bne_iff_ne, decide_eq_true_eq]
    rintro ⟨hne, hlt⟩
    rw [UInt32.lt_iff_toNat_lt] at hlt
    exact hne (UInt32.toNat_inj.1 (Nat.lt_one_iff.1 hlt))
  rw [view_ofHeader, if_neg hnone]

/-- A reader finds the header of a new file in an empty one. -/
theorem header_of_empty {hd : Header} (ho : o.readOnly = true) (hempty : d.readAll file = [])
    (h : (openHeader file o).exec () d = (.ok hd, (), d')) : hd = Header.fresh o.pageSize := by
  have hsize : (d.node file).contents.size = 0 := congrArg List.length hempty
  rw [openHeader, exec_bind, exec_disk] at h
  simp only [hsize, decide_true, Bool.true_and, ho, if_true] at h
  cases hfolder : (d.node file).isFolder with
  | false =>
      rw [hfolder] at h
      cases h
      rfl
  | true =>
      rw [hfolder] at h
      replace h : (readHeader file).exec () d = (.ok hd, (), d') := h
      rw [readHeader, exec_bind, exec_disk] at h
      dsimp only at h
      rw [hfolder] at h
      cases h

end

end Pager

/-! ## Engines -/

namespace Engine

open Pager

/-- An engine whose pager has no log, and of which the same can be seen as of a writer on a file
that stores the map. -/
inductive Reads [Codec] (m : Contents) : Engine → Disk → Prop where
  | tree {p q : Pager} {d d' : Disk} (c : Compression) (hq : Ready q d')
      (hm : Tree.Stores (q.face d') m) (hp : Displays (q.face d') p d) (hlog : p.log = none) :
      Reads m (.tree p c) d

section

variable {path : String} {p q : Pager} {e : Engine} {d d' files : Disk} {m old : Contents}
  {o : Options} {α : Type}

variable [Codec]

theorem Reads.holds (h : e.Reads m d) : e.Holds d m := by
  cases h with
  | tree c hq hm hp hlog => exact .shown c hq hm hp

/-- A reader of the files that a commit has left which never came to the header. -/
theorem reads_of_crashed (h : Serves path p d m old) {n k : Nat}
    (hspared : ∀ e ∈ p.effects, p.SparesHeader e)
    (hfiles : Disk.SameFiles (p.crashed n k d) files) (ho : o.readOnly = true)
    (hopen : (Pager.«open» path o).exec () files = (.ok q, (), d')) :
    ∃ m', Reads m' (.tree q o.compression) d' := by
  have hcov := h.ready.covered_of_stores h.current
  have hcheck := h.ready.check_of_stores h.current
  obtain ⟨w, dw, -, hw⟩ := h.ready.reopens hcov hcheck (o := {}) rfl rfl n k
  obtain ⟨log, hlog, hh, -⟩ := h.ready.held
  have hfront := h.ready.frontOf_cut hh hspared n k
  have hcrash : FileEffect.cut p.file log k n p.effects d = p.crashed n k d := by
    rw [crashed, hlog]
  rw [hcrash] at hfront
  rw [← h.path_eq] at hopen
  obtain ⟨hnone, hdisplays⟩ :=
    hw.displays_reader h.ready hcov hcheck hfront hfiles ho hopen
  -- What the writer stores is one of the two maps.
  have hstores : ∃ m', Tree.Stores (w.face dw) m' := by
    obtain ⟨log', hd, -, rfl⟩ := hw.alike
    by_cases hm : p.Marked n k
    · obtain ⟨hheader, hview⟩ := hw.after hm
      obtain rfl : hd = p.nextHeader := hheader
      exact ⟨m, h.current.congr ⟨rfl, rfl, rfl, rfl, rfl⟩ hview h.ready.current.size_eq⟩
    · obtain ⟨hheader, hview⟩ := hw.before hm
      obtain rfl : hd = p.committed := hheader
      exact ⟨old, h.committed.congr (.refl _) hview h.ready.size_eq⟩
  obtain ⟨m', hm'⟩ := hstores
  exact ⟨m', .tree _ hw.ready hm' hdisplays hnone⟩

/-- **A reader finds the records** in the files that an engine has given back. -/
theorem Lasts.reads (h : e.Lasts path d) (hfiles : Disk.SameFiles (e.release d) files)
    (ho : o.readOnly = true) (hopen : (Pager.«open» path o).exec () files = (.ok q, (), d')) :
    ∃ m, Reads m (.tree q o.compression) d' := by
  cases h with
  | @serving p d m old c h =>
      have hnone := hasChanges_rolledBack p
      refine reads_of_crashed h.rollback (n := 0) (k := 0) ?_ ?_ ho hopen
      · rw [effects, hnone]
        exact fun _ he => absurd he List.not_mem_nil
      · rw [crashed_of_unchanged hnone]
        exact .trans (.release p d) hfiles
  | @stopped p q d m old point c h hch hc hs =>
      refine reads_of_crashed h (n := p.effects.length) (k := 0) ?_ ?_ ho hopen
      · rw [effects, if_pos hch]
        exact sparesHeader_of_stopped hc
      · rw [← h.ready.disk_commit]
        exact .trans (.release q _) hfiles

/-- A reader finds no records in an empty file with an empty log. -/
theorem reads_of_blank (hmain : d.Blank path) (hlog : d.Blank (Log.pathFor path))
    (hsize : o.pageSize ∈ pageSizes) (ho : o.readOnly = true)
    (hopen : (Pager.«open» path o).exec () d = (.ok q, (), d')) :
    Reads ∅ (.tree q o.compression) d' := by
  obtain ⟨file, d₁, hfile, hlocked⟩ := Pager.open_eq_ok hopen
  obtain ⟨hname, hsame⟩ := openFile_reader_eq_ok ho hfile
  obtain ⟨recovery, hd, hrecovery, hheader, hover, rfl⟩ := openLocked_reader_eq_ok ho hlocked
  have hempty : d'.readAll file = [] := (hsame.contents file).trans (hmain file hname)
  rw [committed_of_blank (hsame.blank hlog) hrecovery] at hover
  obtain rfl := Except.ok.inj hover
  obtain rfl := header_of_empty ho hempty hheader
  -- It shows what a writer shows of an empty file.
  obtain ⟨dw, hwriter⟩ := closed_emptyFiles.exec_open_empty (o := { pageSize := o.pageSize })
    rfl rfl rfl rfl
  obtain ⟨file', log, heq, hready⟩ :=
    fresh_of_open (o := { pageSize := o.pageSize }) new_emptyFiles rfl hsize hwriter
  refine .tree _ hready (Tree.stores_empty rfl rfl rfl rfl rfl) ?_ rfl
  refine ⟨.of_empty rfl d', rfl, rfl, rfl, funext fun id => ?_⟩
  rw [view_fresh]
  exact (view_fresh ..).symm

theorem keeps_reads_of_asks {tree : Action Pager α} {memory : Memory → α} (ha : Reading tree)
    {Q : Contents → α → Prop} (hdoes : ∀ {f m}, Tree.Stores f m →
      Does f tree (fun _ => False) fun x g => g = f ∧ Q m x) :
    Keeps (Reads m) (query tree memory) := by
  intro e d he
  cases he with
  | tree c hq hm hp hlog =>
      obtain ⟨x, p', hexec, -, halike, hp'⟩ := ha.exec_of_does hq (hdoes hm) hp
      rw [exec_query hexec]
      exact .tree c hq hm hp' (halike.log.trans hlog)

theorem keeps_reads_close : Keeps (Reads m) Engine.close := by
  intro e d he
  cases he with
  | @tree p q d d' c hq hm hp hlog =>
      have hexec : Tree.close.exec p d = (.ok (), p, d) := by
        rw [Tree.close, exec_bind, exec_self]
        dsimp only
        rw [Pager.readOnly, hlog]
        rfl
      rw [Engine.close, exec_query hexec]
      exact .tree c hq hm hp hlog

theorem keeps_reads_setCacheCapacity (pages : Nat) :
    Keeps (Reads m) (Engine.setCacheCapacity pages) := by
  intro e d he
  cases he with
  | @tree p q d d' c hq hm hp hlog =>
      have hexec : (Pager.setCacheCapacity pages).exec p d = (.ok (), _, d) := rfl
      rw [Engine.setCacheCapacity, exec_query hexec]
      exact .tree c hq hm (hp.alike (alike_resize p pages) (hp.mirrors.resize pages)) hlog

/-- **A reader goes on finding the same records.** -/
theorem invariant_reads (m : Contents) : Invariant true (Reads m) where
  get key := keeps_reads_of_asks (Tree.reading_get key) fun h => Tree.does_get h key
  put _ _ := nofun
  append _ _ := nofun
  delete _ := nofun
  seek key mode :=
    keeps_reads_of_asks (Tree.reading_seek key mode) fun h => Tree.does_seek h key mode
  first := keeps_reads_of_asks Tree.reading_first Tree.does_first
  last := keeps_reads_of_asks Tree.reading_last Tree.does_last
  next key := keeps_reads_of_asks (Tree.reading_next key) fun h => Tree.does_next h key
  prev key := keeps_reads_of_asks (Tree.reading_prev key) fun h => Tree.does_prev h key
  begin := nofun
  commit := nofun
  rollback := nofun
  close := keeps_reads_close
  setCacheCapacity := keeps_reads_setCacheCapacity

end

end Engine

/-! ## Databases -/

namespace Database

open Engine

/-- The files of a database that nobody writes to: they are new, or a database has left them. There
may be others who read them. -/
inductive AtRest [Codec] (path : String) : Disk → Prop where
  | new {d : Disk} (h : d.New path) : AtRest path d
  /-- The process ended without closing the database. -/
  | dropped {db : Database} {d : Disk} (h : Reached path db d) : AtRest path (db.engine.release d)
  | closed {db : Database} {d d' : Disk} {l l' : Library} {r : Except Error Unit}
      (h : Reached path db d) (hclose : db.close.exec l d = (r, l', d')) : AtRest path d'
  | shared {d d' : Disk} (h : AtRest path d) (hsame : Disk.SameFiles d d') : AtRest path d'

/-- The databases on files, opened to write or to read, with what has been done to them. -/
inductive FileBacked [Codec] : Database → Disk → Prop where
  | writer {path : String} {db : Database} {d : Disk} (h : Reached path db d) : FileBacked db d
  | reader {path : String} {o : Options} {db : Database} {d d' : Disk} {l l' : Library}
      (h : AtRest path d) (hpath : path ≠ memoryPath) (ho : o.readOnly = true)
      (hopen : («open» path o).exec l d = (.ok db, l', d')) : FileBacked db d'
  | used {db : Database} {d : Disk} (h : FileBacked db d) (u : Use) :
      FileBacked (u.run db d).1 (u.run db d).2

section

variable {path : String} {db : Database} {d : Disk}

variable [Codec]

/-- Files at rest can be read. -/
theorem AtRest.reads [Codec.Lawful] (h : AtRest path d) {files d' : Disk}
    (hsame : Disk.SameFiles d files)
    {o : Options} (hsize : o.pageSize ∈ pageSizes) (ho : o.readOnly = true) {q : Pager}
    (hopen : (Pager.«open» path o).exec () files = (.ok q, (), d')) :
    ∃ m, Reads m (.tree q o.compression) d' := by
  induction h with
  | new h => exact ⟨∅, reads_of_blank (hsame.blank h.main) (hsame.blank h.log) hsize ho hopen⟩
  | dropped h => exact h.lasting.2.engine.reads hsame ho hopen
  | closed h hclose =>
      have hdown := keeps_shutdown invariant_lasts _ _ h.lasting.2
      rw [exec_close rfl] at hclose
      cases hclose
      exact hdown.engine.reads hsame ho hopen
  | shared h hshared ih => exact ih (hshared.trans hsame)

theorem FileBacked.usedAll (h : FileBacked db d) (uses : List Use) :
    FileBacked (Use.runAll uses db d).1 (Use.runAll uses db d).2 := by
  induction uses generalizing db d with
  | nil => exact h
  | cons u uses ih => exact ih (h.used u)

/-- **A database on a file** has an engine that lasts, or one that reads. -/
theorem FileBacked.guarded [Codec.Lawful] (h : FileBacked db d) :
    (∃ path, Guarded false (Lasts path) db d) ∨ ∃ m, Guarded true (Reads m) db d := by
  induction h with
  | writer h => exact .inl ⟨_, h.lasting.2⟩
  | @reader path o db d d' l l' h hpath ho hopen =>
      obtain ⟨hvalid, e, hengine, rfl⟩ := open_eq_ok hopen
      rw [openEngine, if_neg hpath] at hengine
      obtain ⟨q, ⟨⟩, d₁, hpager, hrest⟩ := of_exec_bind_ok hengine
      obtain ⟨rfl, -, rfl⟩ := exec_ok_inj hrest
      obtain ⟨m, hm⟩ := h.reads (.refl d) (Pager.pageSize_of_validate hvalid) ho hpager
      exact .inr ⟨m, ho, fun _ => rfl, hm⟩
  | used h u ih =>
      rcases ih with ⟨path, hdb⟩ | ⟨m, hdb⟩
      · exact .inl ⟨path, hdb.run invariant_lasts u⟩
      · exact .inr ⟨m, hdb.run (invariant_reads m) u⟩

end

end Database

end PagedStore
