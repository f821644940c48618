import PagedStore.Proofs.PagerHistory

/-!
# Opening a new file

A file is new when there is nothing under its name and nothing in its log, or when the files under
these names are empty. Opening it for writing gives it the header of a file without any pages.
-/

set_option autoImplicit false

namespace PagedStore

open PagedStore.Action

/-- There is no file with a name, or it is empty. -/
def Disk.Blank (d : Disk) (name : String) : Prop :=
  ∀ n, d.find? name = some n → d.readAll n = []

/-- A file and its log are blank. -/
structure Disk.New (d : Disk) (path : String) : Prop where
  live : d.NamesLive
  apart : d.NamesApart
  main : d.Blank path
  log : d.Blank (Log.pathFor path)

namespace Pager

variable {path : String} {o : Options} {d d' : Disk} {file : NodeId}

/-- Opening a new file gives an empty one with an empty log. -/
theorem blank_of_openFile (hnew : d.New path) (ho : o.readOnly = false)
    (h : (openFile path o).exec () d = (.ok file, (), d')) :
    d'.readAll file = [] ∧ d'.Blank (Log.pathFor path) := by
  obtain ⟨d₁, hopen, rfl⟩ := openFile_eq_ok ho h
  rcases Disk.openToWrite_eq_ok hopen with ⟨hname, -, rfl⟩ | ⟨hname, rfl, rfl⟩
  · -- An empty file was there, and taking its lock does not write to it.
    have hsame : ∀ m, (d₁.modify file fun x => { x with lock := .exclusive }).readAll m =
        d₁.readAll m := readAll_modify (hnew.live _ _ hname) fun _ => rfl
    refine ⟨(hsame file).trans (hnew.main file hname), fun m hm => (hsame m).trans (hnew.log m ?_)⟩
    rwa [Disk.find?_modify] at hm
  · -- The file is made, which leaves a log that is there alone.
    have hlt : d.nodes.size < (d.make path false).2.nodes.size := by
      rw [Disk.size_nodes_make]
      exact Nat.lt_succ_self _
    have hsame : ∀ m, ((d.make path false).2.modify d.nodes.size
        fun x => { x with lock := .exclusive }).readAll m = (d.make path false).2.readAll m :=
      readAll_modify hlt fun _ => rfl
    refine ⟨?_, fun m hm => ?_⟩
    · rw [hsame, Disk.readAll, Disk.node_make_self]
      rfl
    · rw [Disk.find?_modify, Disk.find?_make_of_ne d (pathFor_ne path)] at hm
      rw [hsame, Disk.readAll, Disk.node_make_of_lt d (hnew.live _ _ hm)]
      exact hnew.log m hm

/-- A blank log has nothing to be carried out. -/
theorem committed_of_blank {recovery : Log.Recovery} {name : String} (h : d.Blank name)
    (hr : Log.recoverFile name d = .ok recovery) : recovery.committed = [] := by
  rw [Log.recoverFile] at hr
  split at hr
  · obtain rfl := Except.ok.inj hr
    rfl
  · rename_i n hn
    split at hr
    · cases hr
    · obtain rfl := Except.ok.inj hr
      rw [h n hn, Log.recover_nil]

theorem header_of_openLocked {p : Pager} (hc : Claimed path file d) (hmain : d.readAll file = [])
    (hlog : d.Blank (Log.pathFor path)) (ho : o.readOnly = false)
    (h : (openLocked path file o).exec () d = (.ok p, (), d')) :
    p.header = Header.fresh o.pageSize := by
  obtain ⟨recovery, d₂, log, d₃, hd, hrecovery, h₂, h₃, h₄, rfl⟩ := openLocked_eq_ok ho h
  rw [committed_of_blank hlog hrecovery] at h₂
  obtain ⟨-, -, rfl⟩ := exec_ok_inj h₂
  obtain ⟨hheld, -, hfile⟩ := held_of_openLog hc h₃
  -- Nothing was carried out, so the main file is still empty when its header is looked for.
  have hsize : (d₃.node file).contents.size = 0 := by
    have hlen := congrArg List.length (hfile.trans hmain)
    exact hlen
  rw [openHeader, exec_bind, exec_disk] at h₄
  simp only [hsize, hheld.plain, ho, decide_true, Bool.not_false, Bool.and_self, if_true] at h₄
  exact (Except.ok.inj (Prod.mk.inj h₄).1).symm

/-- **Opening a new file** for writing gives a pager on a file without any pages. -/
theorem fresh_of_open {p : Pager} (hnew : d.New path) (ho : o.readOnly = false)
    (hp : o.pageSize ∈ pageSizes) (h : («open» path o).exec () d = (.ok p, (), d')) :
    ∃ file log, p = ofHeader path file (some log) o (Header.fresh o.pageSize) ∧ Ready p d' := by
  obtain ⟨file, d₁, hfile, hlocked⟩ := open_eq_ok h
  have hclaimed := claimed_of_openFile hnew.live hnew.apart ho hfile
  obtain ⟨hmain, hlog⟩ := blank_of_openFile hnew ho hfile
  obtain ⟨log, hd, rfl, hready⟩ := ready_of_openLocked hclaimed ho hp hlocked
  obtain rfl : hd = Header.fresh o.pageSize :=
    header_of_openLocked hclaimed hmain hlog ho hlocked
  exact ⟨file, log, rfl, hready⟩

theorem new_emptyFiles : emptyFiles.New "a" := by
  refine ⟨namesLive_emptyFiles, namesApart_emptyFiles, fun n hn => ?_, fun n hn => ?_⟩ <;>
    rcases find?_emptyFiles hn with ⟨-, rfl⟩ | ⟨-, rfl⟩ <;> rfl

end Pager

end PagedStore
