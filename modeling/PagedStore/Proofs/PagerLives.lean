import PagedStore.Proofs.NewFiles
import PagedStore.Proofs.OrderlyTree
import PagedStore.Proofs.Readers

/-!
# Pagers that are used without care

Whoever has a pager may commit pages that were allocated and never written, and call whatever
comes to mind before and after that. Such a pager is not ready in the sense of `Ready`, since the
file may be shorter than its header says. What remains true through any life of a pager on a new
file is that it is coherent, that between two calls the log is empty, and that the main file
begins with the header of the last commit (`Settled`).
-/

set_option autoImplicit false

namespace PagedStore.Pager

open PagedStore.Action Bytes

/-! ## Calls -/

/-- What the owner of a pager may do: ask for something, or have a value written to a chain of new
pages. -/
inductive Call where
  | request (r : Request)
  | chain (value : Bytes)

namespace Call

/-- What becomes of a pager and of the disk by a call, with or without success. -/
def serve (p : Pager) (d : Disk) : Call → Pager × Disk
  | request r => r.serve p d
  | chain value => ((Tree.Chain.write value).exec p d).2

/-- A page that is written has the length of a page. -/
def Sized (p : Pager) (_ : Disk) : Call → Prop
  | request (.write page) => page.image.length = p.pageSize
  | _ => True

end Call

/-- The states of a pager that was opened on a new file, all calls being such as are allowed. -/
inductive Life (allowed : Pager → Disk → Call → Prop) : Pager → Disk → Prop where
  | opened {path : String} {o : Options} {d d' : Disk} {p : Pager} (hnew : d.New path)
      (ho : o.validate = .ok ()) (h : («open» path o).exec () d = (.ok p, (), d')) :
      Life allowed p d'
  | called {p : Pager} {d : Disk} (h : Life allowed p d) (c : Call) (hc : allowed p d c) :
      Life allowed (c.serve p d).1 (c.serve p d).2

theorem Life.mono {allowed allowed' : Pager → Disk → Call → Prop}
    (hle : ∀ p d c, allowed p d c → allowed' p d c) {p : Pager} {d : Disk} (h : Life allowed p d) :
    Life allowed' p d := by
  induction h with
  | opened hnew ho h => exact .opened hnew ho h
  | called _ c hc ih => exact .called ih c (hle _ _ c hc)

/-! ## Coherence -/

section

variable {p : Pager} {d : Disk}

theorem Coherent.of_blind {α : Type} {a : Action Pager α} (h : Coherent p d) (ha : Blind a) :
    Coherent (a.exec p d).2.1 (a.exec p d).2.2 := by
  obtain ⟨r, q, q', d', hexec, -, ht⟩ := ha d p p h.twins
  rw [hexec]
  exact ht.left

/-- A call leaves a pager coherent. -/
theorem Coherent.serve (h : Coherent p d) {c : Call} (hc : c.Sized p d) :
    Coherent (c.serve p d).1 (c.serve p d).2 := by
  cases c with
  | chain value => exact h.of_blind (Tree.Chain.orderly_write value).blind
  | request r =>
      cases r with
      | read id => exact h.of_blind (Orderly.read id).blind
      | write page =>
          obtain ⟨r, q, q', d', hexec, -, ht⟩ := h.twins.write fun _ => hc
          have hserve : (Call.request (.write page)).serve p d = (q, d') :=
            congrArg Prod.snd hexec
          rw [hserve]
          exact ht.left
      | allocate => exact h.of_blind Orderly.allocate.blind
      | free id => exact h.of_blind (Orderly.free id).blind
      | setRoot id => exact h.of_blind (Orderly.setRoot id).blind
      | adjustRecordCount delta => exact h.of_blind (Orderly.adjustRecordCount delta).blind
      | beginOp => exact h.of_blind .beginOp
      | endOp => exact h.of_blind .endOp
      | undoOp => exact h.of_blind .undoOp
      | setCacheCapacity pages => exact h.of_blind (.setCacheCapacity pages)
      | commit => exact h.of_blind .commit
      | rollback => exact h.of_blind .rollback

/-- A reader has no log. -/
theorem log_of_open_reader {path : String} {o : Options} {d' : Disk} (ho : o.readOnly = true)
    (h : («open» path o).exec () d = (.ok p, (), d')) : p.log = none := by
  obtain ⟨file, d₁, -, hlocked⟩ := open_eq_ok h
  obtain ⟨recovery, hd, -, -, hover, rfl⟩ := openLocked_reader_eq_ok ho hlocked
  obtain ⟨dirty, header, committed, rfl⟩ := overlay_eq_ok hover
  rfl

theorem Life.coherent (h : Life Call.Sized p d) : Coherent p d := by
  induction h with
  | opened hnew ho h =>
      exact (coherent_of_open hnew.live hnew.apart (pageSize_of_validate ho) h).1
  | called _ c hc ih => exact ih.serve hc

/-! ## Between two calls -/

/-- Calls other than commits leave the disk alone, and the pager on the same file. -/
theorem Call.same_serve {c : Call} (hc : c ≠ .request .commit) (p : Pager) (d : Disk) :
    Same p (c.serve p d).1 ∧ (c.serve p d).2 = d := by
  have hleaves : ∀ {α : Type} {a : Action Pager α}, Leaves Undoable a →
      Same p (a.exec p d).2.1 ∧ (a.exec p d).2.2 = d := fun ha =>
    ⟨(ha p d).1.toSame, (ha p d).2⟩
  cases c with
  | chain value => exact hleaves (Tree.Chain.orderly_write value).leaves
  | request r =>
      cases r with
      | read id => exact hleaves (Orderly.read id).undoable.leaves
      | write page => exact hleaves (leaves_write page)
      | allocate => exact hleaves Orderly.allocate.leaves
      | free id => exact hleaves (Orderly.free id).leaves
      | setRoot id => exact hleaves (Orderly.setRoot id).leaves
      | adjustRecordCount delta => exact hleaves (Orderly.adjustRecordCount delta).leaves
      | beginOp => exact ⟨same_begun p, rfl⟩
      | endOp => exact ⟨same_ended p, rfl⟩
      | undoOp =>
          rw [serve, Request.serve, exec_undoOp]
          exact ⟨same_takenBack p, rfl⟩
      | setCacheCapacity pages => exact ⟨(alike_resize p pages).toSame, rfl⟩
      | commit => exact absurd rfl hc
      | rollback => exact ⟨⟨rfl, rfl, rfl, rfl, rfl, rfl, rfl, rfl⟩, rfl⟩

/-- What the files of a pager hold between two calls: nothing in the log, and a main file that has
room for its header page and begins with the header of the last commit, be it a sound one or not. -/
structure Settled (p : Pager) (d : Disk) (log : NodeId) : Prop where
  empty : d.readAll log = []
  front : Header.decode ((d.readAll p.file).take Header.encodedLength) = p.committed.check
  room : p.pageSize ≤ (d.readAll p.file).length

/-- A commit that was not stopped carries the changes out. -/
theorem Writer.carried {log : NodeId} (hw : Writer p d log) (hc : p.crashPoint = none) :
    Carried p (d.readAll p.file)
      ((FileEffect.performAll p.file log p.commitEffects d).readAll p.file) := by
  rw [(hw.held.became hc).file]
  exact hw.tidy.carried_mainWrites hc _

theorem Writer.settled_published {log : NodeId} (hw : Writer p d log) (hc : p.crashPoint = none) :
    Settled p.published (FileEffect.performAll p.file log p.commitEffects d) log where
  empty := (hw.held.became hc).log
  front := (hw.carried hc).decode_front hw.tidy
  room := by
    have hlen := congrArg List.length (hw.carried hc).front
    rw [List.length_take, hw.tidy.length_nextHeader] at hlen
    show p.pageSize ≤ (Disk.readAll _ p.file).length
    omega

/-- What can be read before a commit that is not stopped can be read after it. -/
theorem Writer.view_published {log : NodeId} (hw : Writer p d log) (hc : p.crashPoint = none)
    {id : PageId} {page : Page} (h : p.view d id = .ok page) :
    p.published.view (FileEffect.performAll p.file log p.commitEffects d) id = .ok page := by
  have hcar := hw.carried hc
  generalize FileEffect.performAll p.file log p.commitEffects d = d' at hcar
  have hnew : p.published.view d' id =
      if p.inRange id then fromFile p.file p.pageSize d' id
      else .error (.corrupt s!"page {id} out of range") := rfl
  rw [view] at h
  split at h
  · rename_i hr
    rw [hnew, if_pos hr]
    split at h
    · rename_i pg hpg
      obtain rfl := Except.ok.inj h
      exact hcar.fromFile_dirty hw.tidy hpg
    · rename_i hnone
      have hid : id ∉ p.dirty := fun hm => by
        obtain ⟨pg, hpg⟩ := PageMap.mem_iff.1 hm
        rw [hnone] at hpg
        cases hpg
      obtain ⟨-, hlen, -⟩ := fromFile_eq_ok h
      have hin := offset_add_le hlen hw.tidy.transaction_writable.pos rfl
      rw [hcar.spares.fromFile_kept (inRange_iff.1 hr).1 hid hin, h]
  · cases h

/-- A call leaves the files of a usable writer settled. -/
theorem Coherent.settled_serve (h : Coherent p d) {log : NodeId}
    (hs : p.poisoned = none → p.log = some log → Settled p d log) {c : Call}
    (hu : (c.serve p d).1.poisoned = none) (hlog : (c.serve p d).1.log = some log) :
    Settled (c.serve p d).1 (c.serve p d).2 log := by
  by_cases hcommit : c = .request .commit
  · subst hcommit
    have hout := commitOutcome p d
    have hserve : (Call.request .commit).serve p d = (Pager.commit.exec p d).2 := rfl
    rw [hserve] at hu hlog ⊢
    generalize Pager.commit.exec p d = out at hout hu hlog
    cases hout with
    | refused => exact hs hu hlog
    | unchanged => exact hs hu hlog
    | published hlog' hcrash =>
        obtain rfl := Option.some.inj (hlog'.symm.trans hlog)
        exact (h.writer hu _ hlog').settled_published hcrash
    | stopped => cases hu
  · obtain ⟨hsame, hdisk⟩ := Call.same_serve hcommit p d
    have hold := hs (hsame.poisoned.symm.trans hu) (hsame.log.symm.trans hlog)
    rw [hdisk]
    exact ⟨hold.empty, by rw [hsame.file, hsame.committed]; exact hold.front,
      by rw [hsame.file, hsame.pageSize]; exact hold.room⟩

theorem Ready.settled (h : Ready p d) {log : NodeId} (hlog : p.log = some log) :
    Settled p d log := by
  obtain ⟨other, hother, -, hempty⟩ := h.held
  obtain rfl : other = log := Option.some.inj (hother.symm.trans hlog)
  exact ⟨hempty, h.stored.front.trans h.stored.check.symm, h.pageSize_le⟩

/-- **Between two calls the files of a usable writer are settled.** -/
theorem Life.settled (h : Life Call.Sized p d) (hu : p.poisoned = none) {log : NodeId}
    (hlog : p.log = some log) : Settled p d log := by
  induction h with
  | @opened path o d d' p hnew ho h =>
      cases hro : o.readOnly with
      | true =>
          rw [log_of_open_reader hro h] at hlog
          cases hlog
      | false =>
          obtain ⟨file, log', rfl, hready⟩ := fresh_of_open hnew hro (pageSize_of_validate ho) h
          exact hready.settled hlog
  | called h c _ ih => exact h.coherent.settled_serve ih hu hlog

end

end PagedStore.Pager
