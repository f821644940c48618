import PagedStore.Proofs.Opening
import PagedStore.Proofs.Twins

/-!
# Opening a file to read it

A reader finds the file and takes its share of the lock, reads the header that is there, and lays
over it in memory what the log holds. It changes no file. However sound the pages are or are not,
a pager that was opened is coherent, be it a reader or a writer.
-/

set_option autoImplicit false

namespace PagedStore.Pager

open PagedStore.Action Bytes

/-! ## What a reader is -/

/-- Laying logged pages over a pager touches its working state alone. -/
theorem overlay_eq_ok {ts : List Log.Transaction} {p q : Pager} (h : overlay ts p = .ok q) :
    ∃ dirty header committed,
      q = { p with dirty := dirty, header := header, committed := committed } := by
  induction ts generalizing p with
  | nil =>
      obtain rfl := Except.ok.inj h
      exact ⟨p.dirty, p.header, p.committed, rfl⟩
  | cons t ts ih =>
      rw [overlay] at h
      cases hd : Header.decode t.header with
      | error e =>
          rw [hd] at h
          cases h
      | ok header =>
          rw [hd] at h
          cases hm : overlayPages header.pageSize.toNat t.pages p.dirty with
          | error e =>
              replace h : Except.bind (overlayPages ..) _ = _ := h
              rw [hm] at h
              cases h
          | ok dirty =>
              replace h : Except.bind (overlayPages ..) _ = _ := h
              rw [hm] at h
              obtain ⟨dirty', header', committed', rfl⟩ := ih h
              exact ⟨dirty', header', committed', rfl⟩

section

variable {path : String} {file : NodeId} {o : Options} {d d' : Disk} {p : Pager}

/-- Asking for the header changes nothing for a reader. -/
theorem openHeader_reader {hd : Header} (ho : o.readOnly = true)
    (h : (openHeader file o).exec () d = (.ok hd, (), d')) : d' = d := by
  rw [openHeader, exec_bind, exec_disk] at h
  dsimp only at h
  split at h
  · exact (Prod.mk.inj (Prod.mk.inj h).2).2.symm
  · exact (stored_of_readHeader h).2

/-- The steps of opening a file that is locked. -/
theorem openLocked_reader_eq_ok (ho : o.readOnly = true)
    (h : (openLocked path file o).exec () d = (.ok p, (), d')) :
    ∃ recovery hd, Log.recoverFile (Log.pathFor path) d = .ok recovery ∧
      (openHeader file o).exec () d = (.ok hd, (), d) ∧
      overlay recovery.committed (ofHeader path file none o hd) = .ok p ∧ d' = d := by
  rw [openLocked, exec_bind, exec_disk] at h
  obtain ⟨recovery, ⟨⟩, d₁, h₁, hrest⟩ := of_exec_bind_ok h
  rw [exec_ofResult] at h₁
  obtain ⟨hrecovery, heq⟩ := Prod.mk.inj h₁
  obtain rfl : d = d₁ := (Prod.mk.inj heq).2
  rw [ho] at hrest
  obtain ⟨hd, ⟨⟩, d₂, hheader, hlast⟩ := of_exec_bind_ok hrest
  obtain rfl := openHeader_reader ho hheader
  obtain ⟨hover, hend⟩ := Prod.mk.inj hlast
  exact ⟨recovery, hd, hrecovery, hheader, hover, (Prod.mk.inj hend).2.symm⟩

/-- A reader never writes, and has not read any page yet. -/
theorem coherent_of_reader (hlog : p.log = none) {capacity : Nat}
    (hc : p.cache = { capacity := capacity }) (d : Disk) : Coherent p d := by
  refine ⟨fun _ => .of_empty hc d, fun _ log hl => ?_⟩
  rw [hlog] at hl
  cases hl

/-- **A pager that was opened is coherent**, to read or to write, whatever its pages hold. -/
theorem coherent_of_open (hlive : d.NamesLive) (hapart : d.NamesApart) (hp : o.pageSize ∈ pageSizes)
    (h : («open» path o).exec () d = (.ok p, (), d')) :
    Coherent p d' ∧ p.savepoint = none ∧ p.poisoned = none := by
  cases ho : o.readOnly with
  | false =>
      obtain ⟨file, log, hd, rfl, hready⟩ := ready_of_open hlive hapart ho hp h
      exact ⟨hready.coherent, rfl, rfl⟩
  | true =>
      obtain ⟨file, d₁, -, hlocked⟩ := open_eq_ok h
      obtain ⟨recovery, hd, -, -, hover, rfl⟩ := openLocked_reader_eq_ok ho hlocked
      obtain ⟨dirty, header, committed, rfl⟩ := overlay_eq_ok hover
      exact ⟨coherent_of_reader rfl rfl d', rfl, rfl⟩

end

end PagedStore.Pager
