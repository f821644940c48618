import PagedStore.Proofs.CrashedReaders

/-!
# Files whose last commit stands in the log

A commit that is stopped behind its log leaves the main file as it was, and the transaction in the
log. A reader of the two files shows what was committed (`exec_open_loggedFiles`). Nothing in a log
says to which file it belongs, so it may hold pages that are longer or shorter than those of the
file beside it, and a header that speaks of more pages than there are.
-/

set_option autoImplicit false

namespace PagedStore.Pager

open PagedStore.Action Bytes

/-- A disk with a main file and a log. -/
def twoFiles (main log : Bytes) : Disk :=
  ⟨[("a", 0), ("a.wal", 1)],
    #[⟨false, main.toByteArray, .free⟩, ⟨false, log.toByteArray, .free⟩]⟩

theorem readAll_twoFiles (main log : Bytes) :
    (twoFiles main log).readAll 0 = main ∧ (twoFiles main log).readAll 1 = log :=
  ⟨Disk.toList_toByteArray main, Disk.toList_toByteArray log⟩

theorem closed_twoFiles (main log : Bytes) : Closed "a" 0 1 (twoFiles main log) :=
  ⟨rfl, rfl, by decide, Nat.zero_lt_succ 1, Nat.lt_succ_self 1, rfl, rfl, rfl⟩

/-- A new file with pages of that size, beside the log of a commit. -/
def loggedFiles (size : Nat) (p : Pager) : Disk :=
  twoFiles (Header.fresh size).encode p.transaction.logged

/-- The options with which these files are opened to be read. -/
def readingOptions : Options := { readOnly := true, compression := .off }

/-- **A reader of these files has the pages of the log over those of the file.** -/
theorem exec_open_loggedFiles {size : Nat} {p : Pager} (hsize : size ∈ pageSizes) (hp : p.Tidy)
    (hcheck : p.nextHeader.check = .ok p.nextHeader) (hpath : p.path = "a") (hfile : p.file = 0) :
    ∃ d, («open» "a" readingOptions).exec () (loggedFiles size p) =
        (.ok (p.overlaid readingOptions (Header.fresh size)), (), d) ∧
      d.readAll 0 = (Header.fresh size).encode := by
  obtain ⟨hmain, hlog⟩ := readAll_twoFiles (Header.fresh size).encode p.transaction.logged
  have hstored : Stored 0 (Header.fresh size) (loggedFiles size p) := by
    have h : Stored 0 (Header.fresh size) (emptyFiles.write 0 0 (Header.fresh size).encode) :=
      stored_fresh (by decide) hsize
    refine h.of_contents (hmain.trans ?_)
    have hempty : emptyFiles.readAll 0 = [] := rfl
    rw [Disk.readAll_write_self (by decide), patch_zero, hempty, List.drop_nil, List.append_nil]
  have hover : overlay (Log.recover ((loggedFiles size p).readAll 1)).committed
      (ofHeader "a" 0 none readingOptions (Header.fresh size)) =
        .ok (p.overlaid readingOptions (Header.fresh size)) := by
    rw [loggedFiles, hlog, hp.recover_logged, hp.overlay_transaction hcheck rfl, overlaid, hpath,
      hfile]
  obtain ⟨d', hopen, hsame⟩ := (closed_twoFiles _ _).exec_open_reader rfl rfl hstored hover
  exact ⟨d', hopen, (hsame 0).trans hmain⟩

/-- A single page is such as a commit can write. -/
theorem returnable_singleton {h : Header} {page : Page} (hsize : h.pageSize.toNat = 512)
    (hlen : page.image.length = 512) (h0 : page.id ≠ 0) (hlt : page.id < h.pageCount) :
    Returnable 512 h ((∅ : PageMap).insert page.id page.sealed) := by
  refine ⟨hsize, fun id other hother => ?_⟩
  rw [PageMap.getElem?_insert] at hother
  split at hother
  · rename_i hid
    obtain rfl := Option.some.inj hother
    exact ⟨hid, hid ▸ h0, hid ▸ hlt, (Page.length_sealed (by omega)).trans hlen,
      Page.verify_sealed page⟩
  · simp at hother

end PagedStore.Pager
