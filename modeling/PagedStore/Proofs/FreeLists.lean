import PagedStore.Proofs.Holdings

/-!
# The free list

The free list runs through the contents of pages, which are dirty, cached or on disk, and three
mechanisms put it back to what it was: operations are taken back, changes are rolled back, and
files are opened again, be it after a commit that was made to stop. Through all of this it never
leads to a page in use. Whoever follows it meets the pages that were given back and not given out
since, the last one first, and every other page of the file is held by the client.
-/

set_option autoImplicit false

namespace PagedStore.Pager

open PagedStore.Action

/-- A pager with its client, from the opening of a new file on. The file may be given up at any
moment and opened again. -/
inductive Tenancy : Pager → Disk → Client → Prop where
  | opened {path : String} {o : Options} {d d' : Disk} {p : Pager} (hnew : d.New path)
      (hw : o.readOnly = false) (ho : o.validate = .ok ())
      (h : («open» path o).exec () d = (.ok p, (), d')) : Tenancy p d' {}
  | served {p : Pager} {d : Disk} {c : Client} (h : Tenancy p d c) (r : Request)
      (hr : r.Rightful p c) : Tenancy (r.serve p d).1 (r.serve p d).2 (r.account p d c)
  | reopened {p q : Pager} {d d' : Disk} {c : Client} (h : Tenancy p d c) {o : Options}
      (hw : o.readOnly = false) (he : o.errorIfExists = false)
      (ho : («open» p.path o).exec () (p.release d) = (.ok q, (), d')) : Tenancy q d' c.reopened

/-! ## Every moment of a tenancy -/

/-- Where a pager and its client stand: the accounts are borne out, or a commit was made to stop,
and it is known what will be found when the file is opened again. -/
inductive Standing : Pager → Disk → Client → Prop where
  | serving {p : Pager} {d : Disk} {c : Client} (h : Tenanted p d c) : Standing p d c
  | stopped {p q : Pager} {d : Disk} {c c' : Client} {point : CrashPoint} (h : Tenanted p d c)
      (hblank : c.now.blank = []) (hch : p.hasChanges = true) (hc : p.crashPoint = some point)
      (hs : Same (p.interrupted point) q)
      (hkept : c'.kept = if point = .beforeLogCommit then c.kept else c.now) :
      Standing q (Pager.commit.exec p d).2.2 c'

section

variable {p : Pager} {d : Disk} {c : Client}

/-- A commit has its effect, or is stopped. -/
theorem Tenanted.commit (h : Tenanted p d c) (hblank : c.now.blank = []) :
    Standing (Pager.commit.exec p d).2.1 (Pager.commit.exec p d).2.2
      (Request.commit.account p d c) := by
  obtain ⟨log, hlog, hh, -, hexec⟩ := exec_commit h.ready
  rw [Request.account]
  cases hch : p.hasChanges with
  | false =>
      rw [hexec, hch]
      exact .serving (h.unchanged hch)
  | true =>
      rw [hch, if_pos rfl] at hexec
      cases hc : p.crashPoint with
      | none =>
          rw [hc] at hexec
          rw [hexec]
          exact .serving (h.published hblank hlog hh hc)
      | some point =>
          rw [hc] at hexec
          have hq : (Pager.commit.exec p d).2.1 = p.interrupted point := by rw [hexec]
          have hr : (Pager.commit.exec p d).1 =
              .error (.aborted ("simulated crash at " ++ point.name)) := by rw [hexec]
          rw [hq, hr]
          refine .stopped h hblank hch hc (.refl _) ?_
          simp only [h.ready.usable, true_and, Option.some.injEq, ne_eq, ite_not]
          split <;> rfl

/-- A pager that must not be used any more changes nothing about what was committed. -/
theorem Request.kept_account {reason : String} (hp : p.poisoned = some reason) (d : Disk)
    (c : Client) (r : Request) : (r.account p d c).kept = c.kept := by
  cases r with
  | commit =>
      obtain ⟨e, he⟩ := exec_commit_poisoned hp d
      rw [account, he, hp]
      rfl
  | allocate => rw [account]; split <;> rfl
  | write page => rw [account]; split <;> rfl
  | free id => rw [account]; split <;> rfl
  | undoOp => rw [account]; split <;> rfl
  | _ => rfl

theorem Standing.serve (h : Standing p d c) {r : Request} (hr : r.Rightful p c) :
    Standing (r.serve p d).1 (r.serve p d).2 (r.account p d c) := by
  by_cases hcommit : r = .commit
  · subst hcommit
    cases h with
    | serving h => exact h.commit hr
    | @stopped p q d c c' point h hblank hch hc hs hkept =>
        obtain ⟨e, he⟩ := exec_commit_poisoned hs.poisoned (Pager.commit.exec p d).2.2
        rw [Request.serve, he]
        exact .stopped h hblank hch hc hs ((Request.kept_account hs.poisoned _ _ _).trans hkept)
  · have hcall : Call.request r ≠ .request .commit := fun he => hcommit (Call.request.inj he)
    obtain ⟨hsame, hdisk⟩ := Call.same_serve hcall p d
    rw [show (r.serve p d).2 = d from hdisk]
    cases h with
    | serving h => exact .serving (h.serve hr hcommit)
    | @stopped p q d c c' point h hblank hch hc hs hkept =>
        exact .stopped h hblank hch hc (hs.trans hsame)
          ((Request.kept_account hs.poisoned _ _ r).trans hkept)

/-- Wherever a pager stands, its file can be opened again. -/
theorem Standing.reopen (h : Standing p d c) {o : Options} (hw : o.readOnly = false)
    (he : o.errorIfExists = false) :
    ∃ q d', («open» p.path o).exec () (p.release d) = (.ok q, (), d') ∧
      Tenanted q d' c.reopened := by
  cases h with
  | serving h => exact h.reopen hw he
  | @stopped p q d c c' point h hblank hch hc hs hkept =>
      obtain ⟨q', d', hopen, hq⟩ := h.reopen_stopped hblank hch hc hw he hkept
      refine ⟨q', d', ?_, hq⟩
      -- Both pagers hold the same file.
      rw [release, hs.file, hs.path]
      exact hopen

theorem Tenancy.standing (h : Tenancy p d c) : Standing p d c := by
  induction h with
  | opened hnew hw ho h =>
      obtain ⟨file, log, rfl, hready⟩ := fresh_of_open hnew hw (pageSize_of_validate ho) h
      exact .serving (.fresh hready)
  | served _ r hr ih => exact ih.serve hr
  | reopened _ hw he ho ih =>
      obtain ⟨q, d', hopen, hq⟩ := ih.reopen hw he
      obtain ⟨rfl, -, rfl⟩ := exec_ok_inj (ho.symm.trans hopen)
      exact .serving hq

theorem Tenancy.tenanted (h : Tenancy p d c) (hu : p.poisoned = none) : Tenanted p d c := by
  cases h.standing with
  | serving h => exact h
  | stopped _ _ _ _ hs => cases hu.symm.trans hs.poisoned

end

/-! ## Following the list -/

/-- The page that a free page names as the next one. -/
def nextFree (page : Page) : PageId := UInt32.ofNat (Bytes.toNatLE (page.payload.take 4))

/-- Follows the free list from a page on, for so many pages. Each of them must be a free one, and
the last one must name no other. -/
def walkFree : (count : Nat) → (id : PageId) → Action Pager (List PageId)
  | 0, id => if id = 0 then return [] else throw .endless
  | count + 1, id => do
      let page ← read id
      if (← ofResult page.kind) ≠ .free then throw (.corrupt s!"page {id} is not free")
      return id :: (← walkFree count (nextFree page))

/-- **Following the free list** by reading its pages gives what is on it. -/
theorem exec_walkFree {p : Pager} {d : Disk} (h : Ready p d) {head : PageId} {ids : List PageId}
    (hl : FreeList (p.face d) head ids) :
    ∃ q, (walkFree ids.length head).exec p d = (.ok ids, q, d) := by
  induction ids generalizing p head with
  | nil =>
      rw [List.length_nil, walkFree, if_pos (show head = 0 from hl)]
      exact ⟨p, rfl⟩
  | cons id ids ih =>
      obtain ⟨rfl, next, hpage, hrest⟩ := hl
      obtain ⟨q, hread, halike, hq⟩ := exec_read h id
      rw [show p.view d id = _ from hpage] at hread
      have hnext : nextFree (.blank id (p.face d).pageSize .free (Bytes.ofU32 next)) = next :=
        h.sane.next_free id next
      rw [← halike.face d] at hrest
      obtain ⟨q', hwalk⟩ := ih hq hrest
      refine ⟨q', ?_⟩
      rw [List.length_cons, walkFree, exec_bind_ok hread, Page.kind_blank, exec_bind,
        exec_ofResult]
      dsimp only
      rw [if_neg (fun hne => hne rfl), hnext, exec_bind_ok hwalk]
      rfl

/-- **The free list never leads to a page in use.** At every moment at which a pager can be used,
following the list meets as many pages as the header counts, all of them free and no two the same,
and ends; these and the pages that the client holds are all pages of the file but the header page.
Allocation gives out the page that was given back last; when there is none the file grows, and
only when it has reached its limit is the request refused. Nobody holds the page that is given
out. -/
theorem free_list_is_exact {p : Pager} {d : Disk} {c : Client} (h : Tenancy p d c)
    (hu : p.poisoned = none) :
    (∃ q, (walkFree p.header.freeCount.toNat p.header.freeHead).exec p d =
      (.ok c.now.freed, q, d)) ∧
    c.now.freed.length = p.header.freeCount.toNat ∧
    (c.now.held + (c.now.freed : Multiset PageId)).Nodup ∧
    (∀ id, id ∈ c.now.held + (c.now.freed : Multiset PageId) ↔
      1 ≤ id ∧ id < p.header.pageCount) ∧
    match c.now.freed with
    | id :: _ => id ∉ c.now.held ∧
        ∃ q, allocate.exec p d = (.ok id, q, d) ∧ q.header.pageCount = p.header.pageCount
    | [] =>
        if p.header.pageCount < p.maxPages then
          p.header.pageCount ∉ c.now.held ∧
            ∃ q, allocate.exec p d = (.ok p.header.pageCount, q, d) ∧
              q.header.pageCount.toNat = p.header.pageCount.toNat + 1
        else ∃ text q, allocate.exec p d = (.error (.full text), q, d) := by
  have ht := h.tenanted hu
  have ha := ht.current.accounts
  refine ⟨?_, ha.counted.symm, ha.once, fun id => ?_, ?_⟩
  · rw [show p.header.freeCount.toNat = c.now.freed.length from ha.counted]
    exact exec_walkFree ht.ready ha.listed
  · rw [ha.all id]
    refine and_congr_left fun _ => ?_
    rw [UInt32.le_iff_toNat_le, ← not_iff_not, not_not, ← UInt32.toNat_inj]
    simp
  rcases ht.ready.toUsable.exec_allocate with
    ⟨q, page, hexec, hne, ho, hface⟩ | ⟨q, hexec, hnone, hgrown⟩ | ⟨e, q, hexec, -, hrefused⟩
  · obtain ⟨⟨rest, hfreed⟩, -⟩ := ht.current.reused ht.ready.sane ho hne
    rw [hfreed] at ha ⊢
    refine ⟨fun hheld => ha.not_mem_free hheld List.mem_cons_self, q, hexec, ?_⟩
    exact congrArg (fun f : Face => f.header.pageCount) hface
  · rw [ha.eq_nil hnone]
    refine (if_pos hgrown.room).mpr ⟨fun hheld => ?_, q, hexec, ?_⟩
    · exact UInt32.lt_irrefl _ (ha.has_of_mem hheld).2
    · have hcount := congrArg Header.pageCount hgrown.header
      exact (congrArg UInt32.toNat hcount).trans (toNat_succ hgrown.room)
  · rcases hrefused with ⟨hnone, hfull, text, rfl⟩ | ⟨hne, hno, -⟩
    · rw [ha.eq_nil hnone]
      exact (if_neg (UInt32.not_lt.2 hfull)).mpr ⟨text, q, hexec⟩
    · obtain ⟨page, ho⟩ := ha.offers hne
      exact absurd ho (hno page)

/-- The client after it has been given page 1, has written it and given it back. -/
def gaveBack : Client := { now := { freed := [1] } }

/-- The pager after that. -/
def withFreePage : Pager :=
  { withFirstPage with
    header := { withFirstPage.header with freeHead := 1, freeCount := 1 }
    dirty := withFirstPage.dirty.insert 1 (Page.make 1 512 .free (Bytes.ofU32 0)).sealed }

theorem tenancy_withFreePage : ∃ d, Tenancy withFreePage d gaveBack := by
  obtain ⟨d, hopen⟩ := closed_emptyFiles.exec_open_empty (o := { pageSize := 512 }) rfl rfl rfl rfl
  have hstart : Tenancy onEmptyFile d {} := .opened new_emptyFiles rfl (by decide) hopen
  have hgiven : Tenancy _ d { now := { held := {1}, blank := [1] } } :=
    hstart.served .allocate trivial
  have hwritten : Tenancy withFirstPage d { now := { held := {1} } } :=
    hgiven.served (.write (.make 1 512 .overflow []))
      ⟨Page.length_make (by decide) 1 .overflow [], Multiset.mem_singleton_self 1⟩
  exact ⟨d, hwritten.served (.free 1) (Multiset.mem_singleton_self 1)⟩

/-- A page that was given back is found on the list and given out before the file grows. -/
theorem free_list_is_exact_free_page :
    ∃ d, Tenancy withFreePage d gaveBack ∧
      (∃ q, (walkFree 1 1).exec withFreePage d = (.ok [1], q, d)) ∧
      ∃ q, allocate.exec withFreePage d = (.ok 1, q, d) ∧ q.header.pageCount = 2 := by
  obtain ⟨d, hd⟩ := tenancy_withFreePage
  obtain ⟨hwalk, -, -, -, -, halloc⟩ := free_list_is_exact hd rfl
  exact ⟨d, hd, hwalk, halloc⟩

end PagedStore.Pager
