import PagedStore.Proofs.ChangesEnd

/-!
# Giving out pages under a limit

A pager has room for the pages on its free list and for those by which its file may still grow. A
program that takes pages and gives none back (`Spends`) goes the same way under every limit, up to
the first page that is refused. It is refused only when there is no room left, and under a greater
limit it would be given out (`Lifted`). So whether a program runs out of pages is known from a run
under a greater limit: it does exactly if it takes more pages there than there is room for
(`Lifted.full_iff`).
-/

set_option autoImplicit false

namespace PagedStore.Pager

open PagedStore.Action

/-! ## Room and its use -/

/-- The pager with another limit on its pages. -/
def withLimit (p : Pager) (limit : UInt32) : Pager := { p with maxPages := limit }

@[simp] theorem header_withLimit (p : Pager) (limit : UInt32) :
    (p.withLimit limit).header = p.header := rfl

@[simp] theorem maxPages_withLimit (p : Pager) (limit : UInt32) :
    (p.withLimit limit).maxPages = limit := rfl

/-- The pager with the limit of a file that may grow as far as the format allows. -/
def unlimited (p : Pager) : Pager := p.withLimit ({} : Options).maxPages

theorem le_unlimited (limit : UInt32) : limit ≤ ({} : Options).maxPages := by
  rw [UInt32.le_iff_toNat_le]
  exact Nat.le_of_lt_succ limit.toNat_lt

/-- How many pages can be given out: those on the free list, and those by which the file may
grow. -/
def spare (p : Pager) : Nat :=
  p.header.freeCount.toNat + (p.maxPages.toNat - p.header.pageCount.toNat)

/-- How many pages were given out from one state to a later one, when none was given back: those
that are missing from the free list and those by which the file has grown. -/
def outlay (p q : Pager) : Nat :=
  (p.header.freeCount.toNat - q.header.freeCount.toNat) +
    (q.header.pageCount.toNat - p.header.pageCount.toNat)

/-- How many requests for a page were refused, if a program ended with this failure. -/
def refusal : Error → Nat
  | .full _ => 1
  | _ => 0

/-- How many requests for a page were refused: a program ends with the first one. -/
def refusals {α : Type} : Except Error α → Nat
  | .ok _ => 0
  | .error e => refusal e

/-- How many pages a run has asked for: each that was given out counts once
(`Tended.demand_allocate_bind`), and so does the one that was refused. -/
def demand {α : Type} (p : Pager) (out : Except Error α × Pager × Disk) : Nat :=
  p.outlay out.2.1 + refusals out.1

/-- Pages are given out and none is given back, and the file has not grown beyond its limit. -/
structure Spent (p q : Pager) : Prop where
  maxPages : q.maxPages = p.maxPages
  free : q.header.freeCount.toNat ≤ p.header.freeCount.toNat
  count : p.header.pageCount.toNat ≤ q.header.pageCount.toNat
  within : q.header.pageCount.toNat ≤ max p.header.pageCount.toNat p.maxPages.toNat

namespace Spent

variable {p q r : Pager}

theorem of_header (hheader : q.header = p.header) (hmax : q.maxPages = p.maxPages) : Spent p q := by
  refine ⟨hmax, ?_, ?_, ?_⟩ <;> rw [hheader]
  exact Nat.le_max_left _ _

theorem of_alike (h : Alike p q) : Spent p q := .of_header h.header h.maxPages

theorem trans (h : Spent p q) (h' : Spent q r) : Spent p r where
  maxPages := h'.maxPages.trans h.maxPages
  free := Nat.le_trans h'.free h.free
  count := Nat.le_trans h.count h'.count
  within := by
    have hfirst := h.within
    have hthen := h'.within
    rw [h.maxPages] at hthen
    omega

/-- What is given out one after the other adds up. -/
theorem outlay_add (h : Spent p q) (h' : Spent q r) : p.outlay q + q.outlay r = p.outlay r := by
  have := h.free
  have := h.count
  have := h'.free
  have := h'.count
  rw [outlay, outlay, outlay]
  omega

/-- One page was taken off the free list. -/
theorem of_taken (hmax : q.maxPages = p.maxPages)
    (hfree : q.header.freeCount.toNat + 1 = p.header.freeCount.toNat)
    (hcount : q.header.pageCount.toNat = p.header.pageCount.toNat) :
    Spent p q ∧ p.outlay q = 1 := by
  have hwithin : p.header.pageCount.toNat ≤ max p.header.pageCount.toNat p.maxPages.toNat :=
    Nat.le_max_left _ _
  refine ⟨⟨hmax, by omega, hcount.ge, hcount.trans_le hwithin⟩, ?_⟩
  rw [outlay]
  omega

/-- The file has grown by one page. -/
theorem of_grown (hmax : q.maxPages = p.maxPages)
    (hroom : p.header.pageCount.toNat < p.maxPages.toNat)
    (hfree : q.header.freeCount.toNat = p.header.freeCount.toNat)
    (hcount : q.header.pageCount.toNat = p.header.pageCount.toNat + 1) :
    Spent p q ∧ p.outlay q = 1 := by
  refine ⟨⟨hmax, hfree.le, by omega, by omega⟩, ?_⟩
  rw [outlay]
  omega

/-- No more is given out than there was room for. -/
theorem outlay_le (h : Spent p q) : p.outlay q ≤ p.spare := by
  have := h.within
  rw [outlay, spare]
  omega

end Spent

/-! ## Two limits -/

/-- What comes of a program under a limit, and what comes of it under a greater one. -/
inductive Lifted {α : Type} (limit : UInt32) :
    Except Error α × Pager × Disk → Except Error α × Pager × Disk → Prop where
  /-- No page was refused, and the limit makes no difference. -/
  | same {r : Except Error α} {q : Pager} {d : Disk} (h : ∀ e, r = .error e → ¬ IsFull e) :
      Lifted limit (r, q, d) (r, q.withLimit limit, d)
  /-- A page was refused when there was no room left. Under the greater limit at least one more was
  asked for. -/
  | stopped {e : Error} {r : Except Error α} {q q' : Pager} {d d' : Disk} (he : IsFull e)
      (hspare : q.spare = 0) (hnone : q'.header.freeCount = 0)
      (hmore : q.header.pageCount.toNat < q'.header.pageCount.toNat + refusals r) :
      Lifted limit (.error e, q, d) (r, q', d')

theorem refusals_of_not_full {α : Type} {r : Except Error α} (h : ∀ e, r = .error e → ¬ IsFull e) :
    refusals r = 0 := by
  cases r with
  | ok x => rfl
  | error e =>
      cases e with
      | full text => exact absurd ⟨text, rfl⟩ (h _ rfl)
      | _ => rfl

/-- Under the greater limit a program goes on where it was stopped, and no page comes back. -/
theorem Lifted.of_rest {α : Type} {limit : UInt32} {e : Error} {q q' : Pager} {d : Disk}
    {out : Except Error α × Pager × Disk} (he : IsFull e) (hspare : q.spare = 0)
    (hnone : q'.header.freeCount = 0)
    (hmore : q.header.pageCount.toNat < q'.header.pageCount.toNat) (hrest : Spent q' out.2.1) :
    Lifted limit (.error e, q, d) out := by
  have hfree := hrest.free
  rw [hnone, UInt32.toNat_zero, Nat.le_zero] at hfree
  exact .stopped he hspare (UInt32.toNat_inj.1 hfree)
    (Nat.lt_of_lt_of_le hmore (Nat.le_add_right_of_le hrest.count))

/-- **A program runs out of pages exactly if it asks for more, under a greater limit, than there is
room for under its own.** -/
theorem Lifted.full_iff {α : Type} {p : Pager} {limit : UInt32}
    {out out' : Except Error α × Pager × Disk} (h : Lifted limit out out')
    (hspent : Spent p out.2.1) :
    (∃ e, out.1 = .error e ∧ IsFull e) ↔ p.spare < demand p out' := by
  cases h with
  | @same r q d hr =>
      have hle := hspent.outlay_le
      have hdemand : demand p (r, q.withLimit limit, d) = p.outlay q := by
        rw [demand, refusals_of_not_full hr]
        rfl
      refine iff_of_false ?_ (by rw [hdemand]; exact Nat.not_lt.2 hle)
      rintro ⟨e, he, hfull⟩
      exact hr e he hfull
  | stopped he hspare hnone hmore =>
      refine iff_of_true ⟨_, rfl, he⟩ ?_
      have hcount := hspent.count
      have hmax := congrArg UInt32.toNat hspent.maxPages
      dsimp only at hcount hmax
      rw [spare] at hspare
      rw [demand, outlay, spare, hnone]
      simp only [UInt32.toNat_zero]
      omega

/-! ## Programs to which the limit is nothing -/

section

variable {α β : Type}

/-- A program that does the same under every limit. -/
def Heedless (a : Action Pager α) : Prop :=
  ∀ p d limit, a.exec (p.withLimit limit) d =
    ((a.exec p d).1, (a.exec p d).2.1.withLimit limit, (a.exec p d).2.2)

namespace Heedless

variable {a : Action Pager α}

theorem ofResult (r : Except Error α) : Heedless (ofResult r) := fun _ _ _ => rfl

theorem throw (e : Error) : Heedless (throw e : Action Pager α) := ofResult (.error e)

theorem pure (x : α) : Heedless (pure x : Action Pager α) := ofResult (.ok x)

theorem update {f : Pager → Pager} (hf : ∀ p limit, f (p.withLimit limit) = (f p).withLimit limit) :
    Heedless (update f) := by
  intro p d limit
  simp only [exec_update, hf]

theorem self_bind {k : Pager → Action Pager β} (hsame : ∀ p limit, k (p.withLimit limit) = k p)
    (hk : ∀ p, Heedless (k p)) : Heedless (self >>= k) := by
  intro p d limit
  show (k (p.withLimit limit)).exec (p.withLimit limit) d = _
  rw [hsame]
  exact hk p p d limit

theorem disk_bind {k : Disk → Action Pager β} (hk : ∀ d, Heedless (k d)) :
    Heedless (disk >>= k) := fun p d limit => hk d p d limit

theorem bind {k : α → Action Pager β} (ha : Heedless a) (hk : ∀ x, Heedless (k x)) :
    Heedless (a >>= k) := by
  intro p d limit
  have hfirst := ha p d limit
  match hexec : a.exec p d with
  | (.error e, q, d') =>
      rw [hexec] at hfirst
      rw [exec_bind_error hexec, exec_bind_error hfirst]
  | (.ok x, q, d') =>
      rw [hexec] at hfirst
      rw [exec_bind_ok hexec, exec_bind_ok hfirst]
      exact hk x q d' limit

theorem ensureUsable : Heedless ensureUsable := by
  refine .self_bind (fun _ _ => rfl) fun p => ?_
  split
  · exact .throw _
  · exact .pure ()

theorem ensureWritable : Heedless ensureWritable := by
  refine .self_bind (fun _ _ => rfl) fun p => ?_
  cases p.readOnly with
  | true => exact .throw _
  | false => exact ensureUsable

theorem load (id : PageId) : Heedless (load id) := by
  refine .self_bind (fun _ _ => rfl) fun p => .disk_bind fun d => ?_
  dsimp only
  split
  · exact .throw _
  · split
    · exact .throw _
    · exact .bind (.update fun _ _ => rfl) fun _ => .pure _

theorem read (id : PageId) : Heedless (read id) := by
  refine .bind ensureUsable fun _ => .self_bind (fun _ _ => rfl) fun p => ?_
  dsimp only
  split
  · exact .throw _
  · split
    · exact .pure _
    · refine .bind (.update fun _ _ => rfl) fun _ => ?_
      split
      · exact .pure _
      · exact load id

theorem write (page : Page) : Heedless (write page) := by
  refine .bind ensureWritable fun _ => .self_bind (fun _ _ => rfl) fun p => ?_
  split
  · exact .throw _
  · exact .update fun _ _ => rfl

theorem takeFree (id : PageId) : Heedless (takeFree id) := by
  refine .bind (read id) fun page => .bind (.ofResult _) fun kind => ?_
  refine .self_bind (fun _ _ => rfl) fun p => ?_
  split
  · exact .throw _
  · exact .bind (.update fun _ _ => rfl) fun _ => .pure _

theorem setRoot (id : PageId) : Heedless (setRoot id) := .update fun _ _ => rfl

end Heedless

/-- A program that only reads does not see the limit. -/
theorem Reading.heedless {a : Action Pager α} (h : Reading a) : Heedless a := by
  induction h with
  | ofResult r => exact .ofResult r
  | look hsame next ih => exact .self_bind (fun p limit => hsame p (p.withLimit limit)) ih
  | read id => exact .read id
  | bind first next ihfirst ihnext => exact .bind ihfirst ihnext

/-! ## Programs that take pages -/

theorem Tended.withLimit {held : List PageId} {p : Pager} {d : Disk} (h : Tended held p d)
    (limit : UInt32) : Tended held (p.withLimit limit) d := by
  obtain ⟨⟨⟨hmirrors, hwriter⟩, hpoisoned, hlog⟩, ⟨used, free, ha, hheld⟩, hroot⟩ := h
  refine ⟨⟨⟨fun hu => ?_, fun hu log hl => ?_⟩, hpoisoned, hlog⟩, ⟨used, free, ?_, hheld⟩, hroot⟩
  · obtain ⟨hcached, hsound⟩ := hmirrors hu
    exact ⟨hcached, hsound⟩
  · obtain ⟨hh, ⟨hsize, hcurrent⟩, hpages, hback⟩ := hwriter hu log hl
    exact ⟨hh, ⟨hsize, hcurrent⟩, hpages, hback⟩
  · exact ha.congr rfl rfl rfl (fun _ _ => rfl) rfl

theorem Tended.legible {held : List PageId} {p : Pager} {d : Disk} (h : Tended held p d) :
    Legible p d := ⟨h.usable.coherent, h.usable.unpoisoned⟩

/-- When the free list begins nowhere no free pages are counted. -/
theorem Tended.freeCount_eq {held : List PageId} {p : Pager} {d : Disk} (h : Tended held p d)
    (hnone : p.header.freeHead = 0) : p.header.freeCount = 0 := by
  obtain ⟨⟨used, free, ha, -⟩, -⟩ := h.fit
  have hcounted := ha.counted
  rw [ha.eq_nil hnone] at hcounted
  exact UInt32.toNat_inj.1 hcounted

/-- **Every page that is given out counts once**, and a request that is refused changes nothing. -/
theorem Tended.allocated_or_refused {held : List PageId} {p : Pager} {d : Disk}
    (h : Tended held p d) :
    (∃ id q, allocate.exec p d = (.ok id, q, d) ∧ Spent p q ∧ p.outlay q = 1) ∨
      ∃ e q, allocate.exec p d = (.error e, q, d) ∧ Alike p q := by
  rcases h.usable.exec_allocate with
    ⟨q, page, hexec, -, ho, hface⟩ | ⟨q, hexec, -, hgrown⟩ | ⟨e, q, hexec, halike, -⟩
  · have hheader : q.header = ((p.face d).reused page).header := congrArg Face.header hface
    have hsome : p.header.freeCount.toNat ≠ 0 := fun h0 => ho.counted (UInt32.toNat_inj.1 h0)
    have hpred : q.header.freeCount.toNat = p.header.freeCount.toNat - 1 := by
      rw [hheader]
      exact toNat_pred ho.counted
    refine .inl ⟨_, q, hexec, Spent.of_taken (congrArg Face.maxPages hface) (by omega) ?_⟩
    rw [hheader]
    rfl
  · have hheader : q.header = { p.header with pageCount := p.header.pageCount + 1 } :=
      hgrown.header
    have hroom : p.header.pageCount < p.maxPages := hgrown.room
    refine .inl ⟨_, q, hexec, Spent.of_grown hgrown.maxPages (UInt32.lt_iff_toNat_lt.1 hroom) ?_ ?_⟩
    · rw [hheader]
    · rw [hheader]
      exact toNat_succ hroom
  · exact .inr ⟨e, q, hexec, halike⟩

/-- **A page is refused only when there is no room**, and given out under a greater limit. -/
theorem Tended.lifted_allocate {held : List PageId} {p : Pager} {d : Disk} {limit : UInt32}
    (h : Tended held p d) (hlimit : p.maxPages ≤ limit) :
    Lifted limit (allocate.exec p d) (allocate.exec (p.withLimit limit) d) := by
  rw [h.usable.exec_allocate_eq, (h.withLimit limit).usable.exec_allocate_eq, header_withLimit,
    maxPages_withLimit]
  by_cases hsome : p.header.freeHead ≠ 0
  · -- The page is taken off the free list, and the limit is not looked at.
    have hsame := Heedless.takeFree p.header.freeHead p d limit
    rw [if_pos hsome, if_pos hsome]
    rcases h.usable.exec_takeFree with
      ⟨q, page, htake, -⟩ | ⟨e, q, htake, -, ⟨s, rfl⟩, -⟩ <;>
      rw [htake] at hsame ⊢
    · exact hsame ▸ .same nofun
    · refine hsame ▸ .same ?_
      rintro _ ⟨⟩ ⟨t, ⟨⟩⟩
  · rw [if_neg hsome, if_neg hsome]
    have hnone := h.freeCount_eq (not_not.1 hsome)
    by_cases hfull : p.maxPages ≤ p.header.pageCount
    · rw [if_pos hfull]
      have hspare : p.spare = 0 := by
        rw [UInt32.le_iff_toNat_le] at hfull
        rw [spare, hnone, UInt32.toNat_zero, Nat.sub_eq_zero_of_le hfull]
      by_cases hfull' : limit ≤ p.header.pageCount
      · rw [if_pos hfull']
        exact .stopped ⟨_, rfl⟩ hspare hnone (Nat.lt_succ_self _)
      · rw [if_neg hfull']
        have hsucc := toNat_succ (UInt32.not_le.1 hfull')
        exact .stopped ⟨_, rfl⟩ hspare hnone (hsucc ▸ Nat.lt_succ_self _)
    · have hroom : ¬ limit ≤ p.header.pageCount := fun hle => hfull (UInt32.le_trans hlimit hle)
      rw [if_neg hfull, if_neg hroom]
      exact .same nofun

/-- A program that takes pages, gives none back, and looks at the limit only when it asks for
one. -/
structure Spends {α : Type} (held : List PageId) (a : Action Pager α) (after : α → List PageId) :
    Prop where
  tends : Tends held a after
  spent : ∀ p d, Tended held p d → Spent p (a.exec p d).2.1
  lifted : ∀ p d limit, Tended held p d → p.maxPages ≤ limit →
    Lifted limit (a.exec p d) (a.exec (p.withLimit limit) d)

namespace Spends

variable {a : Action Pager α} {held : List PageId} {after : α → List PageId}

/-- A program to which the limit is nothing, and which takes pages off the free list at most. -/
theorem of_heedless (ht : Tends held a after) (hh : Heedless a)
    (ha : ∀ p d, Tended held p d → ∃ r q, a.exec p d = (r, q, d) ∧ Spent p q ∧
      ∀ e, r = .error e → ¬ IsFull e) : Spends held a after where
  tends := ht
  spent p d hp := by
    obtain ⟨r, q, hexec, hspent, -⟩ := ha p d hp
    rw [hexec]
    exact hspent
  lifted p d limit hp _ := by
    obtain ⟨r, q, hexec, -, hr⟩ := ha p d hp
    rw [hh p d limit, hexec]
    exact .same hr

/-- A program that only reads, where no failure says that the file is full. -/
theorem of_reading (ha : Reading a) (ht : Tends held a after)
    (he : ∀ p d e, Tended held p d → (a.exec p d).1 = .error e → ¬ IsFull e) :
    Spends held a after := by
  refine .of_heedless ht ha.heedless fun p d hp => ?_
  obtain ⟨halike, hd⟩ := ha.orderly.leaves p d
  exact ⟨_, _, Prod.ext rfl (Prod.ext rfl hd), .of_alike halike, fun e => he p d e hp⟩

theorem ofResult {r : Except Error α} (he : ∀ e, r = .error e → ¬ IsFull e)
    (hle : ∀ x, r = .ok x → after x ⊆ held) : Spends held (ofResult r) after := by
  refine .of_heedless (fun p d hp => ⟨r, p, rfl, ?_⟩) (.ofResult r) fun p d _ =>
    ⟨r, p, rfl, .of_header rfl rfl, he⟩
  cases r with
  | error e => exact hp
  | ok x => exact ⟨hp.usable, hp.fit.mono (hle x rfl)⟩

theorem pure {x : α} (h : after x ⊆ held) : Spends held (pure x) after := by
  refine .ofResult nofun ?_
  rintro _ ⟨⟩
  exact h

theorem throw {e : Error} (he : ¬ IsFull e) : Spends held (throw e) after := by
  refine .ofResult ?_ nofun
  rintro _ ⟨⟩
  exact he

theorem self_bind {k : Pager → Action Pager α} (hsame : ∀ p limit, k (p.withLimit limit) = k p)
    (hk : ∀ p, Spends held (k p) after) : Spends held (self >>= k) after where
  tends p d hp := (hk p).tends p d hp
  spent p d hp := (hk p).spent p d hp
  lifted p d limit hp hlimit := by
    show Lifted limit ((k p).exec p d) ((k (p.withLimit limit)).exec (p.withLimit limit) d)
    rw [hsame]
    exact (hk p).lifted p d limit hp hlimit

/-- **One program after the other.** -/
theorem bind {k : α → Action Pager β} {after' : β → List PageId} (ha : Spends held a after)
    (hle : ∀ x, held ⊆ after x) (hk : ∀ x, Spends (after x) (k x) after') :
    Spends held (a >>= k) after' where
  tends := ha.tends.bind hle fun x => (hk x).tends
  spent p d hp := by
    have hfirst := ha.spent p d hp
    obtain ⟨r, q, hexec, hr⟩ := ha.tends p d hp
    rw [hexec] at hfirst
    cases r with
    | error e =>
        rw [exec_bind_error hexec]
        exact hfirst
    | ok x =>
        rw [exec_bind_ok hexec]
        exact hfirst.trans ((hk x).spent q d hr)
  lifted p d limit hp hlimit := by
    have hfirst := ha.lifted p d limit hp hlimit
    have hspent := ha.spent p d hp
    obtain ⟨r, q, hexec, hr⟩ := ha.tends p d hp
    obtain ⟨r', q', hexec', hr'⟩ := ha.tends (p.withLimit limit) d (hp.withLimit limit)
    rw [hexec, hexec'] at hfirst
    rw [hexec] at hspent
    cases hfirst with
    | same h =>
        cases r with
        | error e =>
            rw [exec_bind_error hexec, exec_bind_error hexec']
            refine .same ?_
            rintro _ ⟨⟩
            exact h e rfl
        | ok x =>
            rw [exec_bind_ok hexec, exec_bind_ok hexec']
            exact (hk x).lifted q d limit hr (hspent.maxPages ▸ hlimit)
    | @stopped e _ _ _ _ _ he hspare hnone hmore =>
        rw [exec_bind_error hexec]
        cases r' with
        | error e' =>
            rw [exec_bind_error hexec']
            exact .stopped he hspare hnone hmore
        | ok x =>
            rw [exec_bind_ok hexec']
            exact .of_rest he hspare hnone hmore ((hk x).spent q' d hr')

/-! ### Single pages -/

theorem allocate (held : List PageId) : Spends held Pager.allocate fun id => id :: held where
  tends := .allocate held
  spent p d hp := by
    obtain ⟨id, q, hexec, hspent, -⟩ | ⟨e, q, hexec, halike⟩ := hp.allocated_or_refused
    · exact hexec ▸ hspent
    · exact hexec ▸ .of_alike halike
  lifted _ _ _ hp hlimit := hp.lifted_allocate hlimit

/-- Writing a page that is made of what can be seen of the pager but for its limit, where that gives
one. -/
theorem writeResult {page : Pager → Except Error Page}
    (hsame : ∀ p limit, page (p.withLimit limit) = page p)
    (hlen : ∀ (p : Pager) image, p.pageSize ∈ pageSizes → page p = .ok image →
      image.image.length = p.pageSize)
    (hid : ∀ p image, page p = .ok image → image.id ∈ held)
    (hfull : ∀ p e, page p = .error e → ¬ IsFull e) :
    Spends held (self >>= fun p => Action.ofResult (page p) >>= Pager.write) fun _ => held := by
  have hheedless : Heedless (self >>= fun p => Action.ofResult (page p) >>= Pager.write) :=
    .self_bind (fun p limit => by rw [hsame]) fun p => .bind (.ofResult _) fun image => .write image
  refine .of_heedless (.writeResult hlen hid) hheedless fun p d hp => ?_
  rw [exec_bind, exec_self]
  dsimp only
  cases hpage : page p with
  | error e =>
      refine ⟨_, p, exec_bind_error (exec_ofResult _ p d), .of_header rfl rfl, ?_⟩
      rintro _ ⟨⟩
      exact hfull p e hpage
  | ok image =>
      rw [exec_bind_ok (exec_ofResult _ p d)]
      rcases hp.usable.exec_write image with ⟨-, hexec, -⟩ | ⟨s, hexec⟩
      · exact ⟨_, _, hexec, .of_header rfl rfl, nofun⟩
      · refine ⟨_, _, hexec, .of_header rfl rfl, ?_⟩
        rintro _ ⟨⟩ ⟨t, ⟨⟩⟩

/-- Writing a page that is made of what can be seen of the pager, but for its limit. -/
theorem write {page : Pager → Page} (hsame : ∀ p limit, page (p.withLimit limit) = page p)
    (hlen : ∀ p : Pager, p.pageSize ∈ pageSizes → (page p).image.length = p.pageSize)
    (hid : ∀ p, (page p).id ∈ held) :
    Spends held (self >>= fun p => Pager.write (page p)) fun _ => held := by
  refine @writeResult held (fun p => .ok (page p)) (fun p limit => by rw [hsame])
    (fun p image hsize h => ?_) (fun p image h => ?_) fun p e h => ?_
  · cases h
    exact hlen p hsize
  · cases h
    exact hid p
  · cases h

/-- Naming a page in use as the root. -/
theorem setRoot {id : PageId} (hid : id ∈ held) : Spends held (Pager.setRoot id) fun _ => held := by
  refine .of_heedless (fun p d hp => ?_) (.setRoot id) fun p d _ => ?_
  · have husable := hp.usable.of_orderly (Orderly.setRoot id) (exec_update _ p d)
    refine ⟨_, _, exec_update _ p d, husable, ?_⟩
    have hface := @face_setHeader p { p.header with root := id } rfl d
    exact hface ▸ hp.fit.withHeader (hp.fit.has hid).2 p.header.recordCount
  · exact ⟨_, _, exec_update _ p d, ⟨rfl, Nat.le_refl _, Nat.le_refl _, Nat.le_max_left _ _⟩, nofun⟩

end Spends

/-- A program that takes a page at first asks for one more than what follows. -/
theorem Tended.demand_allocate_bind {held : List PageId} {p q : Pager} {d d' : Disk} {id : PageId}
    {α : Type} {k : PageId → Action Pager α} (h : Tended held p d)
    (hexec : allocate.exec p d = (.ok id, q, d')) (hk : Spent q ((k id).exec q d').2.1) :
    demand p ((allocate >>= k).exec p d) = 1 + demand q ((k id).exec q d') := by
  obtain ⟨_, _, htaken, hspent, hone⟩ | ⟨e, _, hrefused, -⟩ := h.allocated_or_refused
  · cases htaken.symm.trans hexec
    rw [exec_bind_ok hexec, demand, demand, ← hspent.outlay_add hk, hone, Nat.add_assoc]
  · cases hrefused.symm.trans hexec

end

/-! ## Programs that take pages from here on -/

section

variable {α β : Type} {a : Action Pager α} {p q : Pager} {d : Disk}

/-- What is known of a program that takes pages where it stands now. -/
structure Pays (a : Action Pager α) (p : Pager) (d : Disk) : Prop where
  legible : ∀ x q d', a.exec p d = (.ok x, q, d') → Legible q d'
  spent : Spent p (a.exec p d).2.1
  lifted : ∀ limit, p.maxPages ≤ limit →
    Lifted limit (a.exec p d) (a.exec (p.withLimit limit) d)

theorem Spends.pays {held : List PageId} {after : α → List PageId} (h : Spends held a after)
    (hp : Tended held p d) : Pays a p d where
  legible x q d' hexec := by
    obtain ⟨r, q', hexec', hr⟩ := h.tends p d hp
    rw [hexec] at hexec'
    cases hexec'
    exact hr.legible
  spent := h.spent p d hp
  lifted limit := h.lifted p d limit hp

/-- A question before it makes no difference. -/
theorem Pays.after_reading {k : α → Action Pager β} {x : α} (ha : Reading a)
    (hexec : a.exec p d = (.ok x, q, d)) (hk : Pays (k x) q d) : Pays (a >>= k) p d where
  legible y q' d' h := hk.legible y q' d' ((exec_bind_ok hexec).symm.trans h)
  spent := by
    obtain ⟨halike, -⟩ := ha.orderly.leaves.of_exec hexec
    rw [exec_bind_ok hexec]
    exact (Spent.of_alike halike).trans hk.spent
  lifted limit hlimit := by
    obtain ⟨halike, -⟩ := ha.orderly.leaves.of_exec hexec
    have hexec' : a.exec (p.withLimit limit) d = (.ok x, q.withLimit limit, d) := by
      rw [ha.heedless p d limit, hexec]
    rw [exec_bind_ok hexec, exec_bind_ok hexec']
    exact hk.lifted limit (halike.maxPages ▸ hlimit)

end

end PagedStore.Pager
