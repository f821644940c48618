import PagedStore.Proofs.PagerState

/-!
# What can be seen of a pager

The operations on pages see of a pager its header, its page size, the limit on its pages and the
pages themselves (`Face`); that a page is dirty, cached or in the file is hidden from them. The
meaning of a program of such operations can therefore be told in terms of faces (`Does`), and
everything else that a pager takes care of goes with it: that it stays ready, leaves the disk
alone, and can take back the operation under way.
-/

set_option autoImplicit false

namespace PagedStore

open PagedStore.Action

/-- What can be seen of a pager. -/
structure Face where
  header : Header
  pageSize : Nat
  maxPages : UInt32
  /-- What reading a page gives. -/
  pages : PageId → Except Error Page

namespace Face

/-- Whether a number is that of a page other than the header page. -/
def Has (f : Face) (id : PageId) : Prop := id ≠ 0 ∧ id < f.header.pageCount

/-- What every face of a pager satisfies. -/
structure Sane (f : Face) : Prop where
  size_mem : f.pageSize ∈ pageSizes
  size_eq : f.header.pageSize.toNat = f.pageSize
  page : ∀ id page, f.pages id = .ok page →
    page.id = id ∧ f.Has id ∧ page.image.length = f.pageSize ∧ page.verify = .ok ()

theorem Sane.bounds {f : Face} (h : f.Sane) : 512 ≤ f.pageSize ∧ f.pageSize ≤ 65536 :=
  pageSize_bounds h.size_mem

/-- All pages that can be read are as long as those of the file. A log that is laid over a file to
be read may hold longer or shorter ones. -/
def Even (f : Face) : Prop :=
  ∀ id page, f.pages id = .ok page → page.image.length = f.pageSize

theorem Sane.even {f : Face} (h : f.Sane) : f.Even := fun id page hpage =>
  (h.page id page hpage).2.2.1

/-- A face with another page in the place of one. -/
def set (f : Face) (page : Page) : Face :=
  { f with pages := Function.update f.pages page.id (.ok page.sealed) }

/-- A face with another header of as many pages. -/
def withHeader (f : Face) (h : Header) : Face := { f with header := h }

theorem pages_set_self (f : Face) (page : Page) : (f.set page).pages page.id = .ok page.sealed :=
  Function.update_self ..

theorem pages_set_of_ne {f : Face} {page : Page} {id : PageId} (h : id ≠ page.id) :
    (f.set page).pages id = f.pages id := Function.update_of_ne h ..

theorem Sane.set {f : Face} (h : f.Sane) {page : Page} (hid : f.Has page.id)
    (hlen : page.image.length = f.pageSize) : (f.set page).Sane where
  size_mem := h.size_mem
  size_eq := h.size_eq
  page other found hfound := by
    by_cases hother : other = page.id
    · subst hother
      rw [pages_set_self] at hfound
      obtain rfl := Except.ok.inj hfound
      have := h.bounds
      exact ⟨rfl, hid, (Page.length_sealed (by omega)).trans hlen, page.verify_sealed⟩
    · rw [pages_set_of_ne hother] at hfound
      exact h.page other found hfound

end Face

/-! ## Failures -/

/-- The failure of damaged pages. -/
def IsCorrupt (e : Error) : Prop := ∃ s, e = .corrupt s

theorem IsCorrupt.ne_endless {e : Error} (h : IsCorrupt e) : e ≠ .endless := by
  obtain ⟨s, rfl⟩ := h
  nofun

/-- The failure when there are as many pages as there may be. -/
def IsFull (e : Error) : Prop := ∃ s, e = .full s

/-- A page that can be read is one of the file, and one that cannot is damaged or there is none. -/
structure Face.Honest (f : Face) : Prop where
  has : ∀ id page, f.pages id = .ok page → f.Has id
  corrupt : ∀ id e, f.pages id = .error e → IsCorrupt e

/-- A page of no kind is damaged. -/
theorem corrupt_of_kind {page : Page} {e : Error} (h : page.kind = .error e) : IsCorrupt e := by
  rw [Page.kind, PageKind.ofTag] at h
  repeat' split at h
  all_goals cases h
  exact ⟨_, rfl⟩

namespace Pager

/-- A page that cannot be read is damaged. -/
theorem corrupt_of_view {p : Pager} {d : Disk} {id : PageId} {e : Error}
    (h : p.view d id = .error e) : IsCorrupt e := by
  rw [view] at h
  split at h
  · split at h
    · cases h
    · rw [fromFile] at h
      dsimp only at h
      split at h
      · cases h
        exact ⟨_, rfl⟩
      · split at h
        · cases h
          exact ⟨_, rfl⟩
        · cases h
  · cases h
    exact ⟨_, rfl⟩

/-- The face of a pager. -/
def face (p : Pager) (d : Disk) : Face := ⟨p.header, p.pageSize, p.maxPages, p.view d⟩

theorem Alike.face {p q : Pager} (h : Alike p q) (d : Disk) : q.face d = p.face d := by
  rw [Pager.face, Pager.face, h.header, h.pageSize, h.maxPages, h.view]

theorem face_inRange {p : Pager} {d : Disk} {id : PageId} :
    p.inRange id = true ↔ (p.face d).Has id := inRange_iff

theorem honest_face (p : Pager) (d : Disk) : (p.face d).Honest where
  has id page h := by
    refine face_inRange.1 (by_contra fun hout => ?_)
    have hview : p.view d id = .ok page := h
    rw [view, if_neg hout] at hview
    cases hview
  corrupt id e h := corrupt_of_view h

theorem Returnable.sane {p : Pager} (h : Returnable p.pageSize p.header p.dirty)
    (hp : p.pageSize ∈ pageSizes) (d : Disk) : (p.face d).Sane where
  size_mem := hp
  size_eq := h.size_eq
  page := by
    intro id page hp
    have hv : p.view d id = .ok page := hp
    rw [view] at hv
    split at hv
    · rename_i hr
      have hfound : page.id = id ∧ page.image.length = p.pageSize ∧ page.verify = .ok () := by
        split at hv
        · rename_i pg hpg
          obtain rfl := Except.ok.inj hv
          obtain ⟨hid, -, -, hlen, hver⟩ := h.sound id _ hpg
          exact ⟨hid, hlen, hver⟩
        · obtain ⟨rfl, hlen, hver⟩ := fromFile_eq_ok hv
          exact ⟨rfl, hlen, hver⟩
      exact ⟨hfound.1, face_inRange.1 hr, hfound.2.1, hfound.2.2⟩
    · cases hv

theorem Ready.sane {p : Pager} {d : Disk} (h : Ready p d) : (p.face d).Sane :=
  h.current.sane h.size_mem d

/-- Another header of as many pages shows the same pages. -/
theorem face_setHeader {p : Pager} {hd : Header} (hc : hd.pageCount = p.header.pageCount)
    (d : Disk) : ({ p with header := hd } : Pager).face d = (p.face d).withHeader hd := by
  have hview : ({ p with header := hd } : Pager).view d = p.view d :=
    funext fun id => view_setHeader (by rw [hc]) d
  rw [face, hview]
  rfl

/-- A later state of a pager within one operation. -/
structure Onward (d : Disk) (p q : Pager) : Prop extends Same p q where
  ready : Ready q d
  undone : q.undone = p.undone

theorem Onward.trans {d : Disk} {p q r : Pager} (h₁ : Onward d p q) (h₂ : Onward d q r) :
    Onward d p r :=
  ⟨h₁.toSame.trans h₂.toSame, h₂.ready, h₂.undone.trans h₁.undone⟩

theorem Ready.refl {p : Pager} {d : Disk} (h : Ready p d) : Onward d p p :=
  ⟨Same.refl p, h, rfl⟩

/-- From the face `f` a program leads to a face and a result with `Q`, or fails with `E`. -/
def Does {α : Type} (f : Face) (a : Action Pager α) (E : Error → Prop) (Q : α → Face → Prop) :
    Prop :=
  ∀ p d, Ready p d → p.face d = f →
    ∃ r q, a.exec p d = (r, q, d) ∧ Onward d p q ∧
      match r with
      | .ok x => Q x (q.face d)
      | .error e => E e

namespace Does

variable {α β : Type} {f : Face} {a : Action Pager α} {E : Error → Prop} {Q : α → Face → Prop}

/-! ## Putting programs together -/

theorem pure {x : α} (h : Q x f) : Does f (pure x) E Q := by
  rintro p d hp rfl
  exact ⟨_, p, rfl, hp.refl, h⟩

theorem throw {e : Error} (h : E e) : Does f (throw e) E Q := by
  rintro p d hp rfl
  exact ⟨_, p, rfl, hp.refl, h⟩

theorem ofResult (f : Face) (r : Except Error α) :
    Does f (ofResult r) (fun e => r = .error e) (fun x g => g = f ∧ r = .ok x) := by
  rintro p d hp rfl
  refine ⟨r, p, rfl, hp.refl, ?_⟩
  cases r with
  | ok x => exact ⟨rfl, rfl⟩
  | error e => rfl

theorem bind {k : α → Action Pager β} {R : β → Face → Prop} (ha : Does f a E Q)
    (hk : ∀ x g, Q x g → Does g (k x) E R) : Does f (a >>= k) E R := by
  intro p d hp hf
  obtain ⟨r, q, hexec, ho, hr⟩ := ha p d hp hf
  cases r with
  | error e => exact ⟨_, q, exec_bind_error hexec, ho, hr⟩
  | ok x =>
      obtain ⟨r', q', hexec', ho', hr'⟩ := hk x _ hr q d ho.ready rfl
      exact ⟨r', q', (exec_bind_ok hexec).trans hexec', ho.trans ho', hr'⟩

/-- A result that is there. -/
theorem ofResult_bind {r : Except Error α} {x : α} {k : α → Action Pager β} {R : β → Face → Prop}
    (hr : r = .ok x) (hk : Does f (k x) E R) : Does f (Action.ofResult r >>= k) E R := by
  subst hr
  exact hk

theorem mono {E' : Error → Prop} {Q' : α → Face → Prop} (h : Does f a E Q)
    (hE : ∀ e, E e → E' e) (hQ : ∀ x g, Q x g → Q' x g) : Does f a E' Q' := by
  intro p d hp hf
  obtain ⟨r, q, hexec, ho, hr⟩ := h p d hp hf
  refine ⟨r, q, hexec, ho, ?_⟩
  cases r with
  | error e => exact hE e hr
  | ok x => exact hQ x _ hr

theorem post {Q' : α → Face → Prop} (h : Does f a E Q) (hQ : ∀ x g, Q x g → Q' x g) :
    Does f a E Q' := h.mono (fun _ he => he) hQ

/-- A program may rely on what holds of all faces. -/
theorem of_sane (h : f.Sane → Does f a E Q) : Does f a E Q := by
  rintro p d hp rfl
  exact h hp.sane p d hp rfl

/-- The pager as a value. -/
theorem self_bind {k : Pager → Action Pager β} {R : β → Face → Prop}
    (hk : ∀ p : Pager, p.header = f.header → p.pageSize = f.pageSize → p.maxPages = f.maxPages →
      Does f (k p) E R) : Does f (self >>= k) E R := by
  rintro p d hp rfl
  exact hk p rfl rfl rfl p d hp rfl

/-! ## The operations on pages -/

theorem ensureWritable_bind {k : Unit → Action Pager β} {R : β → Face → Prop}
    (hk : Does f (k ()) E R) : Does f (ensureWritable >>= k) E R := by
  intro p d hp hf
  rw [exec_bind_ok (exec_ensureWritable hp)]
  exact hk p d hp hf

theorem read (f : Face) (id : PageId) :
    Does f (Pager.read id) (fun e => f.pages id = .error e)
      (fun page g => g = f ∧ f.pages id = .ok page) := by
  rintro p d hp rfl
  obtain ⟨q, hexec, ha, hq⟩ := exec_read hp id
  refine ⟨_, q, hexec, ⟨ha.toSame, hq, ha.undone⟩, ?_⟩
  cases hv : p.view d id with
  | error e => exact hv
  | ok page => exact ⟨ha.face d, hv⟩

/-- Reading a page that is known. -/
theorem read_ok {id : PageId} {page : Page} {R : Page → Face → Prop} (h : f.pages id = .ok page)
    (hR : R page f) : Does f (Pager.read id) E R := by
  refine (read f id).mono (fun e he => ?_) ?_
  · rw [h] at he
    cases he
  · rintro _ g ⟨rfl, hp⟩
    obtain rfl := Except.ok.inj (h.symm.trans hp)
    exact hR

/-- Writing a page of the right length. -/
theorem write {page : Page} (hlen : page.image.length = f.pageSize) :
    Does f (Pager.write page) (fun _ => ¬ f.Has page.id)
      (fun _ g => f.Has page.id ∧ g = f.set page) := by
  rintro p d hp rfl
  have hexec := exec_write hp page
  by_cases hr : p.inRange page.id = true
  · rw [if_pos hr] at hexec
    refine ⟨_, _, hexec, ⟨same_written p page, hp.written hr hlen, undone_written p page⟩, ?_⟩
    refine ⟨face_inRange.1 hr, ?_⟩
    rw [face, view_written hr]
    rfl
  · rw [if_neg hr] at hexec
    exact ⟨_, _, hexec, hp.refl, fun hh => hr (face_inRange.2 hh)⟩

theorem write_ok {page : Page} {R : Unit → Face → Prop} (hid : f.Has page.id)
    (hlen : page.image.length = f.pageSize) (hR : R () (f.set page)) :
    Does f (Pager.write page) E R :=
  (write hlen).mono (fun _ he => absurd hid he) fun _ _ hg => hg.2 ▸ hR

/-- Changing fields of the header other than those that say how large the file is. -/
theorem updateHeader {h : Header → Header} {R : Unit → Face → Prop}
    (hs : (h f.header).pageSize = f.header.pageSize)
    (hc : (h f.header).pageCount = f.header.pageCount) (hR : R () (f.withHeader (h f.header))) :
    Does f (update fun p => { p with header := h p.header }) E R := by
  rintro p d hp rfl
  refine ⟨_, _, exec_update .., ⟨⟨rfl, rfl, rfl, rfl, rfl, rfl, rfl, rfl⟩, hp.setHeader hs ?_, rfl⟩,
    ?_⟩
  · exact UInt32.le_of_eq hc.symm
  · have hview : ({ p with header := h p.header } : Pager).view d = p.view d :=
      funext fun id => view_setHeader (by rw [show (h p.header).pageCount = _ from hc]; rfl) d
    show R () ⟨_, _, _, _⟩
    rw [hview]
    exact hR

theorem setRoot {id : PageId} {R : Unit → Face → Prop}
    (hR : R () (f.withHeader { f.header with root := id })) : Does f (Pager.setRoot id) E R :=
  updateHeader (h := fun h => { h with root := id }) rfl rfl hR

theorem adjustRecordCount {delta : Int} {R : Unit → Face → Prop}
    (hR : R () (f.withHeader
      { f.header with recordCount := addSaturating f.header.recordCount delta })) :
    Does f (Pager.adjustRecordCount delta) E R :=
  updateHeader
    (h := fun h => { h with recordCount := addSaturating h.recordCount delta }) rfl rfl hR

end Does

end Pager

/-! ## Giving out pages and taking them back -/

theorem toNat_succ {n m : UInt32} (h : n < m) : (n + 1).toNat = n.toNat + 1 := by
  have := UInt32.lt_iff_toNat_lt.1 h
  have := m.toNat_lt
  rw [UInt32.toNat_add]
  exact Nat.mod_eq_of_lt (by simp; omega)

theorem toNat_pred {n : UInt32} (h : n ≠ 0) : (n - 1).toNat = n.toNat - 1 := by
  have hpos : n.toNat ≠ 0 := fun h0 => h (UInt32.toNat_inj.1 h0)
  have hle : (1 : UInt32) ≤ n := UInt32.le_iff_toNat_le.2 (Nat.one_le_iff_ne_zero.2 hpos)
  exact UInt32.toNat_sub_of_le n 1 hle

theorem lt_succ_iff {n m : UInt32} (h : n < m) (k : UInt32) : k < n + 1 ↔ k = n ∨ k < n := by
  rw [UInt32.lt_iff_toNat_lt, UInt32.lt_iff_toNat_lt, ← UInt32.toNat_inj, toNat_succ h]
  omega

/-- The face after a page was put on the free list. -/
def Face.freed (f : Face) (id : PageId) : Face :=
  (f.set (.make id f.pageSize .free (Bytes.ofU32 f.header.freeHead))).withHeader
    { f.header with freeHead := id, freeCount := f.header.freeCount + 1 }

theorem Face.pages_freed_of_ne {f : Face} {id other : PageId} (h : other ≠ id) :
    (f.freed id).pages other = f.pages other := Function.update_of_ne h ..

/-- The face after the first page was taken from the free list. -/
def Face.reused (f : Face) (page : Page) : Face :=
  f.withHeader { f.header with
    freeHead := UInt32.ofNat (Bytes.toNatLE (page.payload.take 4))
    freeCount := f.header.freeCount - 1 }

/-- The page is one that the free list can give out. -/
structure Face.Offers (f : Face) (page : Page) : Prop where
  first : f.pages f.header.freeHead = .ok page
  isFree : page.kind = .ok .free
  counted : f.header.freeCount ≠ 0

/-- The file has grown by a page. What that page holds is not known. -/
structure Face.Grown (f g : Face) : Prop where
  header : g.header = { f.header with pageCount := f.header.pageCount + 1 }
  pageSize : g.pageSize = f.pageSize
  maxPages : g.maxPages = f.maxPages
  room : f.header.pageCount < f.maxPages
  pages : ∀ id, id ≠ f.header.pageCount → g.pages id = f.pages id

/-- Why no page can be given out: there are as many pages as there may be, or the free list does not
begin with a free page. -/
def Face.Refuses (f : Face) (e : Error) : Prop :=
  f.header.freeHead = 0 ∧ f.maxPages ≤ f.header.pageCount ∧ IsFull e ∨
    f.header.freeHead ≠ 0 ∧ (∀ page, ¬ f.Offers page) ∧ IsCorrupt e

namespace Pager.Does

variable {f : Face}

theorem free (f : Face) (id : PageId) :
    Does f (Pager.free id) (fun _ => ¬ f.Has id) (fun _ g => f.Has id ∧ g = f.freed id) := by
  refine of_sane fun hf => ?_
  refine ensureWritable_bind (self_bind fun p hh hs _ => ?_)
  rw [hh, hs]
  have hlen := Page.length_make (Nat.le_trans (by decide) hf.bounds.1) id .free
    (Bytes.ofU32 f.header.freeHead)
  refine bind (write hlen) ?_
  rintro ⟨⟩ g ⟨hid, rfl⟩
  exact updateHeader (h := fun h => { h with freeHead := id, freeCount := h.freeCount + 1 })
    rfl rfl ⟨hid, rfl⟩

theorem takeFree (f : Face) :
    Does f (Pager.takeFree f.header.freeHead) (fun _ => ∀ page, ¬ f.Offers page)
      (fun id g => id = f.header.freeHead ∧ ∃ page, f.Offers page ∧ g = f.reused page) := by
  refine bind ((read f f.header.freeHead).mono (fun e he page ho => ?_) fun _ _ h => h) ?_
  · rw [ho.first] at he
    cases he
  rintro page g ⟨rfl, hpage⟩
  -- What the list offers can only be the page that was read.
  have same : ∀ other, g.Offers other → other = page := fun other ho =>
    Except.ok.inj (ho.first.symm.trans hpage)
  refine bind ((ofResult g page.kind).mono (fun e he other ho => ?_) fun _ _ h => h) ?_
  · have := ho.isFree
    rw [same other ho, he] at this
    cases this
  rintro kind g' ⟨rfl, hk⟩
  refine self_bind fun p hh _ _ => ?_
  rw [hh]
  split
  · -- The page is no free one or none is counted, so the list does not offer it.
    rename_i hbad
    refine throw fun other ho => ?_
    have hfree := ho.isFree
    rw [same other ho, hk] at hfree
    obtain rfl := Except.ok.inj hfree
    rcases hbad with hbad | hbad
    · exact hbad rfl
    · exact ho.counted hbad
  · rename_i hgood
    rw [not_or, not_not] at hgood
    obtain ⟨rfl, hcount⟩ := hgood
    refine bind (Q := fun _ g => g = g'.reused page) ?_ ?_
    · exact updateHeader (h := fun h => { h with
        freeHead := UInt32.ofNat (Bytes.toNatLE (page.payload.take 4))
        freeCount := h.freeCount - 1 }) rfl rfl rfl
    · rintro ⟨⟩ g rfl
      exact pure ⟨rfl, page, ⟨hpage, hk, hcount⟩, rfl⟩

/-- **Allocation gives out the first page of the free list, or a new one when the list is empty.**
It fails when there are too many pages, or when the list does not begin with a free page. -/
theorem allocate (f : Face) :
    Does f Pager.allocate
      (fun e => f.header.freeHead = 0 ∧ IsFull e ∨
        f.header.freeHead ≠ 0 ∧ ∀ page, ¬ f.Offers page)
      (fun id g =>
        (id = f.header.freeHead ∧ id ≠ 0 ∧ ∃ page, f.Offers page ∧ g = f.reused page) ∨
          (f.header.freeHead = 0 ∧ id = f.header.pageCount ∧ f.Grown g)) := by
  refine ensureWritable_bind (self_bind fun p hh _ hm => ?_)
  rw [hh, hm]
  split
  · rename_i hfree
    refine (takeFree f).mono (fun e he => .inr ⟨hfree, he⟩) ?_
    rintro id g ⟨rfl, hg⟩
    exact .inl ⟨rfl, hfree, hg⟩
  · rename_i hnone
    rw [not_not] at hnone
    split
    · exact throw (.inl ⟨hnone, _, rfl⟩)
    · rename_i hroom
      rw [UInt32.not_le] at hroom
      -- The count goes up while no page is written: all pages but the new one are as before.
      refine bind (Q := fun _ g => f.Grown g) ?_ fun _ _ hg => pure (.inr ⟨hnone, rfl, hg⟩)
      rintro p d hp rfl
      have hsucc := @lt_succ_iff p.header.pageCount p.maxPages hroom
      refine ⟨_, _, exec_update .., ⟨⟨rfl, rfl, rfl, rfl, rfl, rfl, rfl, rfl⟩,
        hp.setHeader rfl ?_, rfl⟩, rfl, rfl, rfl, hroom, ?_⟩
      · exact UInt32.le_of_lt ((hsucc _).2 (.inl rfl))
      · intro id hid
        refine view_setHeader ?_ d
        rw [hsucc]
        exact or_iff_right hid

end Pager.Does

end PagedStore
