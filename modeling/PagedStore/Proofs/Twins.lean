import PagedStore.Proofs.Commits
import PagedStore.Proofs.Undoing

/-!
# Pagers that differ in their caches

What is cached is hidden from those who use a pager, whatever the pages of its file hold, be they
damaged, inconsistent or missing. Two pagers are twins when they differ in nothing but the cache
and the counters, and each of them is coherent: it has cached only what the file holds, and what it
may come to write into the file are whole pages. A program is blind to the cache when from twins it
leads to twins, with the same result and the same disk (`Blind`).

The programs on pages are orderly besides (`Orderly`): they leave the disk alone, and what they do
to the pager is nothing that can be seen (`Alike`), or at least nothing that taking back the
operation under way does not undo (`Undoable`).
-/

set_option autoImplicit false

namespace PagedStore.Pager

open PagedStore.Action

/-! ## Coherent pagers -/

/-- A pager that may write to its file: whatever it comes to write there are whole pages. -/
structure Writer (p : Pager) (d : Disk) (log : NodeId) : Prop where
  held : Held p.path p.file log d
  tidy : p.Tidy
  size_eq : p.committed.pageSize.toNat = p.pageSize
  back : ∀ hm, p.undone = some hm → Returnable p.pageSize hm.1 hm.2

/-- A pager whose cache is of no consequence. Nothing is asked of one that must not be used any
more. -/
structure Coherent (p : Pager) (d : Disk) : Prop where
  mirrors : p.poisoned = none → Mirrors p d
  writer : p.poisoned = none → ∀ log, p.log = some log → Writer p d log

theorem Ready.coherent {p : Pager} {d : Disk} (h : Ready p d) : Coherent p d where
  mirrors _ := h.mirrors
  writer _ log hlog := by
    obtain ⟨other, hother, hheld, -⟩ := h.held
    obtain rfl : other = log := Option.some.inj (hother.symm.trans hlog)
    exact ⟨hheld, h.tidy, h.size_eq, h.back⟩

namespace Coherent

variable {p q : Pager} {d : Disk}

theorem of_poisoned (h : p.poisoned ≠ none) (d : Disk) : Coherent p d :=
  ⟨fun hu => absurd hu h, fun hu => absurd hu h⟩

/-- Another working state may take the place of one when it can be written as well. -/
theorem replace (h : Coherent p d) (hs : Same p q) (hc : q.cache = p.cache)
    (current : ∀ log, Writer p d log → Returnable p.pageSize q.header q.dirty)
    (back : ∀ log, Writer p d log → ∀ hm, q.undone = some hm →
      Returnable p.pageSize hm.1 hm.2) : Coherent q d where
  mirrors hu := by
    have hm := h.mirrors (hs.poisoned.symm.trans hu)
    constructor
    · rw [hc, hs.file, hs.pageSize]
      exact hm.cached
    · rw [hc]
      exact hm.cache
  writer hu log hlog := by
    have hw := h.writer (hs.poisoned.symm.trans hu) log (hs.log.symm.trans hlog)
    refine ⟨?_, ⟨?_, ?_⟩, ?_, ?_⟩
    · rw [hs.path, hs.file]
      exact hw.held
    · rw [hs.pageSize]
      exact hw.tidy.size_mem
    · rw [hs.pageSize]
      exact current log hw
    · rw [hs.committed, hs.pageSize]
      exact hw.size_eq
    · rw [hs.pageSize]
      exact back log hw

/-- Another cache may take the place of one that mirrors the file. -/
theorem recached (h : Coherent p d) (ha : Alike p q) (hm : p.poisoned = none → Mirrors q d) :
    Coherent q d where
  mirrors hu := hm (ha.poisoned.symm.trans hu)
  writer hu log hlog := by
    have hw := h.writer (ha.poisoned.symm.trans hu) log (ha.log.symm.trans hlog)
    refine ⟨?_, ⟨?_, ?_⟩, ?_, ?_⟩
    · rw [ha.path, ha.file]
      exact hw.held
    · rw [ha.pageSize]
      exact hw.tidy.size_mem
    · rw [ha.pageSize, ha.header, ha.dirty]
      exact hw.tidy.current
    · rw [ha.committed, ha.pageSize]
      exact hw.size_eq
    · rw [ha.pageSize, ha.undone]
      exact hw.back

/-- A header with the same page size and no fewer pages may take the place of another. -/
theorem setHeader (h : Coherent p d) {hd : Header} (hs : hd.pageSize = p.header.pageSize)
    (hc : p.header.pageCount ≤ hd.pageCount) : Coherent { p with header := hd } d := by
  refine h.replace ⟨rfl, rfl, rfl, rfl, rfl, rfl, rfl, rfl⟩ rfl (fun log hw => ⟨?_, ?_⟩)
    fun log hw => hw.back
  · rw [← hw.tidy.current.size_eq, ← hs]
  · intro id page hp
    obtain ⟨hid, h0, hlt, hrest⟩ := hw.tidy.current.sound id page hp
    exact ⟨hid, h0, UInt32.lt_of_lt_of_le hlt hc, hrest⟩

theorem written (h : Coherent p d) {page : Page} (hr : p.inRange page.id = true)
    (hlen : p.pageSize ∈ pageSizes → page.image.length = p.pageSize) :
    Coherent (p.written page) d := by
  refine h.replace (same_written p page) rfl (fun log hw => ⟨hw.tidy.current.size_eq, ?_⟩)
    fun log hw => ?_
  · intro id other hother
    rw [Pager.written, PageMap.getElem?_insert] at hother
    split at hother
    · rename_i hid
      obtain rfl := Option.some.inj hother
      obtain ⟨h0, hlt⟩ := inRange_iff.1 hr
      refine ⟨hid, hid ▸ h0, hid ▸ hlt, ?_, page.verify_sealed⟩
      have hsize := hlen hw.tidy.size_mem
      have hfive := hw.tidy.five_le
      rw [Page.length_sealed, hsize]
      rw [hsize]
      exact Nat.le_trans (by decide) hfive
    · exact hw.tidy.current.sound id other hother
  · rw [undone_written]
    exact hw.back

theorem begun (h : Coherent p d) : Coherent p.begun d := by
  refine h.replace (same_begun p) rfl (fun _ hw => hw.tidy.current) ?_
  rintro log hw hm ⟨⟩
  exact hw.tidy.current

theorem ended (h : Coherent p d) : Coherent p.ended d := by
  refine h.replace (same_ended p) rfl (fun _ hw => hw.tidy.current) ?_
  rintro log hw hm ⟨⟩

theorem takenBack (h : Coherent p d) : Coherent p.takenBack d := by
  rw [Pager.takenBack]
  split
  · exact h
  · rename_i hd dirty hu
    refine h.replace ⟨rfl, rfl, rfl, rfl, rfl, rfl, rfl, rfl⟩ rfl
      (fun _ hw => hw.back (hd, dirty) hu) ?_
    rintro log hw hm ⟨⟩

theorem abandoned (h : Coherent p d) (e : Error) : Coherent (p.abandoned e) d := by
  unfold Pager.abandoned
  split
  · exact h.ended
  · exact h.takenBack

theorem resize (h : Coherent p d) (pages : Nat) :
    Coherent { p with cache := p.cache.resize pages } d :=
  h.recached (alike_resize p pages) fun hu => (h.mirrors hu).resize pages

theorem rolledBack (h : Coherent p d) : Coherent p.rolledBack d := by
  refine h.replace ⟨rfl, rfl, rfl, rfl, rfl, rfl, rfl, rfl⟩ rfl (fun _ hw => ⟨hw.size_eq, ?_⟩) ?_
  · intro id page hp
    simp [Pager.rolledBack] at hp
  · rintro log hw hm ⟨⟩

/-- A commit that is not stopped brings into the file what it puts into the cache. -/
theorem published (h : Coherent p d) (hu : p.poisoned = none) {log : NodeId}
    (hlog : p.log = some log) (hc : p.crashPoint = none) :
    Coherent p.published (FileEffect.performAll p.file log p.commitEffects d) := by
  have hw := h.writer hu log hlog
  have hb := hw.held.became hc
  have hcar : Carried p (d.readAll p.file)
      ((FileEffect.performAll p.file log p.commitEffects d).readAll p.file) := by
    rw [hb.file]
    exact hw.tidy.carried_mainWrites hc _
  refine ⟨fun _ => hw.tidy.mirrors_published (h.mirrors hu) hcar, fun _ other hother => ?_⟩
  obtain rfl : log = other := Option.some.inj (hlog.symm.trans hother)
  refine ⟨hw.held.of_shape hb.shape, ⟨hw.tidy.size_mem, hw.tidy.current.size_eq, ?_⟩,
    hw.tidy.current.size_eq, ?_⟩
  · intro id page hp
    simp [Pager.published] at hp
  · rintro hm ⟨⟩

end Coherent

/-! ## Twins -/

/-- Two coherent pagers that differ in nothing but the cache and the counters. -/
structure Twins (d : Disk) (p q : Pager) : Prop extends Alike p q where
  left : Coherent p d
  right : Coherent q d

theorem Coherent.twins {p : Pager} {d : Disk} (h : Coherent p d) : Twins d p p := ⟨.refl p, h, h⟩

/-- All that is left open about a twin. -/
theorem Alike.eq {p q : Pager} (h : Alike p q) :
    q = { p with cache := q.cache, counts := q.counts } := by
  obtain ⟨⟨hpath, hfile, hlog, hsize, hcommitted, hmax, hcrash, hpoisoned⟩, hheader, hdirty,
    hsavepoint⟩ := h
  cases q
  cases p
  dsimp only at *
  subst hpath hfile hlog hsize hcommitted hmax hcrash hpoisoned hheader hdirty hsavepoint
  rfl

/-- A change in which cache and counters have no part leaves pagers alike. -/
theorem Alike.map {f : Pager → Pager} {p q : Pager} (h : Alike p q)
    (hf : ∀ p c n, ∃ c' n', f { p with cache := c, counts := n } =
      { f p with cache := c', counts := n' }) : Alike (f p) (f q) := by
  obtain ⟨c, n, heq⟩ := hf p q.cache q.counts
  rw [h.eq, heq]
  exact ⟨⟨rfl, rfl, rfl, rfl, rfl, rfl, rfl, rfl⟩, rfl, rfl, rfl⟩

theorem Alike.takenBack {p q : Pager} (h : Alike p q) : Alike p.takenBack q.takenBack := by
  have hu := h.undone
  rw [Pager.takenBack, Pager.takenBack, hu]
  cases p.undone with
  | none => exact h
  | some hm =>
      obtain ⟨header, dirty⟩ := hm
      exact h.map (f := fun p => { p with header := header, dirty := dirty, savepoint := none })
        fun _ _ _ => ⟨_, _, rfl⟩

section

variable {α β : Type} {d : Disk} {p q : Pager}

namespace Twins

/-- A guard lets both go on or neither. -/
theorem ensureUsable_bind {k l : Unit → Action Pager β} (h : Twins d p q)
    (hk : p.poisoned = none → Together Twins d p q (k ()) (l ())) :
    Together Twins d p q (ensureUsable >>= k) (ensureUsable >>= l) := by
  cases hu : p.poisoned with
  | none =>
      have hu' : q.poisoned = none := h.poisoned.trans hu
      rw [Together, exec_bind_ok (exec_ensureUsable hu), exec_bind_ok (exec_ensureUsable hu')]
      exact hk hu
  | some reason =>
      have hu' : q.poisoned = some reason := h.poisoned.trans hu
      exact ⟨_, p, q, d, exec_bind_error (exec_ensureUsable_stopped hu d),
        exec_bind_error (exec_ensureUsable_stopped hu' d), h⟩

theorem ensureWritable_bind {k l : Unit → Action Pager β} (h : Twins d p q)
    (hk : ∀ log, p.log = some log → p.poisoned = none → Together Twins d p q (k ()) (l ())) :
    Together Twins d p q (ensureWritable >>= k) (ensureWritable >>= l) := by
  have heq : ∀ (r : Pager) (k : Unit → Action Pager β), (ensureWritable >>= k).exec r d =
      if r.log.isNone then (.error .readOnly, r, d) else (ensureUsable >>= k).exec r d := by
    intro r k
    rw [exec_bind, exec_ensureWritable_eq, readOnly, exec_bind]
    cases r.log.isNone <;> rfl
  rw [Together, heq, heq, h.log]
  cases hlog : p.log with
  | none => exact ⟨_, p, q, d, rfl, rfl, h⟩
  | some log => exact h.ensureUsable_bind (hk log hlog)

/-- Writing a page of the right length. -/
theorem write (h : Twins d p q) {page : Page}
    (hlen : p.pageSize ∈ pageSizes → page.image.length = p.pageSize) :
    Together Twins d p q (Pager.write page) (Pager.write page) := by
  refine h.ensureWritable_bind fun log hlog hu => ?_
  have hrange : q.inRange page.id = p.inRange page.id := by rw [inRange, inRange, h.header]
  rw [Together, exec_bind, exec_self, exec_bind, exec_self]
  dsimp only
  rw [hrange]
  by_cases hr : p.inRange page.id = true
  · rw [hr]
    refine ⟨.ok (), p.written page, q.written page, d, rfl, rfl, ?_, h.left.written hr hlen, ?_⟩
    · exact h.toAlike.map (f := fun p => p.written page) fun _ _ _ => ⟨_, _, rfl⟩
    · refine h.right.written (hrange.trans hr) ?_
      rw [h.pageSize]
      exact hlen
  · rw [Bool.not_eq_true] at hr
    rw [hr]
    exact ⟨_, p, q, d, rfl, rfl, h⟩

end Twins

/-- A program to which the cache is hidden. -/
abbrev Blind (a : Action Pager α) : Prop := Respects Twins a

namespace Blind

/-- The pager may be looked at as long as its cache and its counters are not. -/
theorem self_bind {k : Pager → Action Pager β}
    (hsame : ∀ p c n, k { p with cache := c, counts := n } = k p)
    (hk : ∀ d p q, Twins d p q → Together Twins d p q (k p) (k p)) : Blind (self >>= k) := by
  intro d p q h
  have heq : k q = k p := by
    rw [h.toAlike.eq]
    exact hsame ..
  have hboth : Together Twins d p q (k p) (k q) := by
    rw [heq]
    exact hk d p q h
  exact hboth

/-- A change of the pager in which the cache has no part. -/
theorem update {f : Pager → Pager} (halike : ∀ {p q}, Alike p q → Alike (f p) (f q))
    (hf : ∀ {p d}, Coherent p d → Coherent (f p) d) : Blind (update f) :=
  Respects.update fun h => ⟨halike h.toAlike, hf h.left, hf h.right⟩

theorem ensureUsable : Blind ensureUsable := by
  have hguard : Blind (Pager.ensureUsable >>= fun x => (pure x : Action Pager Unit)) :=
    fun d p q h => h.ensureUsable_bind fun _ => .ofResult h (.ok ())
  rwa [bind_pure] at hguard

theorem ensureWritable : Blind ensureWritable := by
  have hguard : Blind (Pager.ensureWritable >>= fun x => (pure x : Action Pager Unit)) :=
    fun d p q h => h.ensureWritable_bind fun _ _ _ => .ofResult h (.ok ())
  rwa [bind_pure] at hguard

end Blind

end

/-! ## Orderly programs -/

/-- What is left between two states by a program whose work can be taken back. -/
structure Undoable (p q : Pager) : Prop extends Same p q where
  undone : q.undone = p.undone

theorem Alike.undoable {p q : Pager} (h : Alike p q) : Undoable p q := ⟨h.toSame, h.undone⟩

instance : IsPreorder Pager Same where
  refl := .refl
  trans _ _ _ := .trans

instance : IsPreorder Pager Alike where
  refl := .refl
  trans _ _ _ := .trans

instance : IsPreorder Pager Undoable where
  refl p := ⟨.refl p, rfl⟩
  trans _ _ _ h₁ h₂ := ⟨h₁.toSame.trans h₂.toSame, h₂.undone.trans h₁.undone⟩

section

variable {α β : Type} {R : Pager → Pager → Prop} {a : Action Pager α}

theorem leaves_ensureUsable [IsPreorder Pager R] : Leaves R ensureUsable := by
  refine .self_bind fun p => ?_
  cases p.poisoned with
  | none => exact .ofResult _
  | some reason => exact .ofResult _

theorem leaves_ensureWritable [IsPreorder Pager R] : Leaves R ensureWritable := by
  refine .self_bind fun p => ?_
  by_cases hro : p.readOnly = true
  · rw [if_pos hro]
    exact .ofResult (.error .readOnly)
  · rw [if_neg hro]
    exact leaves_ensureUsable

theorem leaves_load (id : PageId) : Leaves Alike (load id) := by
  refine .self_bind fun p => .disk_bind fun d => ?_
  dsimp only
  split
  · exact .ofResult _
  · split
    · exact .ofResult _
    · refine .bind (.update fun p => ?_) fun _ => .ofResult _
      exact ⟨⟨rfl, rfl, rfl, rfl, rfl, rfl, rfl, rfl⟩, rfl, rfl, rfl⟩

theorem leaves_read (id : PageId) : Leaves Alike (read id) := by
  refine .bind leaves_ensureUsable fun _ => .self_bind fun p => ?_
  by_cases hr : p.inRange id = true
  · rw [hr]
    cases p.dirty[id]? with
    | some page => exact .ofResult (.ok page)
    | none =>
        generalize p.cache.get id = found
        obtain ⟨hit, cache⟩ := found
        refine .bind (.update fun p => ?_) fun _ => ?_
        · exact ⟨⟨rfl, rfl, rfl, rfl, rfl, rfl, rfl, rfl⟩, rfl, rfl, rfl⟩
        · cases hit with
          | some page => exact .ofResult (.ok page)
          | none => exact leaves_load id
  · rw [Bool.not_eq_true] at hr
    rw [hr]
    exact .ofResult (.error _)

theorem leaves_write (page : Page) : Leaves Undoable (write page) := by
  refine .bind leaves_ensureWritable fun _ => .self_bind fun p => ?_
  by_cases hr : p.inRange page.id = true
  · rw [hr]
    exact .update fun p => ⟨same_written p page, undone_written p page⟩
  · rw [Bool.not_eq_true] at hr
    rw [hr]
    exact .ofResult (.error _)

/-- A program on pages: it leaves the disk alone, between the states of the pager before it and
after it there is the relation `R`, and the cache is hidden from it. -/
structure Orderly (R : Pager → Pager → Prop) (a : Action Pager α) : Prop where
  leaves : Leaves R a
  blind : Blind a

namespace Orderly

theorem undoable (h : Orderly Alike a) : Orderly Undoable a :=
  ⟨h.leaves.mono fun _ _ ha => ha.undoable, h.blind⟩

/-- The pager may be looked at as long as its cache and its counters are not. -/
theorem self_bind {k : Pager → Action Pager β}
    (hsame : ∀ p c n, k { p with cache := c, counts := n } = k p) (hk : ∀ p, Orderly R (k p)) :
    Orderly R (self >>= k) :=
  ⟨.self_bind fun p => (hk p).leaves, .self_bind hsame fun d p q h => (hk p).blind d p q h⟩

section

variable [IsPreorder Pager R]

theorem ofResult (r : Except Error α) : Orderly R (ofResult r) := ⟨.ofResult r, .ofResult r⟩

theorem pure (x : α) : Orderly R (pure x) := ofResult (.ok x)

theorem throw (e : Error) : Orderly R (throw e : Action Pager α) := ofResult (.error e)

theorem bind {k : α → Action Pager β} (ha : Orderly R a) (hk : ∀ x, Orderly R (k x)) :
    Orderly R (a >>= k) :=
  ⟨ha.leaves.bind fun x => (hk x).leaves, ha.blind.bind fun x => (hk x).blind⟩

end

/-! ## The operations on pages -/

/-- **Reading is blind to the cache.** -/
theorem read (id : PageId) : Orderly Alike (Pager.read id) := by
  refine ⟨leaves_read id, fun d p q h => ?_⟩
  by_cases hu : p.poisoned = none
  · have hu' : q.poisoned = none := h.poisoned.trans hu
    obtain ⟨p', hp, hap, hmp⟩ := (h.left.mirrors hu).exec_read hu id
    obtain ⟨q', hq, haq, hmq⟩ := (h.right.mirrors hu').exec_read hu' id
    rw [h.toAlike.view] at hq
    exact ⟨_, p', q', d, hp, hq, hap.symm.trans (h.toAlike.trans haq),
      h.left.recached hap fun _ => hmp, h.right.recached haq fun _ => hmq⟩
  · exact h.ensureUsable_bind fun hu' => absurd hu' hu

/-- Writing a page that is made of what can be seen of the pager, where that gives one. -/
theorem writeResult {page : Pager → Except Error Page}
    (hsame : ∀ p c n, page { p with cache := c, counts := n } = page p)
    (hlen : ∀ (p : Pager) image, p.pageSize ∈ pageSizes → page p = .ok image →
      image.image.length = p.pageSize) :
    Orderly Undoable (self >>= fun p => Action.ofResult (page p) >>= Pager.write) := by
  refine ⟨.self_bind fun p => ?_, .self_bind (fun p c n => by rw [hsame]) fun d p q h => ?_⟩
  · exact (Orderly.ofResult _).leaves.bind fun image => leaves_write image
  · cases hpage : page p with
    | error e => exact .ofResult h (.error e)
    | ok image => exact h.write fun hp => hlen p image hp hpage

/-- Writing a page that is made of what can be seen of the pager. -/
theorem write {page : Pager → Page}
    (hsame : ∀ p c n, page { p with cache := c, counts := n } = page p)
    (hlen : ∀ p : Pager, p.pageSize ∈ pageSizes → (page p).image.length = p.pageSize) :
    Orderly Undoable (self >>= fun p => Pager.write (page p)) :=
  @writeResult (fun p => .ok (page p)) (fun p c n => by rw [hsame]) fun p image hp h => by
    cases h
    exact hlen p hp

/-- Changing fields of the header other than those that say how large the file is. -/
theorem updateHeader {f : Header → Header} (hs : ∀ h, (f h).pageSize = h.pageSize)
    (hc : ∀ h, (f h).pageCount = h.pageCount) :
    Orderly Undoable (update fun p => { p with header := f p.header }) := by
  refine ⟨.update fun p => ⟨⟨rfl, rfl, rfl, rfl, rfl, rfl, rfl, rfl⟩, rfl⟩, ?_⟩
  refine .update (fun h => ?_) fun h => h.setHeader (hs _) (UInt32.le_of_eq (hc _).symm)
  exact h.map (f := fun p => { p with header := f p.header }) fun _ _ _ => ⟨_, _, rfl⟩

theorem setRoot (id : PageId) : Orderly Undoable (Pager.setRoot id) :=
  updateHeader (f := fun h => { h with root := id }) (fun _ => rfl) fun _ => rfl

theorem adjustRecordCount (delta : Int) : Orderly Undoable (Pager.adjustRecordCount delta) :=
  updateHeader (f := fun h => { h with recordCount := addSaturating h.recordCount delta })
    (fun _ => rfl) fun _ => rfl

theorem takeFree (id : PageId) : Orderly Undoable (Pager.takeFree id) := by
  refine bind (read id).undoable fun page => bind (ofResult page.kind) fun kind => ?_
  refine self_bind (fun _ _ _ => rfl) fun p => ?_
  split
  · exact throw _
  · refine bind ?_ fun _ => pure id
    exact updateHeader (f := fun h => { h with
      freeHead := UInt32.ofNat (Bytes.toNatLE (page.payload.take 4))
      freeCount := h.freeCount - 1 }) (fun _ => rfl) fun _ => rfl

theorem allocate : Orderly Undoable Pager.allocate := by
  refine bind ⟨leaves_ensureWritable, .ensureWritable⟩ fun _ => ⟨.self_bind fun p => ?_, ?_⟩
  · split
    · exact (takeFree _).leaves
    · split
      · exact .ofResult _
      · refine .bind (.update fun p => ?_) fun _ => .ofResult _
        exact ⟨⟨rfl, rfl, rfl, rfl, rfl, rfl, rfl, rfl⟩, rfl⟩
  · refine .self_bind (fun _ _ _ => rfl) fun d p q h => ?_
    split
    · exact (takeFree _).blind d p q h
    · split
      · exact .ofResult h _
      · -- There is room for one more page, so the count does not wrap around.
        rename_i hroom
        rw [UInt32.not_le] at hroom
        have hle : p.header.pageCount ≤ p.header.pageCount + 1 :=
          UInt32.le_of_lt ((lt_succ_iff hroom _).2 (.inl rfl))
        have hgrown : ∀ {r : Pager}, r.header = p.header → Coherent r d →
            Coherent { r with header := { r.header with pageCount := r.header.pageCount + 1 } } d := by
          intro r hr hc
          refine hc.setHeader rfl ?_
          rw [hr]
          exact hle
        refine .bind (.update ⟨?_, hgrown rfl h.left, hgrown h.header h.right⟩)
          fun _ d' p' q' h' => .ofResult h' (.ok _)
        exact h.toAlike.map
          (f := fun p => { p with header := { p.header with pageCount := p.header.pageCount + 1 } })
          fun _ _ _ => ⟨_, _, rfl⟩

theorem free (id : PageId) : Orderly Undoable (Pager.free id) := by
  refine bind ⟨leaves_ensureWritable, .ensureWritable⟩ fun _ => ?_
  rw [← bind_assoc]
  refine bind (write (fun _ _ _ => rfl) fun p hp => ?_) fun _ => ?_
  · exact Page.length_make (Nat.le_trans (by decide) (pageSize_bounds hp).1) ..
  · exact updateHeader (f := fun h => { h with freeHead := id, freeCount := h.freeCount + 1 })
      (fun _ => rfl) fun _ => rfl

end Orderly

end

/-! ## Operations as a whole -/

/-- Between two states the working state alone has changed, and no operation is under way in the
second one. -/
structure Done (p q : Pager) : Prop extends Same p q where
  savepoint : q.savepoint = none

/-- Between two states nothing has changed that could be seen; an operation that was under way may
have been given up. -/
structure Unchanged (p q : Pager) : Prop extends Same p q where
  header : q.header = p.header
  dirty : q.dirty = p.dirty
  savepoint : q.savepoint = none ∨ q.savepoint = p.savepoint

theorem Unchanged.alike {p q : Pager} (h : Unchanged p q) (hp : p.savepoint = none) :
    Alike p q := by
  refine ⟨h.toSame, h.header, h.dirty, ?_⟩
  rcases h.savepoint with hs | hs
  · rw [hs, hp]
  · exact hs

theorem Unchanged.trans {p q r : Pager} (h : Unchanged p q) (h' : Unchanged q r) :
    Unchanged p r where
  toSame := h.toSame.trans h'.toSame
  header := h'.header.trans h.header
  dirty := h'.dirty.trans h.dirty
  savepoint := by
    rcases h'.savepoint with hs | hs
    · exact .inl hs
    · rw [hs]
      exact h.savepoint

theorem Alike.unchanged {p q : Pager} (h : Alike p q) : Unchanged p q :=
  ⟨h.toSame, h.header, h.dirty, .inr h.savepoint⟩

/-- Where nothing has changed since an operation began, taking it back changes nothing. -/
theorem unchanged_takenBack {p q : Pager} (h : Unchanged p.begun q) : Unchanged p q.takenBack := by
  have hsame : Same p q := (same_begun p).trans h.toSame
  rcases h.savepoint with hs | hs
  · have hundone : q.undone = none := by rw [undone, hs, Option.map_none]
    rw [takenBack, hundone]
    exact ⟨hsame, h.header, h.dirty, .inl hs⟩
  · have hundone : q.undone = some (p.header, p.dirty) := by
      rw [undone, hs, h.dirty]
      rfl
    have htaken := hsame.trans (same_takenBack q)
    rw [takenBack, hundone] at htaken ⊢
    exact ⟨htaken, rfl, rfl, .inl rfl⟩

section

variable {α : Type} {a : Action Pager α} {p q : Pager} {d d' : Disk}

/-- **An operation that fails leaves no trace** in what can be seen of the pager, unless it stopped
at a check of its own. -/
theorem unchanged_of_error (ha : Leaves Undoable a) {e : Error} (he : e ≠ .panicked)
    (h : (Tree.atomically a).exec p d = (.error e, q, d')) :
    Unchanged p q ∧ q.savepoint = none ∧ d' = d := by
  obtain ⟨q', hbody, rfl⟩ := of_exec_atomically_error h
  obtain ⟨hleft, rfl⟩ := ha.of_exec hbody
  -- What was remembered at the beginning is what the pager held then.
  have hu : q'.undone = some (p.header, p.dirty) := hleft.undone.trans (undone_begun p)
  have hsame : Same p q'.takenBack :=
    ((same_begun p).trans hleft.toSame).trans (same_takenBack q')
  rw [abandoned_of_ne he]
  rw [takenBack, hu] at hsame ⊢
  exact ⟨⟨hsame, rfl, rfl, .inl rfl⟩, rfl, rfl⟩

/-- No operation is under way after one as a whole. -/
theorem leaves_atomically (ha : Leaves Undoable a) : Leaves Done (Tree.atomically a) := by
  intro p d
  match hexec : (Tree.atomically a).exec p d with
  | (.error e, q, d') =>
      obtain ⟨q', hbody, rfl⟩ := of_exec_atomically_error hexec
      obtain ⟨hleft, rfl⟩ := ha.of_exec hbody
      exact ⟨⟨((same_begun p).trans hleft.toSame).trans (same_abandoned q' e),
        savepoint_abandoned q' e⟩, rfl⟩
  | (.ok x, q, d') =>
      obtain ⟨q', hbody, rfl⟩ := of_exec_atomically_ok hexec
      obtain ⟨hleft, rfl⟩ := ha.of_exec hbody
      exact ⟨⟨((same_begun p).trans hleft.toSame).trans (same_ended q'), rfl⟩, rfl⟩

/-- No operation is under way. -/
def Idle (p : Pager) : Prop := p.savepoint = none

/-- Asking leaves a pager idle. -/
theorem Orderly.keeps_idle (ha : Orderly Alike a) : Keeps (fun p _ => Idle p) a :=
  ha.leaves.keeps fun _ _ h hp => h.savepoint.trans hp

theorem keeps_idle_atomically (ha : Orderly Undoable a) :
    Keeps (fun p _ => Idle p) (Tree.atomically a) :=
  (leaves_atomically ha.leaves).keeps fun _ _ h _ => h.savepoint

theorem keeps_idle_commit : Keeps (fun p _ => Idle p) commit := by
  intro p d hp
  have hout := commitOutcome p d
  generalize commit.exec p d = out at hout
  cases hout with
  | refused => exact hp
  | unchanged => exact hp
  | published => rfl
  | stopped => exact hp

theorem keeps_idle_rollback : Keeps (fun p _ => Idle p) rollback := fun _ _ _ => rfl

namespace Blind

theorem beginOp : Blind beginOp :=
  .update (fun h => h.map (f := begun) fun _ _ _ => ⟨_, _, rfl⟩) fun h => h.begun

theorem endOp : Blind endOp :=
  .update (fun h => h.map (f := ended) fun _ _ _ => ⟨_, _, rfl⟩) fun h => h.ended

theorem undoOp : Blind undoOp := fun d p q h =>
  ⟨.ok (), p.takenBack, q.takenBack, d, exec_undoOp p d, exec_undoOp q d, h.toAlike.takenBack,
    h.left.takenBack, h.right.takenBack⟩

theorem abandon (e : Error) : Blind (Tree.abandon e) := by
  unfold Tree.abandon
  split
  · exact endOp
  · exact undoOp

theorem atomically (ha : Blind a) : Blind (Tree.atomically a) := by
  refine .bind beginOp fun _ => .bind ha.attempt fun r => ?_
  cases r with
  | ok x => exact .bind endOp fun _ => (Orderly.pure (R := Alike) x).blind
  | error e => exact .bind (abandon e) fun _ => (Orderly.throw (R := Alike) e).blind

theorem rollback : Blind rollback :=
  .update (fun h => h.map (f := rolledBack) fun _ _ _ => ⟨_, _, rfl⟩) fun h => h.rolledBack

theorem setCacheCapacity (pages : Nat) : Blind (setCacheCapacity pages) :=
  .update (fun h => h.map (f := fun p => { p with cache := p.cache.resize pages })
    fun _ _ _ => ⟨_, _, rfl⟩) fun h => h.resize pages

/-- **A commit is blind to the cache**, be it made to stop or not. -/
theorem commit : Blind commit := by
  intro d p q h
  refine h.ensureWritable_bind fun log hlog hu => ?_
  have hchanges : q.hasChanges = p.hasChanges := by
    rw [hasChanges, hasChanges, h.dirty, h.header, h.committed]
  have heffects : q.commitEffects = p.commitEffects := by
    rw [h.toAlike.eq]
    rfl
  rw [Together, exec_bind, exec_self, exec_bind, exec_self]
  dsimp only
  rw [h.log, hlog, hchanges]
  dsimp only
  by_cases hch : p.hasChanges = true
  · rw [if_pos hch, if_pos hch, exec_bind, exec_updateDisk, exec_bind, exec_updateDisk]
    dsimp only
    rw [h.file, heffects, h.crashPoint]
    cases hc : p.crashPoint with
    | none =>
        have hright := h.right.published (h.poisoned.trans hu) (h.log.trans hlog)
          (h.crashPoint.trans hc)
        rw [h.file, heffects] at hright
        exact ⟨.ok (), p.published, q.published, _, rfl, rfl,
          h.toAlike.map (f := published) fun _ _ _ => ⟨_, _, rfl⟩, h.left.published hu hlog hc, hright⟩
    | some point =>
        -- A pager whose commit was stopped must not be used any more.
        have hpoisoned : ∀ r, (interrupted point r).poisoned ≠ none := by
          intro r hr
          cases hr
        refine ⟨_, interrupted point p, interrupted point q, _, rfl, rfl, ?_,
          .of_poisoned (hpoisoned p) _, .of_poisoned (hpoisoned q) _⟩
        exact h.toAlike.map (f := interrupted point) fun _ _ _ => ⟨_, _, rfl⟩
  · rw [if_neg hch, if_neg hch]
    exact ⟨.ok (), p, q, d, rfl, rfl, h⟩

theorem close : Blind Tree.close := by
  refine .self_bind (fun _ _ _ => rfl) fun d p q h => ?_
  split
  · exact .ofResult h (.ok ())
  · exact commit d p q h

end Blind

end

end PagedStore.Pager
