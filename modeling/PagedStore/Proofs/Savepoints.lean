import PagedStore.Proofs.PagerLives

/-!
# Savepoints are exact

What is done with a pager between the beginning of an operation and its end can be taken back
without a trace: header and dirty pages are what they were, and what lies on disk was never
touched. That holds for every state a pager could be in, and for every sequence of edits, also of
such as fail, since none of them ever changes what a pager would return to (`Undoable`).

What is read afterwards is the same as well. That takes more: pages that were read in between may
have come into the cache or left it, so the cache must not show anything but what the file holds
(`Mirrors`). Pagers that were opened on a file, whatever is in it, go on to be like that.
-/

set_option autoImplicit false

namespace PagedStore.Pager

open PagedStore.Action

/-! ## Edits -/

/-- What may be done with a pager in the course of an operation. -/
inductive Edit where
  | read (id : PageId)
  | write (page : Page)
  | allocate
  | free (id : PageId)
  | setRoot (id : PageId)
  | adjustRecordCount (delta : Int)
  | writeChain (value : Bytes)
  | freeChain (head : PageId)

/-- Carries an edit out, with or without success. -/
def Edit.run : Edit → Action Pager Unit
  | read id => discard (attempt (Pager.read id))
  | write page => discard (attempt (Pager.write page))
  | allocate => discard (attempt Pager.allocate)
  | free id => discard (attempt (Pager.free id))
  | setRoot id => discard (attempt (Pager.setRoot id))
  | adjustRecordCount delta => discard (attempt (Pager.adjustRecordCount delta))
  | writeChain value => discard (attempt (Tree.Chain.write value))
  | freeChain head => discard (attempt (Tree.Chain.free head))

/-- Carries edits out one after the other, however each of them ends. -/
def edits : List Edit → Action Pager Unit
  | [] => pure ()
  | e :: es => do
      e.run
      edits es

/-! ## What edits leave alone -/

section

variable {α : Type} {a : Action Pager α}

/-- However an action ends, the state after it is the same. -/
theorem exec_discard_attempt (a : Action Pager α) (p : Pager) (d : Disk) :
    (discard (attempt a)).exec p d = (.ok (), (a.exec p d).2) := by
  show (attempt a >>= fun _ => pure ()).exec p d = _
  rw [exec_bind, exec_attempt]
  rfl

theorem leaves_discard_attempt {R : Pager → Pager → Prop} (ha : Leaves R a) :
    Leaves R (discard (attempt a)) := by
  intro p d
  rw [exec_discard_attempt]
  exact ha p d

theorem keeps_discard_attempt {I : Pager → Disk → Prop} (ha : Keeps I a) :
    Keeps I (discard (attempt a)) := by
  intro p d h
  rw [exec_discard_attempt]
  exact ha p d h

end

theorem Edit.leaves_run (e : Edit) : Leaves Undoable e.run := by
  cases e with
  | read id => exact leaves_discard_attempt (Orderly.read id).undoable.leaves
  | write page => exact leaves_discard_attempt (leaves_write page)
  | allocate => exact leaves_discard_attempt Orderly.allocate.leaves
  | free id => exact leaves_discard_attempt (Orderly.free id).leaves
  | setRoot id => exact leaves_discard_attempt (Orderly.setRoot id).leaves
  | adjustRecordCount delta => exact leaves_discard_attempt (Orderly.adjustRecordCount delta).leaves
  | writeChain value => exact leaves_discard_attempt (Tree.Chain.orderly_write value).leaves
  | freeChain head => exact leaves_discard_attempt (Tree.Chain.orderly_free head).leaves

/-- No sequence of edits changes what the pager would return to. -/
theorem leaves_edits (es : List Edit) : Leaves Undoable (edits es) := by
  induction es with
  | nil => exact .ofResult (.ok ())
  | cons e es ih => exact .bind e.leaves_run fun _ => ih

theorem exec_edits (es : List Edit) (p : Pager) (d : Disk) :
    ∃ q, (edits es).exec p d = (.ok (), q, d) ∧ Undoable p q := by
  have hok : ((edits es).exec p d).1 = .ok () := by
    induction es generalizing p d with
    | nil => rfl
    | cons e es ih =>
        have hrun : ∃ q d', e.run.exec p d = (.ok (), q, d') := by
          cases e <;> exact ⟨_, _, exec_discard_attempt ..⟩
        obtain ⟨q, d', hrun⟩ := hrun
        rw [edits, exec_bind_ok hrun]
        exact ih q d'
  obtain ⟨hleft, hdisk⟩ := leaves_edits es p d
  refine ⟨_, Prod.ext hok (Prod.ext rfl hdisk), hleft⟩

/-! ## Edits and the cache -/

/-- The cache is not touched by what changes the working state. -/
theorem keeps_mirrors_update {f : Pager → Pager} (hc : ∀ p, (f p).cache = p.cache)
    (hf : ∀ p, (f p).file = p.file) (hs : ∀ p, (f p).pageSize = p.pageSize) :
    Keeps Mirrors (update f) := by
  refine .update fun p d h => ⟨?_, ?_⟩
  · rw [hc, hf, hs]
    exact h.cached
  · rw [hc]
    exact h.cache

theorem keeps_mirrors_ensureUsable : Keeps Mirrors ensureUsable := by
  refine .self_bind fun p => ?_
  cases p.poisoned with
  | none => exact .pure ()
  | some reason => exact .throw _

theorem keeps_mirrors_ensureWritable : Keeps Mirrors ensureWritable := by
  refine .self_bind fun p => ?_
  split
  · exact .throw_bind _ _
  · exact keeps_mirrors_ensureUsable

/-- Whatever is read comes into the cache as the file has it. -/
theorem keeps_mirrors_read (id : PageId) : Keeps Mirrors (read id) := by
  intro p d h
  cases hu : p.poisoned with
  | none =>
      obtain ⟨q, hread, -, hm⟩ := h.exec_read hu id
      rw [hread]
      exact hm
  | some reason =>
      rw [read, exec_bind_error (exec_ensureUsable_stopped hu d)]
      exact h

theorem keeps_mirrors_write (page : Page) : Keeps Mirrors (write page) := by
  refine .bind keeps_mirrors_ensureWritable fun _ => .self_bind fun p => ?_
  split
  · exact .throw_bind _ _
  · exact keeps_mirrors_update (fun _ => rfl) (fun _ => rfl) fun _ => rfl

theorem keeps_mirrors_takeFree (id : PageId) : Keeps Mirrors (takeFree id) := by
  refine .bind (keeps_mirrors_read id) fun page => .bind (.ofResult _) fun kind => ?_
  refine .self_bind fun p => ?_
  split
  · exact .throw_bind _ _
  · exact .bind (keeps_mirrors_update (fun _ => rfl) (fun _ => rfl) fun _ => rfl) fun _ => .pure id

theorem keeps_mirrors_allocate : Keeps Mirrors allocate := by
  refine .bind keeps_mirrors_ensureWritable fun _ => .self_bind fun p => ?_
  split
  · exact keeps_mirrors_takeFree _
  · split
    · exact .throw _
    · exact .bind (keeps_mirrors_update (fun _ => rfl) (fun _ => rfl) fun _ => rfl) fun _ => .pure _

theorem keeps_mirrors_free (id : PageId) : Keeps Mirrors (free id) := by
  refine .bind keeps_mirrors_ensureWritable fun _ => .self_bind fun p => ?_
  refine .bind (keeps_mirrors_write _) fun _ => ?_
  exact keeps_mirrors_update (fun _ => rfl) (fun _ => rfl) fun _ => rfl

theorem keeps_mirrors_allocateAll (count : Nat) : Keeps Mirrors (Tree.Chain.allocateAll count) := by
  induction count with
  | zero => exact .pure _
  | succ count ih => exact .bind keeps_mirrors_allocate fun _ => .bind ih fun _ => .pure _

theorem keeps_mirrors_writeAll (ids : List PageId) (parts : List Bytes) :
    Keeps Mirrors (Tree.Chain.writeAll ids parts) := by
  fun_induction Tree.Chain.writeAll ids parts with
  | case1 id ids part more ih =>
      exact .self_bind fun p => .bind (keeps_mirrors_write _) fun _ => ih
  | case2 => exact .pure _

theorem keeps_mirrors_writeChain (value : Bytes) : Keeps Mirrors (Tree.Chain.write value) := by
  refine .self_bind fun p => .bind (keeps_mirrors_allocateAll _) fun ids => ?_
  exact .bind (keeps_mirrors_writeAll _ _) fun _ => .pure _

theorem keeps_mirrors_visit (head id : PageId) (hops : UInt32) :
    Keeps Mirrors (Tree.Chain.visit head id hops) := by
  refine .self_bind fun p => ?_
  split
  · exact .throw_bind _ _
  refine .bind (keeps_mirrors_read id) fun page => .bind (.ofResult _) fun kind => ?_
  split
  · exact .throw_bind _ _
  · exact .pure page

theorem keeps_mirrors_freeFrom (head : PageId) (fuel : Nat) (hops : UInt32) (id : PageId) :
    Keeps Mirrors (Tree.Chain.freeFrom head fuel hops id) := by
  induction fuel generalizing hops id with
  | zero => exact .throw _
  | succ fuel ih =>
      rw [Tree.Chain.freeFrom]
      split
      · exact .pure _
      · exact .bind (keeps_mirrors_visit head id _) fun page =>
          .bind (keeps_mirrors_free _) fun _ => ih _ _

theorem keeps_mirrors_freeChain (head : PageId) : Keeps Mirrors (Tree.Chain.free head) :=
  .self_bind fun _ => keeps_mirrors_freeFrom head _ _ _

theorem Edit.keeps_mirrors_run (e : Edit) : Keeps Mirrors e.run := by
  cases e with
  | read id => exact keeps_discard_attempt (keeps_mirrors_read id)
  | write page => exact keeps_discard_attempt (keeps_mirrors_write page)
  | allocate => exact keeps_discard_attempt keeps_mirrors_allocate
  | free id => exact keeps_discard_attempt (keeps_mirrors_free id)
  | setRoot id =>
      exact keeps_discard_attempt
        (keeps_mirrors_update (fun _ => rfl) (fun _ => rfl) fun _ => rfl)
  | adjustRecordCount delta =>
      exact keeps_discard_attempt
        (keeps_mirrors_update (fun _ => rfl) (fun _ => rfl) fun _ => rfl)
  | writeChain value => exact keeps_discard_attempt (keeps_mirrors_writeChain value)
  | freeChain head => exact keeps_discard_attempt (keeps_mirrors_freeChain head)

theorem keeps_mirrors_edits (es : List Edit) : Keeps Mirrors (edits es) := by
  induction es with
  | nil => exact .pure ()
  | cons e es ih => exact .bind e.keeps_mirrors_run fun _ => ih

/-! ## An operation that is taken back -/

variable {p : Pager} {d : Disk}

/-- The pager after edits that were taken back. -/
theorem exec_undone (es : List Edit) (p : Pager) (d : Disk) :
    ∃ q, (do beginOp; edits es; undoOp : Action Pager Unit).exec p d = (.ok (), q, d) ∧
      Same p q ∧ q.header = p.header ∧ q.dirty = p.dirty ∧
      (Mirrors p d → Mirrors q d) := by
  have hbegin : beginOp.exec p d = (.ok (), p.begun, d) := rfl
  obtain ⟨q, hedits, hleft⟩ := exec_edits es p.begun d
  have hu : q.undone = some (p.header, p.dirty) := hleft.undone.trans (undone_begun p)
  have hsame : Same p q.takenBack :=
    ((same_begun p).trans hleft.toSame).trans (same_takenBack q)
  have hexec : (do beginOp; edits es; undoOp : Action Pager Unit).exec p d =
      (.ok (), q.takenBack, d) := by
    rw [exec_bind_ok hbegin, exec_bind_ok hedits, exec_undoOp]
  have hmirrors : Mirrors p d → Mirrors q.takenBack d := by
    intro hm
    have hbegun : Mirrors p.begun d := ⟨hm.cached, hm.cache⟩
    have hq := keeps_mirrors_edits es p.begun d hbegun
    rw [hedits] at hq
    rw [takenBack, hu]
    exact ⟨hq.cached, hq.cache⟩
  refine ⟨_, hexec, hsame, ?_, ?_, hmirrors⟩ <;> rw [takenBack, hu]

/-! ## Pagers in use -/

/-- The states of a pager that was opened on any file, to read or to write, and used in any way, a
commit that was stopped included. -/
inductive InUse : Pager → Disk → Prop where
  | opened {path : String} {o : Options} {d d' : Disk} {p : Pager} (hlive : d.NamesLive)
      (hapart : d.NamesApart) (hp : o.pageSize ∈ pageSizes)
      (h : («open» path o).exec () d = (.ok p, (), d')) : InUse p d'
  | called {p : Pager} {d : Disk} (h : InUse p d) (c : Call) (hc : c.Sized p d) :
      InUse (c.serve p d).1 (c.serve p d).2
  | chainFreed {p : Pager} {d : Disk} (h : InUse p d) (head : PageId) :
      InUse ((Tree.Chain.free head).exec p d).2.1 ((Tree.Chain.free head).exec p d).2.2

theorem InUse.coherent (h : InUse p d) : Coherent p d := by
  induction h with
  | opened hlive hapart hp h => exact (coherent_of_open hlive hapart hp h).1
  | called _ c hc ih => exact ih.serve hc
  | chainFreed _ head ih => exact ih.of_blind (Tree.Chain.orderly_free head).blind

/-- Pagers that agree in all but the cache answer alike when neither caches anything but what the
file holds. -/
theorem read_eq_of_same {q : Pager} (hs : Same p q) (hheader : q.header = p.header)
    (hdirty : q.dirty = p.dirty) (hp : p.poisoned = none → Mirrors p d)
    (hq : Mirrors p d → Mirrors q d) (id : PageId) :
    ((read id).exec q d).1 = ((read id).exec p d).1 := by
  cases hu : p.poisoned with
  | none =>
      have hm := hp hu
      rw [hm.read_eq hu, (hq hm).read_eq (hs.poisoned.trans hu), view, view, inRange, inRange,
        hheader, hdirty, hs.file, hs.pageSize]
  | some reason =>
      have hread : ∀ {r : Pager}, r.poisoned = some reason →
          ((read id).exec r d).1 = .error (.aborted ("pager unusable: " ++ reason)) := by
        intro r hr
        rw [read, exec_bind_error (exec_ensureUsable_stopped hr d)]
      rw [hread hu, hread (hs.poisoned.trans hu)]

/-- **Savepoints are exact.** For any state of a pager and any edits, with whatever success:
taking the operation back gives the header and the dirty pages that there were at its beginning,
and the disk is as it was; what is read afterwards, of any page of a pager in use, is what would
have been read then. When the operation was ended instead, taking back has nothing to do, whatever
edits follow. -/
theorem savepoints_are_exact (es : List Edit) :
    (∀ p d, ∃ q, (do beginOp; edits es; undoOp : Action Pager Unit).exec p d = (.ok (), q, d) ∧
      q.header = p.header ∧ q.dirty = p.dirty ∧
      (InUse p d → ∀ id, ((read id).exec q d).1 = ((read id).exec p d).1)) ∧
    ∀ p d fs, (do beginOp; edits es; endOp; edits fs; undoOp : Action Pager Unit).exec p d =
      (do beginOp; edits es; endOp; edits fs : Action Pager Unit).exec p d := by
  refine ⟨fun p d => ?_, fun p d fs => ?_⟩
  · obtain ⟨q, hexec, hsame, hheader, hdirty, hmirrors⟩ := exec_undone es p d
    exact ⟨q, hexec, hheader, hdirty, fun h id =>
      read_eq_of_same hsame hheader hdirty h.coherent.mirrors hmirrors id⟩
  · have hbegin : beginOp.exec p d = (.ok (), p.begun, d) := rfl
    obtain ⟨q, hedits, -⟩ := exec_edits es p.begun d
    have hend : endOp.exec q d = (.ok (), q.ended, d) := rfl
    obtain ⟨r, hmore, hleft⟩ := exec_edits fs q.ended d
    have hnone : r.undone = none := hleft.undone
    rw [exec_bind_ok hbegin, exec_bind_ok hedits, exec_bind_ok hend, exec_bind_ok hmore,
      exec_bind_ok hbegin, exec_bind_ok hedits, exec_bind_ok hend, hmore, exec_undoOp, takenBack,
      hnone]

theorem inUse_withFirstPage : ∃ d, InUse withFirstPage d := by
  obtain ⟨d, hopen⟩ := closed_emptyFiles.exec_open_empty (o := { pageSize := 512 }) rfl rfl rfl rfl
  have hstart : InUse onEmptyFile d :=
    .opened namesLive_emptyFiles namesApart_emptyFiles (by decide) hopen
  exact ⟨d, (hstart.called (.request .allocate) trivial).called
    (.request (.write (.make 1 512 .overflow []))) (Page.length_make (by decide) 1 .overflow [])⟩

/-- A page that was freed, given out again and written anew is read as it was before. -/
theorem savepoints_are_exact_first_page :
    ∃ d q, InUse withFirstPage d ∧
      (do
        beginOp
        edits [.free 1, .allocate, .write (.make 1 512 .leaf [1, 2, 3]), .writeChain [4]]
        undoOp : Action Pager Unit).exec withFirstPage d = (.ok (), q, d) ∧
      q.header = withFirstPage.header ∧
      ((read 1).exec q d).1 = .ok (Page.make 1 512 .overflow []).sealed := by
  obtain ⟨d, hd⟩ := inUse_withFirstPage
  obtain ⟨q, hexec, hheader, -, hread⟩ := (savepoints_are_exact
    [.free 1, .allocate, .write (.make 1 512 .leaf [1, 2, 3]), .writeChain [4]]).1 withFirstPage d
  refine ⟨d, q, hd, hexec, hheader, ?_⟩
  rw [hread hd 1, (hd.coherent.mirrors rfl).read_eq rfl, view, if_pos (by decide), withFirstPage,
    Std.ExtTreeMap.getElem?_insert_self]

end PagedStore.Pager
