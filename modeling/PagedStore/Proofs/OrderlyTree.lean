import PagedStore.Proofs.ReadingPrograms

/-!
# Programs on the tree are orderly

Every program on chains, nodes and the tree is made of the operations on pages, so each of them
leaves the disk alone and is blind to the cache. Looking for a record is nothing but reading;
storing and removing one changes nothing that taking the operation back would not undo. This holds
whatever the pages hold: nothing is assumed of the file.
-/

set_option autoImplicit false

namespace PagedStore.Tree

open PagedStore.Action Pager

/-! ## Chains -/

namespace Chain

theorem orderly_allocateAll (count : Nat) : Orderly Undoable (allocateAll count) := by
  induction count with
  | zero => exact .pure _
  | succ count ih => exact .bind .allocate fun id => .bind ih fun ids => .pure _

theorem orderly_writeAll (ids : List PageId) (parts : List Bytes) :
    Orderly Undoable (writeAll ids parts) := by
  fun_induction writeAll ids parts with
  | case1 id ids part more ih =>
      rw [← bind_assoc]
      refine .bind (.write (fun _ _ _ => rfl) fun p hp => ?_) fun _ => ih
      exact Page.length_make (Nat.le_trans (by decide) (pageSize_bounds hp).1) ..
  | case2 => exact .pure _

theorem orderly_write (value : Bytes) : Orderly Undoable (Chain.write value) := by
  refine .self_bind (fun _ _ _ => rfl) fun p => ?_
  refine .bind (orderly_allocateAll _) fun ids => ?_
  exact .bind (orderly_writeAll _ _) fun _ => .pure _

theorem reading_visit (head id : PageId) (hops : UInt32) : Reading (visit head id hops) := by
  refine .look (fun _ _ => rfl) fun p => ?_
  by_cases hloop : p.header.pageCount < hops
  · rw [if_pos hloop]
    exact .throw _
  rw [if_neg hloop]
  refine .bind (.read id) fun page => .bind (.ofResult _) fun kind => ?_
  by_cases hkind : kind ≠ .overflow
  · rw [if_pos hkind]
    exact .throw _
  · rw [if_neg hkind]
    exact .pure page

theorem reading_readFrom (head : PageId) (fuel : Nat) (hops : UInt32) (id : PageId) :
    Reading (readFrom head fuel hops id) := by
  induction fuel generalizing hops id with
  | zero => exact .throw _
  | succ fuel ih =>
      rw [readFrom]
      split
      · exact .pure _
      refine .bind (reading_visit ..) fun page => .look (fun _ _ => rfl) fun p => ?_
      split
      · exact .throw _
      · exact .bind (.ofResult _) fun part => .bind (ih _ _) fun rest => .pure _

theorem reading_read (head : PageId) : Reading (Chain.read head) :=
  .look (fun _ _ => rfl) fun _ => reading_readFrom ..

theorem orderly_freeFrom (head : PageId) (fuel : Nat) (hops : UInt32) (id : PageId) :
    Orderly Undoable (freeFrom head fuel hops id) := by
  induction fuel generalizing hops id with
  | zero => exact .throw _
  | succ fuel ih =>
      rw [freeFrom]
      split
      · exact .pure _
      · exact .bind (reading_visit ..).orderly.undoable fun page => .bind (.free _) fun _ => ih ..

theorem orderly_free (head : PageId) : Orderly Undoable (Chain.free head) :=
  .self_bind (fun _ _ _ => rfl) fun _ => orderly_freeFrom ..

end Chain

/-! ## Values -/

section

variable [Codec]

theorem orderly_makeValue (c : Compression) (key value : Bytes) :
    Orderly Undoable (makeValue c key value) := by
  refine .self_bind (fun _ _ _ => rfl) fun p => ?_
  split
  · exact .pure _
  · split
    · exact .throw _
    · exact .bind (.ofResult _) fun packed => .bind (Chain.orderly_write _) fun head => .pure _

theorem reading_readValue (v : CellValue) : Reading (readValue v) := by
  cases v with
  | inline bs => exact .pure bs
  | chained length head compressed =>
      refine .bind (Chain.reading_read head) fun stored => .bind (.ofResult _) fun value => ?_
      split
      · exact .throw _
      · exact .pure value

omit [Codec] in
theorem orderly_releaseValue (v : CellValue) : Orderly Undoable (releaseValue v) := by
  cases v with
  | inline bs => exact .pure _
  | chained length head compressed => exact Chain.orderly_free head

theorem reading_record (c : Cell) : Reading (record c) :=
  .bind (reading_readValue _) fun _ => .pure _

end

/-! ## Searches -/

theorem reading_load (id : PageId) : Reading (load id) :=
  .bind (.read id) fun _ => .ofResult _

theorem reading_depthLimit : Reading depthLimit :=
  .look (fun _ _ => rfl) fun _ => .pure _

section

variable {key bound : Bytes} {strict : Bool}

theorem reading_lookupFrom (fuel : Nat) (id : PageId) : Reading (lookupFrom key fuel id) := by
  induction fuel generalizing id with
  | zero => exact .throw _
  | succ fuel ih =>
      refine .bind (reading_load id) fun node => ?_
      cases node with
      | interior first rest => exact ih _
      | leaf cells =>
          dsimp only
          generalize Node.findCell key cells = place
          obtain ⟨i, found⟩ := place
          cases found with
          | true => exact .pure cells[i]?
          | false => exact .pure none

theorem reading_firstFrom (fuel : Nat) (id : PageId) : Reading (firstFrom fuel id) := by
  induction fuel generalizing id with
  | zero => exact .throw _
  | succ fuel ih =>
      refine .bind (reading_load id) fun node => ?_
      cases node with
      | interior first rest => exact ih _
      | leaf cells => exact .pure cells.head?

theorem reading_lastFrom (fuel : Nat) (id : PageId) : Reading (lastFrom fuel id) := by
  induction fuel generalizing id with
  | zero => exact .throw _
  | succ fuel ih =>
      refine .bind (reading_load id) fun node => ?_
      cases node with
      | interior first rest => exact ih _
      | leaf cells => exact .pure cells.getLast?

theorem reading_firstFound {search : PageId → Action Pager (Option Cell)}
    (hsearch : ∀ id, Reading (search id)) (ids : List PageId) :
    Reading (firstFound search ids) := by
  induction ids with
  | nil => exact .pure none
  | cons id ids ih =>
      refine .bind (hsearch id) fun found => ?_
      cases found with
      | some c => exact .pure (some c)
      | none => exact ih

theorem reading_ceilFrom (limit fuel : Nat) (id : PageId) :
    Reading (ceilFrom bound strict limit fuel id) := by
  induction fuel generalizing id with
  | zero => exact .throw _
  | succ fuel ih =>
      refine .bind (reading_load id) fun node => ?_
      cases node with
      | leaf cells => exact .pure _
      | interior first rest =>
          refine .bind (ih _) fun found => ?_
          cases found with
          | some c => exact .pure (some c)
          | none => exact reading_firstFound (reading_firstFrom limit) _

theorem reading_floorFrom (limit fuel : Nat) (id : PageId) :
    Reading (floorFrom bound strict limit fuel id) := by
  induction fuel generalizing id with
  | zero => exact .throw _
  | succ fuel ih =>
      refine .bind (reading_load id) fun node => ?_
      cases node with
      | leaf cells => exact .pure _
      | interior first rest =>
          refine .bind (ih _) fun found => ?_
          cases found with
          | some c => exact .pure (some c)
          | none => exact reading_firstFound (reading_lastFrom limit) _

variable [Codec]

theorem reading_fromRoot {search : Nat → PageId → Action Pager (Option Cell)}
    (hsearch : ∀ fuel id, Reading (search fuel id)) : Reading (fromRoot search) := by
  refine .look (fun _ _ => rfl) fun p => ?_
  dsimp only
  split
  · exact .pure none
  refine .bind reading_depthLimit fun fuel => .bind (hsearch fuel _) fun found => ?_
  cases found with
  | none => exact .pure none
  | some c => exact .bind (reading_record c) fun r => .pure (some r)

theorem reading_get (key : Bytes) : Reading (get key) :=
  .bind (reading_fromRoot reading_lookupFrom) fun _ => .pure _

theorem reading_first : Reading first := reading_fromRoot reading_firstFrom

theorem reading_last : Reading last := reading_fromRoot reading_lastFrom

theorem reading_next (key : Bytes) : Reading (next key) :=
  reading_fromRoot fun limit => reading_ceilFrom limit limit

theorem reading_prev (key : Bytes) : Reading (prev key) :=
  reading_fromRoot fun limit => reading_floorFrom limit limit

theorem reading_seek (key : Bytes) (mode : SeekMode) : Reading (seek key mode) := by
  cases mode with
  | exact => exact .bind (reading_get key) fun _ => .pure _
  | atMost => exact reading_fromRoot fun limit => reading_floorFrom limit limit
  | atLeast => exact reading_fromRoot fun limit => reading_ceilFrom limit limit

end

/-! ## Insertion -/

theorem orderly_store (id : PageId) (n : Node) : Orderly Undoable (store id n) :=
  .writeResult (fun _ _ _ => rfl) fun _ _ hp hpage => by
    rw [(Page.of_fill_eq_ok hpage).2]
    exact Page.length_make (Nat.le_trans (by decide) (pageSize_bounds hp).1) ..

theorem orderly_create (n : Node) : Orderly Undoable (create n) :=
  .bind .allocate fun id => .bind (orderly_store id n) fun _ => .pure id

theorem orderly_storeDivided (id : PageId) (n : Node) : Orderly Undoable (storeDivided id n) := by
  refine .self_bind (fun _ _ _ => rfl) fun p => ?_
  split
  · exact .bind (orderly_store id n) fun _ => .pure none
  · refine .bind (.ofResult (divide n)) fun parts => ?_
    obtain ⟨left, separator, right⟩ := parts
    exact .bind (orderly_create right) fun sibling => .bind (orderly_store id left) fun _ => .pure _

theorem orderly_insertFrom (cell : Cell) (fuel : Nat) (id : PageId) :
    Orderly Undoable (insertFrom cell fuel id) := by
  induction fuel generalizing id with
  | zero => exact .throw _
  | succ fuel ih =>
      refine .bind (reading_load id).orderly.undoable fun node => ?_
      cases node with
      | leaf cells =>
          generalize putCell cell cells = put
          obtain ⟨cells, replaced⟩ := put
          exact .bind (orderly_storeDivided id _) fun sibling => .pure _
      | interior first rest =>
          refine .bind (ih _) fun insertion => ?_
          obtain ⟨replaced, sibling⟩ := insertion
          cases sibling with
          | none => exact .pure _
          | some branch => exact .bind (orderly_storeDivided id _) fun sibling => .pure _

theorem orderly_insertAt (root : PageId) (cell : Cell) : Orderly Undoable (insertAt root cell) := by
  refine .bind reading_depthLimit.orderly.undoable fun fuel => ?_
  refine .bind (orderly_insertFrom ..) fun insertion => ?_
  obtain ⟨replaced, sibling⟩ := insertion
  cases sibling with
  | some branch =>
      refine .bind (orderly_create _) fun id => .bind (.setRoot id) fun _ => ?_
      cases replaced with
      | some old => exact orderly_releaseValue old
      | none => exact .adjustRecordCount 1
  | none =>
      cases replaced with
      | some old => exact orderly_releaseValue old
      | none => exact .adjustRecordCount 1

theorem orderly_insert [Codec] (c : Compression) (key value : Bytes) :
    Orderly Undoable (insert c key value) := by
  refine .bind (orderly_makeValue c key value) fun stored => ?_
  refine .self_bind (fun _ _ _ => rfl) fun p => ?_
  dsimp only
  split
  · exact .bind (orderly_create _) fun id => .bind (.setRoot id) fun _ => .adjustRecordCount 1
  · exact orderly_insertAt ..

/-! ## Removal -/

theorem orderly_removeFrom (key : Bytes) (fuel : Nat) (id : PageId) :
    Orderly Undoable (removeFrom key fuel id) := by
  induction fuel generalizing id with
  | zero => exact .throw _
  | succ fuel ih =>
      refine .bind (reading_load id).orderly.undoable fun node => ?_
      cases node with
      | leaf cells =>
          dsimp only
          generalize Node.findCell key cells = place
          obtain ⟨i, found⟩ := place
          cases found with
          | false => exact .pure none
          | true =>
              dsimp only
              cases cells[i]? with
              | none => exact .pure none
              | some cell =>
                  dsimp only
                  split
                  · exact .bind (.free id) fun _ => .pure _
                  · exact .bind (orderly_store id _) fun _ => .pure _
      | interior first rest =>
          refine .bind (ih _) fun removal => ?_
          cases removal with
          | none => exact .pure none
          | some removal =>
              dsimp only
              split
              · exact .pure _
              · cases dropChild first rest (Node.childIndex key rest) with
                | none => exact .bind (.free id) fun _ => .pure _
                | some node => exact .bind (orderly_store id node) fun _ => .pure _

theorem orderly_collapse (fuel : Nat) (root : PageId) : Orderly Undoable (collapse fuel root) := by
  induction fuel generalizing root with
  | zero => exact .throw _
  | succ fuel ih =>
      refine .bind (reading_load root).orderly.undoable fun node => ?_
      split
      · exact .bind (.free root) fun _ => .bind (.setRoot _) fun _ => ih _
      · exact .pure _

theorem orderly_remove (key : Bytes) : Orderly Undoable (remove key) := by
  refine .self_bind (fun _ _ _ => rfl) fun p => ?_
  dsimp only
  split
  · exact .pure false
  refine .bind reading_depthLimit.orderly.undoable fun fuel => ?_
  refine .bind (orderly_removeFrom ..) fun removal => ?_
  cases removal with
  | none => exact .pure false
  | some removal =>
      refine .bind (orderly_releaseValue _) fun _ => .bind (.adjustRecordCount _) fun _ => ?_
      split
      · exact .bind (.setRoot 0) fun _ => .pure true
      · exact .bind reading_depthLimit.orderly.undoable fun fuel =>
          .bind (orderly_collapse ..) fun _ => .pure true

/-! ## Records that are not there -/

section

variable {key : Bytes} {p q : Pager} {d d' : Disk}

/-- A search for a record to be removed changes nothing that can be seen until it has found it. -/
theorem alike_of_removeFrom_none {fuel : Nat} {id : PageId}
    (h : (removeFrom key fuel id).exec p d = (.ok none, q, d')) : Alike p q ∧ d' = d := by
  induction fuel generalizing id p q d d' with
  | zero => cases h
  | succ fuel ih =>
      obtain ⟨node, p₁, d₁, hload, h⟩ := of_exec_bind_ok h
      obtain ⟨halike, rfl⟩ := (reading_load id).orderly.leaves.of_exec hload
      cases node with
      | leaf cells =>
          dsimp only at h
          generalize Node.findCell key cells = place at h
          obtain ⟨i, found⟩ := place
          cases found with
          | false =>
              obtain ⟨-, rfl, rfl⟩ := exec_ok_inj h
              exact ⟨halike, rfl⟩
          | true =>
              dsimp only at h
              cases hcell : cells[i]? with
              | none =>
                  rw [hcell] at h
                  obtain ⟨-, rfl, rfl⟩ := exec_ok_inj h
                  exact ⟨halike, rfl⟩
              | some cell =>
                  rw [hcell] at h
                  dsimp only at h
                  split at h <;> cases eq_of_exec_bind_pure h
      | interior first rest =>
          obtain ⟨removal, p₂, d₂, hbelow, h⟩ := of_exec_bind_ok h
          cases removal with
          | none =>
              obtain ⟨-, rfl, rfl⟩ := exec_ok_inj h
              obtain ⟨hrest, rfl⟩ := ih hbelow
              exact ⟨halike.trans hrest, rfl⟩
          | some removal =>
              dsimp only at h
              split at h
              · cases (exec_ok_inj h).1
              · split at h <;> cases eq_of_exec_bind_pure h

theorem alike_of_remove_false (h : (remove key).exec p d = (.ok false, q, d')) :
    Alike p q ∧ d' = d := by
  rw [remove, exec_bind, exec_self] at h
  dsimp only at h
  split at h
  · obtain ⟨-, rfl, rfl⟩ := exec_ok_inj h
    exact ⟨.refl p, rfl⟩
  obtain ⟨fuel, p₁, d₁, hfuel, hsearch⟩ := of_exec_bind_ok h
  obtain ⟨hfirst, rfl⟩ := reading_depthLimit.orderly.leaves.of_exec hfuel
  obtain ⟨removal, p₂, d₂, hremoved, hend⟩ := of_exec_bind_ok hsearch
  cases removal with
  | none =>
      obtain ⟨-, rfl, rfl⟩ := exec_ok_inj hend
      obtain ⟨hrest, rfl⟩ := alike_of_removeFrom_none hremoved
      exact ⟨hfirst.trans hrest, rfl⟩
  | some removal =>
      -- Once a record was removed the answer is that it was there.
      obtain ⟨_, _, _, -, hcounted⟩ := of_exec_bind_ok hend
      obtain ⟨_, _, _, -, hlast⟩ := of_exec_bind_ok hcounted
      split at hlast
      · cases eq_of_exec_bind_pure hlast
      · obtain ⟨_, _, _, -, hcollapsed⟩ := of_exec_bind_ok hlast
        cases eq_of_exec_bind_pure hcollapsed

end

/-! ## Operations as a whole -/

theorem reading_checkKey (key : Bytes) : Reading (checkKey key) := by
  refine .look (fun _ _ => rfl) fun p => ?_
  dsimp only
  split
  · exact .throw _
  · exact .pure ()

theorem orderly_extend [Codec] (c : Compression) (key value : Bytes) :
    Orderly Undoable (get key >>= fun old => insert c key (old.getD [] ++ value)) :=
  .bind (reading_get key).orderly.undoable fun _ => orderly_insert ..

section

variable {p q : Pager} {d d' : Disk} {e : Error}

/-- An operation that is refused before it begins, or fails under its savepoint, changes nothing. -/
theorem unchanged_of_checked {α : Type} {key : Bytes} {a : Action Pager α}
    (ha : Orderly Undoable a) (he : e ≠ .panicked)
    (h : (checkKey key >>= fun _ => atomically a).exec p d = (.error e, q, d')) :
    Unchanged p q ∧ d' = d := by
  rw [exec_bind] at h
  match hcheck : (checkKey key).exec p d with
  | (.error e', q', d₁) =>
      rw [hcheck] at h
      obtain ⟨hleft, rfl⟩ := (reading_checkKey key).orderly.leaves.of_exec hcheck
      cases h
      exact ⟨hleft.unchanged, rfl⟩
  | (.ok x, q', d₁) =>
      rw [hcheck] at h
      obtain ⟨hleft, rfl⟩ := (reading_checkKey key).orderly.leaves.of_exec hcheck
      obtain ⟨hfailed, hnone, rfl⟩ := unchanged_of_error ha.leaves he h
      refine ⟨⟨hleft.toSame.trans hfailed.toSame, ?_, ?_, .inl hnone⟩, rfl⟩
      · rw [hfailed.header, hleft.header]
      · rw [hfailed.dirty, hleft.dirty]

theorem unchanged_of_put [Codec] {c : Compression} {key value : Bytes} (he : e ≠ .panicked)
    (h : (put c key value).exec p d = (.error e, q, d')) : Unchanged p q ∧ d' = d :=
  unchanged_of_checked (orderly_insert c key value) he h

theorem unchanged_of_append [Codec] {c : Compression} {key value : Bytes} (he : e ≠ .panicked)
    (h : (append c key value).exec p d = (.error e, q, d')) : Unchanged p q ∧ d' = d :=
  unchanged_of_checked (orderly_extend c key value) he h

theorem unchanged_of_delete {key : Bytes} (he : e ≠ .panicked)
    (h : (delete key).exec p d = (.error e, q, d')) : Unchanged p q ∧ d' = d := by
  obtain ⟨hfailed, -, hd⟩ := unchanged_of_error (orderly_remove key).leaves he h
  exact ⟨hfailed, hd⟩

end

theorem leaves_put [Codec] (c : Compression) (key value : Bytes) : Leaves Same (put c key value) :=
  .bind ((reading_checkKey key).orderly.leaves.mono fun _ _ h => h.toSame) fun _ =>
    (leaves_atomically (orderly_insert c key value).leaves).mono fun _ _ h => h.toSame

theorem leaves_append [Codec] (c : Compression) (key value : Bytes) :
    Leaves Same (append c key value) :=
  .bind ((reading_checkKey key).orderly.leaves.mono fun _ _ h => h.toSame) fun _ =>
    (leaves_atomically (orderly_extend c key value).leaves).mono fun _ _ h => h.toSame

theorem leaves_delete (key : Bytes) : Leaves Same (delete key) :=
  (leaves_atomically (orderly_remove key).leaves).mono fun _ _ h => h.toSame

/-- A record that was not there is not missed. -/
theorem unchanged_of_delete_false {key : Bytes} {p q : Pager} {d d' : Disk}
    (h : (delete key).exec p d = (.ok false, q, d')) : Unchanged p q ∧ d' = d := by
  obtain ⟨q', hbody, rfl⟩ := of_exec_atomically_ok h
  obtain ⟨hleft, hd⟩ := alike_of_remove_false hbody
  exact ⟨⟨((same_begun p).trans hleft.toSame).trans (same_ended q'), hleft.header, hleft.dirty,
    .inl rfl⟩, hd⟩

theorem keeps_idle_put [Codec] (c : Compression) (key value : Bytes) :
    Action.Keeps (fun p _ => Idle p) (put c key value) :=
  .bind (reading_checkKey key).orderly.keeps_idle fun _ =>
    keeps_idle_atomically (orderly_insert c key value)

theorem keeps_idle_append [Codec] (c : Compression) (key value : Bytes) :
    Action.Keeps (fun p _ => Idle p) (append c key value) :=
  .bind (reading_checkKey key).orderly.keeps_idle fun _ =>
    keeps_idle_atomically (orderly_extend c key value)

theorem keeps_idle_delete (key : Bytes) : Action.Keeps (fun p _ => Idle p) (delete key) :=
  keeps_idle_atomically (orderly_remove key)

theorem keeps_idle_close : Action.Keeps (fun p _ => Idle p) close := by
  intro p d hp
  rw [close, exec_bind, exec_self]
  dsimp only
  split
  · exact hp
  · exact keeps_idle_commit p d hp

theorem blind_put [Codec] (c : Compression) (key value : Bytes) : Blind (put c key value) :=
  .bind (reading_checkKey key).orderly.blind fun _ => (orderly_insert c key value).blind.atomically

theorem blind_append [Codec] (c : Compression) (key value : Bytes) : Blind (append c key value) :=
  .bind (reading_checkKey key).orderly.blind fun _ => (orderly_extend c key value).blind.atomically

theorem blind_delete (key : Bytes) : Blind (delete key) := (orderly_remove key).blind.atomically

end PagedStore.Tree
