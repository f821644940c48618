import PagedStore.Proofs.Allotments

/-!
# The pages that a record takes

A record is stored in two parts. The first one takes pages: those of a chain if the value is long,
one for each node that has to be divided, and one for a new root (`place`). The second one gives
back the chain of the value that is replaced, or counts the record (`settle`), and is never short of
pages. So the pages that come free with the old value are of no use to the new one.
-/

set_option autoImplicit false

namespace PagedStore

open PagedStore.Action Pager

/-! ## Nodes are in use -/

/-- A free page holds no node. -/
theorem not_free_of_ofPage {page : Page} {n : Tree.Node} (h : Tree.Node.ofPage page = .ok n) :
    page.kind ≠ .ok .free := by
  intro hfree
  rw [Tree.Node.ofPage, hfree] at h
  cases h

/-- A page that holds a node is in use. -/
theorem Fit.loaded {f : Face} {held : List PageId} (h : Fit f held) (hs : f.Sane) {id : PageId}
    {n : Tree.Node} (hnode : f.node id = .ok n) : Fit f (id :: held) := by
  obtain ⟨⟨used, free, ha, hheld⟩, hroot⟩ := h
  rw [Face.node] at hnode
  cases hpage : f.pages id with
  | error e =>
      rw [hpage] at hnode
      cases hnode
  | ok page =>
      rw [hpage] at hnode
      have hlisted : id ∉ free := fun hfree => by
        obtain ⟨other, hother, hkind⟩ := ha.listed.kind_of_mem hfree
        obtain rfl := Except.ok.inj (hother.symm.trans hpage)
        exact not_free_of_ofPage hnode hkind
      have hused := ha.mem_used (hs.page id page hpage).2.1 hlisted
      refine ⟨⟨used, free, ha, fun other ho => ?_⟩, hroot⟩
      rcases List.mem_cons.1 ho with rfl | ho
      · exact hused
      · exact hheld other ho

namespace Tree

variable {held : List PageId}

/-! ## Chains -/

namespace Chain

theorem spends_allocateAll (count : Nat) (held : List PageId) :
    Spends held (allocateAll count) fun ids => ids ++ held := by
  induction count generalizing held with
  | zero => exact .pure (by simp)
  | succ count ih =>
      refine .bind (.allocate held) (fun id => List.subset_cons_self id held) fun id => ?_
      refine .bind (ih (id :: held)) (fun ids => List.subset_append_right ids _) fun ids => ?_
      refine .pure fun other ho => ?_
      simp only [List.cons_append, List.mem_cons, List.mem_append] at ho ⊢
      tauto

theorem spends_writeAll {ids : List PageId} (hids : ids ⊆ held) (parts : List Bytes) :
    Spends held (writeAll ids parts) fun _ => held := by
  fun_induction writeAll ids parts with
  | case1 id ids part more ih =>
      rw [← bind_assoc]
      refine .bind (.write (fun _ _ => rfl) (fun p hp => ?_) fun _ => hids List.mem_cons_self)
        (fun _ => List.Subset.refl held) fun _ => ih (List.subset_of_cons_subset hids)
      exact Page.length_make (Nat.le_trans (by decide) (pageSize_bounds hp).1) ..
  | case2 => exact .pure (List.Subset.refl held)

theorem spends_write (held : List PageId) (value : Bytes) :
    Spends held (Chain.write value) fun _ => held := by
  refine .self_bind (fun _ _ => rfl) fun p => ?_
  refine .bind (spends_allocateAll _ held) (fun ids => List.subset_append_right ids _) fun ids => ?_
  refine .bind (spends_writeAll (List.subset_append_left ids held) _)
    (fun _ => List.Subset.refl _) fun _ => .pure (List.subset_append_right ids held)

end Chain

theorem spends_makeValue [Codec] (held : List PageId) (c : Compression) (key value : Bytes) :
    Spends held (makeValue c key value) fun _ => held := by
  refine .self_bind (fun _ _ => rfl) fun p => ?_
  split
  · exact .pure (List.Subset.refl held)
  split
  · exact .throw nofun
  · refine .bind (.ofResult (fun e he => ?_) fun _ _ =>
      List.Subset.refl held) (fun _ => List.Subset.refl held) fun packed => ?_
    · obtain ⟨s, rfl⟩ := of_pack_eq_error he
      nofun
    · exact .bind (Chain.spends_write held packed.1) (fun _ => List.Subset.refl held)
        fun head => .pure (List.Subset.refl held)

/-! ## Nodes -/

theorem spends_load (held : List PageId) (id : PageId) :
    Spends held (load id) fun _ => id :: held := by
  refine .of_reading (reading_load id) (fun p d hp => ?_) fun p d e hp he => ?_
  · obtain ⟨q, hexec, halike, -⟩ := answers_load (p.face d) id p d hp.legible.displays
    have husable := hp.usable.of_orderly (reading_load id).orderly.undoable hexec
    refine ⟨_, q, hexec, ?_⟩
    cases hnode : (p.face d).node id with
    | error e => exact ⟨husable, halike.face d ▸ hp.fit⟩
    | ok n => exact ⟨husable, halike.face d ▸ hp.fit.loaded hp.usable.sane hnode⟩
  · obtain ⟨q, hexec, -⟩ := answers_load (p.face d) id p d hp.legible.displays
    rw [hexec] at he
    obtain ⟨s, rfl⟩ := onlyCorrupt_node (honest_face p d) id e he
    nofun

theorem spends_depthLimit (held : List PageId) : Spends held depthLimit fun _ => held :=
  .self_bind (fun _ _ => rfl) fun _ => .pure (List.Subset.refl held)

theorem spends_store {id : PageId} (hid : id ∈ held) (n : Node) :
    Spends held (store id n) fun _ => held := by
  refine .writeResult (fun _ _ => rfl) (fun p image hp hpage => ?_) (fun p image hpage => ?_)
    fun p e he => ?_
  · rw [(Page.of_fill_eq_ok hpage).2]
    exact Page.length_make (Nat.le_trans (by decide) (pageSize_bounds hp).1) ..
  · rw [(Page.of_fill_eq_ok hpage).2]
    exact hid
  · cases Page.of_fill_eq_error he
    nofun

theorem spends_create (held : List PageId) (n : Node) :
    Spends held (create n) fun id => id :: held := by
  refine .bind (.allocate held) (fun id => List.subset_cons_self id held) fun id => ?_
  exact .bind (spends_store List.mem_cons_self n) (fun _ => List.Subset.refl _)
    fun _ => .pure (List.Subset.refl _)

theorem spends_storeDivided {id : PageId} (hid : id ∈ held) (n : Node) :
    Spends held (storeDivided id n) fun _ => held := by
  refine .self_bind (fun _ _ => rfl) fun p => ?_
  split
  · exact .bind (spends_store hid n) (fun _ => List.Subset.refl held)
      fun _ => .pure (List.Subset.refl held)
  · refine .bind (.ofResult (fun e he => ?_) fun _ _ =>
      List.Subset.refl held) (fun _ => List.Subset.refl held) ?_
    · cases of_divide_eq_error he
      nofun
    · rintro ⟨left, separator, right⟩
      refine .bind (spends_create held right) (fun id => List.subset_cons_self id held)
        fun sibling => ?_
      exact .bind (spends_store (List.mem_cons_of_mem _ hid) left) (fun _ => List.Subset.refl _)
        fun _ => .pure (List.subset_cons_self sibling held)

/-- **On the way down nothing is taken**, and on the way up a page for each node that is divided. -/
theorem spends_insertFrom (cell : Cell) (fuel : Nat) (held : List PageId) (id : PageId) :
    Spends held (insertFrom cell fuel id) fun _ => held := by
  induction fuel generalizing held id with
  | zero => exact .throw nofun
  | succ fuel ih =>
      have hsub := List.subset_cons_self id held
      refine .bind (spends_load held id) (fun _ => hsub) fun node => ?_
      cases node with
      | leaf cells =>
          generalize putCell cell cells = put
          obtain ⟨cells, replaced⟩ := put
          exact .bind (spends_storeDivided List.mem_cons_self _) (fun _ => List.Subset.refl _)
            fun sibling => .pure hsub
      | interior first rest =>
          refine .bind (ih (id :: held) _) (fun _ => List.Subset.refl _) fun insertion => ?_
          obtain ⟨replaced, sibling⟩ := insertion
          cases sibling with
          | none => exact .pure hsub
          | some branch =>
              exact .bind (spends_storeDivided List.mem_cons_self _) (fun _ => List.Subset.refl _)
                fun sibling => .pure hsub

/-! ## The two parts of storing a record -/

section

variable [Codec]

/-- Puts the record into the tree, and gives the value that it replaces. All pages that it takes are
taken here. -/
def place (c : Compression) (key value : Bytes) : Action Pager (Option CellValue) := do
  let cell : Cell := ⟨key, ← makeValue c key value⟩
  let root := (← self).header.root
  if root = 0 then
    setRoot (← create (.leaf [cell]))
    return none
  else
    let insertion ← insertFrom cell (← depthLimit) root
    match insertion.sibling with
    | some branch => setRoot (← create (.interior root [branch]))
    | none => pure ()
    return insertion.replaced

/-- Gives back the pages of the value that was replaced, or counts the record as a new one. -/
def settle : Option CellValue → Action Pager Unit
  | some old => releaseValue old
  | none => adjustRecordCount 1

/-- **Storing a record is to place it and to settle.** -/
theorem insert_eq (c : Compression) (key value : Bytes) :
    insert c key value = place c key value >>= settle := by
  rw [insert, place, bind_assoc]
  refine congrArg (Bind.bind _) (funext fun v => ?_)
  rw [bind_assoc]
  refine congrArg (Bind.bind self) (funext fun p => ?_)
  dsimp only
  split
  · simp only [bind_assoc, pure_bind]
    rfl
  · rw [insertAt]
    simp only [bind_assoc]
    refine congrArg (Bind.bind depthLimit) (funext fun fuel => ?_)
    refine congrArg (Bind.bind _) (funext fun insertion => ?_)
    obtain ⟨replaced, sibling⟩ := insertion
    cases sibling with
    | none => cases replaced <;> rfl
    | some branch =>
        simp only [bind_assoc, pure_bind]
        cases replaced <;> rfl

/-- Puts the record with the longer value into the tree, and gives the value that it replaces. -/
def extend (c : Compression) (key value : Bytes) : Action Pager (Option CellValue) := do
  place c key ((← get key).getD [] ++ value)

/-- A change of one record: first it is placed, then it is settled. -/
def changing (key : Bytes) (a : Action Pager (Option CellValue)) : Action Pager Unit := do
  checkKey key
  atomically (a >>= settle)

/-- As much of a change as may take pages. -/
def taking (key : Bytes) (a : Action Pager (Option CellValue)) :
    Action Pager (Option CellValue) := do
  checkKey key
  beginOp
  a

theorem put_eq (c : Compression) (key value : Bytes) :
    put c key value = changing key (place c key value) := by
  rw [put, insert_eq, changing]

theorem append_eq (c : Compression) (key value : Bytes) :
    append c key value = changing key (extend c key value) := by
  rw [append, changing, extend, bind_assoc]
  simp only [insert_eq]

/-- **Placing a record takes pages and gives none back.** -/
theorem spends_place (c : Compression) (key value : Bytes) :
    Spends [] (place c key value) fun _ => [] := by
  have hnil (ids : List PageId) : [] ⊆ ids := List.nil_subset ids
  refine .bind (spends_makeValue [] c key value) (fun _ => hnil _) fun v => ?_
  refine .self_bind (fun _ _ => rfl) fun p => ?_
  dsimp only
  split
  · refine .bind (spends_create [] _) (fun _ => hnil _) fun id => ?_
    exact .bind (.setRoot List.mem_cons_self) (fun _ => List.Subset.refl _) fun _ => .pure (hnil _)
  · refine .bind (spends_depthLimit []) (fun _ => hnil _) fun fuel => ?_
    refine .bind (spends_insertFrom ..) (fun _ => hnil _) fun insertion => ?_
    obtain ⟨replaced, sibling⟩ := insertion
    cases sibling with
    | none => exact .pure (hnil _)
    | some branch =>
        refine .bind (spends_create [] _) (fun _ => hnil _) fun id => ?_
        exact .bind (.setRoot List.mem_cons_self) (fun _ => List.Subset.refl _) fun _ => .pure (hnil _)

end

/-- **Settling never wants a page.** -/
theorem ends_settle (replaced : Option CellValue) : Ends Denied (settle replaced) := by
  cases replaced with
  | some old => exact ends_releaseValue old
  | none => exact .adjustRecordCount 1

end Tree

/-! ## Programs under which the file does not grow -/

/-- The file has as many pages as before. -/
def Pager.Level (p q : Pager) : Prop := q.header.pageCount = p.header.pageCount

instance : IsPreorder Pager Level where
  refl _ := rfl
  trans _ _ _ h₁ h₂ := h₂.trans h₁

namespace Tree

theorem level_of_reading {α : Type} {a : Action Pager α} (h : Reading a) : Leaves Level a :=
  h.orderly.leaves.mono fun _ _ halike => congrArg Header.pageCount halike.header

theorem level_write (page : Page) : Leaves Level (write page) := by
  refine .bind leaves_ensureWritable fun _ => .self_bind fun p => ?_
  cases p.inRange page.id with
  | true => exact .update fun _ => rfl
  | false => exact .ofResult (.error _)

theorem level_free (id : PageId) : Leaves Level (Pager.free id) :=
  .bind leaves_ensureWritable fun _ => .self_bind fun _ =>
    .bind (level_write _) fun _ => .update fun _ => rfl

theorem level_setRoot (id : PageId) : Leaves Level (setRoot id) := .update fun _ => rfl

theorem level_adjustRecordCount (delta : Int) : Leaves Level (adjustRecordCount delta) :=
  .update fun _ => rfl

theorem level_freeFrom (head : PageId) (fuel : Nat) (hops : UInt32) (id : PageId) :
    Leaves Level (Chain.freeFrom head fuel hops id) := by
  induction fuel generalizing hops id with
  | zero => exact .ofResult (.error .endless)
  | succ fuel ih =>
      rw [Chain.freeFrom]
      split
      · exact .ofResult (.ok ())
      · exact .bind (level_of_reading (Chain.reading_visit ..)) fun page =>
          .bind (level_free _) fun _ => ih _ _

theorem level_releaseValue (v : CellValue) : Leaves Level (releaseValue v) := by
  cases v with
  | inline bs => exact .ofResult (.ok ())
  | chained length head compressed => exact .self_bind fun _ => level_freeFrom _ _ _ _

theorem level_settle (replaced : Option CellValue) : Leaves Level (settle replaced) := by
  cases replaced with
  | some old => exact level_releaseValue old
  | none => exact level_adjustRecordCount 1

theorem level_store (id : PageId) (n : Node) : Leaves Level (store id n) :=
  .self_bind fun _ => .bind (.ofResult _) fun page => level_write page

theorem level_removeFrom (key : Bytes) (fuel : Nat) (id : PageId) :
    Leaves Level (removeFrom key fuel id) := by
  induction fuel generalizing id with
  | zero => exact .ofResult (.error .endless)
  | succ fuel ih =>
      refine .bind (level_of_reading (reading_load id)) fun node => ?_
      cases node with
      | leaf cells =>
          dsimp only
          generalize Node.findCell key cells = place
          obtain ⟨i, found⟩ := place
          cases found with
          | false => exact .ofResult (.ok none)
          | true =>
              dsimp only
              cases cells[i]? with
              | none => exact .ofResult (.ok none)
              | some cell =>
                  dsimp only
                  split
                  · exact .bind (level_free id) fun _ => .ofResult (.ok _)
                  · exact .bind (level_store id _) fun _ => .ofResult (.ok _)
      | interior first rest =>
          refine .bind (ih _) fun removal => ?_
          cases removal with
          | none => exact .ofResult (.ok none)
          | some removal =>
              dsimp only
              split
              · exact .ofResult (.ok _)
              · cases dropChild first rest (Node.childIndex key rest) with
                | none => exact .bind (level_free id) fun _ => .ofResult (.ok _)
                | some node => exact .bind (level_store id node) fun _ => .ofResult (.ok _)

theorem level_collapse (fuel : Nat) (root : PageId) : Leaves Level (collapse fuel root) := by
  induction fuel generalizing root with
  | zero => exact .ofResult (.error .endless)
  | succ fuel ih =>
      refine .bind (level_of_reading (reading_load root)) fun node => ?_
      split
      · exact .bind (level_free root) fun _ => .bind (level_setRoot _) fun _ => ih _
      · exact .ofResult (.ok ())

/-- **Nothing that is removed makes the file longer or shorter.** -/
theorem level_remove (key : Bytes) : Leaves Level (remove key) := by
  refine .self_bind fun p => ?_
  dsimp only
  split
  · exact .ofResult (.ok false)
  have hlimit : Leaves Level depthLimit := level_of_reading reading_depthLimit
  refine .bind hlimit fun fuel => .bind (level_removeFrom _ _ _) fun removal => ?_
  cases removal with
  | none => exact .ofResult (.ok false)
  | some removal =>
      refine .bind (level_releaseValue _) fun _ => .bind (level_adjustRecordCount _) fun _ => ?_
      split
      · exact .bind (level_setRoot 0) fun _ => .ofResult (.ok true)
      · exact .bind hlimit fun fuel => .bind (level_collapse _ _) fun _ => .ofResult (.ok true)

/-- An operation under a savepoint lets the file grow as far as its program does, if at all. -/
theorem pageCount_atomically {α : Type} {a : Action Pager α} {p : Pager} {d : Disk}
    (ha : Orderly Undoable a) :
    (((atomically a).exec p d).2.1).header.pageCount = p.header.pageCount ∨
      (((atomically a).exec p d).2.1).header.pageCount =
        ((a.exec p.begun d).2.1).header.pageCount := by
  match hexec : (atomically a).exec p d with
  | (.ok x, q, d') =>
      obtain ⟨q', hbody, rfl⟩ := of_exec_atomically_ok hexec
      rw [hbody]
      exact .inr rfl
  | (.error e, q, d') =>
      by_cases he : e = .panicked
      · obtain ⟨q', hbody, rfl⟩ := of_exec_atomically_error hexec
        subst he
        rw [hbody]
        exact .inr rfl
      · obtain ⟨hleft, -⟩ := unchanged_of_error ha.leaves he hexec
        exact .inl (congrArg Header.pageCount hleft.header)

/-- **No record that is taken out makes the file longer or shorter.** -/
theorem level_delete (key : Bytes) : Leaves Level (delete key) := by
  intro p d
  refine ⟨?_, ((leaves_delete key) p d).2⟩
  rcases pageCount_atomically (orderly_remove key) (p := p) (d := d) with hsame | hbody
  · exact hsame
  · exact hbody.trans ((level_remove key) p.begun d).1

end Tree

namespace Pager

/-! ## Changes of one record -/

section

open PagedStore.Tree

variable {a : Action Pager (Option CellValue)} {key : Bytes} {p : Pager} {d : Disk}

theorem full_iff_exists {α : Type} {r : Except Error α} :
    (∃ text, r = .error (.full text)) ↔ ∃ e, r = .error e ∧ IsFull e := by
  constructor
  · rintro ⟨text, rfl⟩
    exact ⟨_, rfl, text, rfl⟩
  · rintro ⟨_, rfl, text, rfl⟩
    exact ⟨text, rfl⟩

/-- Pages are wanted while a record is placed, and not when it is settled. -/
theorem Pays.full_bind_settle (h : Pays a p d) :
    (∃ e, ((a >>= settle).exec p d).1 = .error e ∧ IsFull e) ↔
      ∃ e, (a.exec p d).1 = .error e ∧ IsFull e := by
  match hexec : a.exec p d with
  | (.error e, q, d') =>
      rw [exec_bind_error hexec]
      constructor <;> rintro ⟨_, ⟨⟩, hfull⟩ <;> exact ⟨e, rfl, hfull⟩
  | (.ok x, q, d') =>
      rw [exec_bind_ok hexec]
      refine iff_of_false ?_ nofun
      rintro ⟨e, he, hfull⟩
      exact ((ends_settle x q d' (h.legible x q d' hexec)).error he).not_full hfull

/-- **A change is refused for want of room exactly if it wants more pages than there are.** -/
theorem Pays.full_iff (h : Pays a p.begun d) :
    (∃ text, ((changing key a).exec p d).1 = .error (.full text)) ↔
      p.spare < demand p ((taking key a).exec p.unlimited d) := by
  rw [changing, taking]
  obtain ⟨s, hcheck⟩ := exec_checkKey key p d
  obtain ⟨s', hcheck'⟩ := exec_checkKey key p.unlimited d
  have hsize : p.unlimited.pageSize = p.pageSize := rfl
  rw [hsize] at hcheck'
  split at hcheck
  · -- A key that is too long is refused before any page is asked for.
    rename_i hlong
    rw [if_pos hlong] at hcheck'
    rw [exec_bind_error hcheck, exec_bind_error hcheck']
    refine iff_of_false nofun ?_
    have hnone : demand p ((.error (.limitReached s'), p.unlimited, d) :
        Except Error (Option CellValue) × Pager × Disk) = 0 := by
      show (p.header.freeCount.toNat - p.header.freeCount.toNat) +
        (p.header.pageCount.toNat - p.header.pageCount.toNat) + 0 = 0
      omega
    rw [hnone]
    exact Nat.not_lt_zero _
  · rename_i hshort
    rw [if_neg hshort] at hcheck'
    have hbegin : beginOp.exec p.unlimited d = (.ok (), p.begun.unlimited, d) := rfl
    rw [exec_bind_ok hcheck, exec_atomically_eq, exec_bind_ok hcheck', exec_bind_ok hbegin,
      full_iff_exists, h.full_bind_settle]
    have hfull := (h.lifted _ (le_unlimited p.maxPages)).full_iff h.spent
    exact hfull

/-- Settling does not let the file grow. -/
theorem Pays.pageCount_bind_settle (h : Pays a p d) :
    (((a >>= settle).exec p d).2.1).header.pageCount.toNat ≤
      max p.header.pageCount.toNat p.maxPages.toNat := by
  have hwithin := h.spent.within
  match hexec : a.exec p d with
  | (.error e, q, d') =>
      rw [hexec] at hwithin
      rw [exec_bind_error hexec]
      exact hwithin
  | (.ok replaced, q, d') =>
      rw [hexec] at hwithin
      rw [exec_bind_ok hexec]
      exact (congrArg UInt32.toNat ((level_settle replaced) q d').1).trans_le hwithin

/-- A change does not let the file grow beyond its limit. -/
theorem Pays.pageCount_le (h : Pays a p.begun d) (ha : Orderly Undoable (a >>= settle)) :
    ((changing key a).exec p d).2.1.header.pageCount.toNat ≤
      max p.header.pageCount.toNat p.maxPages.toNat := by
  obtain ⟨s, hcheck⟩ := exec_checkKey key p d
  rw [changing]
  split at hcheck
  · rw [exec_bind_error hcheck]
    exact Nat.le_max_left _ _
  · rw [exec_bind_ok hcheck]
    rcases pageCount_atomically ha (p := p) (d := d) with hsame | hbody
    · rw [hsame]
      exact Nat.le_max_left _ _
    · rw [hbody]
      exact h.pageCount_bind_settle

end

end Pager

end PagedStore
