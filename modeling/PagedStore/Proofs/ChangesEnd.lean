import PagedStore.Proofs.NodeReading
import PagedStore.Proofs.StoredValues
import PagedStore.Proofs.Undoing

/-!
# Changes to a tree of any pages

Whatever the pages hold, storing a node, giving out a page and giving back a chain come to an end.
So does letting single children take the place of the root, because each of its steps frees a page
and a page that is free has no children (`endsAt_collapse`).

A change that goes down the tree comes to an end where no page below the root leads back to itself.
On its way down it only reads; and a chain that was written before takes children away but gives
none, so that the way is no longer after it than before.

A node that does not fit its page, or is too short to be divided, stops the program. Where a node
was read from a page as long as those of the file it fits, and still does with a cell or a branch
less: so nothing that is taken away stops the program there (`endsAt_remove_even`).
-/

set_option autoImplicit false

namespace PagedStore

open PagedStore.Action

/-! ## Failures -/

/-- The failure that a page is damaged, or that the file may only be read. -/
def Denied (e : Error) : Prop := IsCorrupt e ∨ e = .readOnly

/-- The failures of writing a node: those, or that a check of the program's own fails. -/
def Unwritten (e : Error) : Prop := Denied e ∨ e = .panicked

/-- The failures of storing a record: those, or that there is no room for it. -/
def NotStored (e : Error) : Prop := Unwritten e ∨ Tree.Refused e

theorem Denied.ne_endless {e : Error} (h : Denied e) : e ≠ .endless := by
  rcases h with h | rfl
  · exact h.ne_endless
  · nofun

theorem Denied.not_full {e : Error} (h : Denied e) : ¬ IsFull e := by
  rintro ⟨text, rfl⟩
  rcases h with ⟨s, h⟩ | h <;> cases h

theorem Denied.ne_panicked {e : Error} (h : Denied e) : e ≠ .panicked := by
  rcases h with ⟨s, rfl⟩ | rfl <;> nofun

theorem Unwritten.ne_endless {e : Error} (h : Unwritten e) : e ≠ .endless := by
  rcases h with h | rfl
  · exact h.ne_endless
  · nofun

theorem NotStored.of_corrupt {e : Error} (h : IsCorrupt e) : NotStored e := .inl (.inl (.inl h))

theorem NotStored.limitReached (s : String) : NotStored (.limitReached s) :=
  .inr (.inr (.inl ⟨s, rfl⟩))

theorem NotStored.ne_endless {e : Error} (h : NotStored e) : e ≠ .endless := by
  rcases h with h | ⟨s, rfl⟩ | ⟨s, rfl⟩ | ⟨s, rfl⟩
  · exact h.ne_endless
  · nofun
  · nofun
  · nofun

namespace Pager

/-! ## Programs that come to an end -/

/-- A coherent pager that may be used, for reading at least. -/
structure Legible (p : Pager) (d : Disk) : Prop where
  coherent : Coherent p d
  unpoisoned : p.poisoned = none

/-- Here a program comes to an end, with a result or with a failure of the kind that is meant. -/
def EndsAt {α : Type} (E : Error → Prop) (a : Action Pager α) (p : Pager) (d : Disk) : Prop :=
  ∃ r q, a.exec p d = (r, q, d) ∧ Legible q d ∧ ∀ e, r = .error e → E e

/-- A program comes to an end whatever the pages hold. -/
def Ends {α : Type} (E : Error → Prop) (a : Action Pager α) : Prop :=
  ∀ p d, Legible p d → EndsAt E a p d

section

variable {α β : Type} {p q : Pager} {d : Disk} {E E' : Error → Prop} {a : Action Pager α}
  {k : α → Action Pager β}

namespace Legible

theorem displays (h : Legible p d) : Displays (p.face d) p d :=
  ⟨h.coherent.mirrors h.unpoisoned, h.unpoisoned, rfl, rfl, rfl⟩

theorem of_orderly (h : Legible p d) (ha : Orderly Undoable a) {r : Except Error α}
    (hexec : a.exec p d = (r, q, d)) : Legible q d := by
  obtain ⟨hleft, -⟩ := ha.leaves.of_exec hexec
  have hc := h.coherent.of_blind ha.blind
  rw [hexec] at hc
  exact ⟨hc, hleft.poisoned.trans h.unpoisoned⟩

theorem begun (h : Legible p d) : Legible p.begun d := ⟨h.coherent.begun, h.unpoisoned⟩

/-- The file may be changed, or every change is refused. -/
theorem guard (h : Legible p d) :
    Usable p d ∨ ensureWritable.exec p d = (.error .readOnly, p, d) := by
  rw [exec_ensureWritable_eq, readOnly]
  cases hlog : p.log with
  | some log => exact .inl ⟨h.coherent, h.unpoisoned, log, hlog⟩
  | none => exact .inr rfl

end Legible

namespace EndsAt

theorem of_bind_ok {x : α} (hexec : a.exec p d = (.ok x, q, d)) (h : EndsAt E (k x) q d) :
    EndsAt E (a >>= k) p d := by
  obtain ⟨r, q', hexec', hrest⟩ := h
  exact ⟨r, q', (exec_bind_ok hexec).trans hexec', hrest⟩

theorem of_bind_error {e : Error} (hexec : a.exec p d = (.error e, q, d)) (hq : Legible q d)
    (he : E e) : EndsAt E (a >>= k) p d := by
  refine ⟨.error e, q, exec_bind_error hexec, hq, ?_⟩
  rintro _ ⟨⟩
  exact he

theorem bind (ha : EndsAt E a p d) (hk : ∀ x, Ends E (k x)) : EndsAt E (a >>= k) p d := by
  obtain ⟨r, q, hexec, hq, herror⟩ := ha
  cases r with
  | ok x => exact of_bind_ok hexec (hk x q d hq)
  | error e => exact of_bind_error hexec hq (herror e rfl)

theorem mono (h : EndsAt E a p d) (hE : ∀ e, E e → E' e) : EndsAt E' a p d := by
  obtain ⟨r, q, hexec, hq, herror⟩ := h
  exact ⟨r, q, hexec, hq, fun e he => hE e (herror e he)⟩

theorem error (h : EndsAt E a p d) {e : Error} (he : (a.exec p d).1 = .error e) : E e := by
  obtain ⟨r, q, hexec, -, herror⟩ := h
  rw [hexec] at he
  exact herror e he

/-- Of a program on pages the kind of its failures is all that remains to be seen. -/
theorem of_orderly (hp : Legible p d) (ha : Orderly Undoable a)
    (h : ∀ e, (a.exec p d).1 = .error e → E e) : EndsAt E a p d := by
  obtain ⟨-, hd⟩ := ha.leaves.of_exec (Prod.ext rfl rfl : a.exec p d = (_, _, _))
  have hexec : a.exec p d = ((a.exec p d).1, (a.exec p d).2.1, d) := Prod.ext rfl (Prod.ext rfl hd)
  exact ⟨_, _, hexec, hp.of_orderly ha hexec, h⟩

/-- An operation under a savepoint fails as its body does. -/
theorem atomically (h : EndsAt E a p.begun d) : EndsAt E (Tree.atomically a) p d := by
  obtain ⟨r, q, hexec, hq, herror⟩ := h
  rw [EndsAt, exec_atomically, hexec]
  cases r with
  | ok x => exact ⟨.ok x, q.ended, rfl, ⟨hq.coherent.ended, hq.unpoisoned⟩, nofun⟩
  | error e =>
      exact ⟨.error e, q.abandoned e, rfl, ⟨hq.coherent.abandoned e,
        (same_abandoned q e).poisoned.trans hq.unpoisoned⟩, herror⟩

end EndsAt

namespace Ends

theorem pure (x : α) : Ends E (pure x : Action Pager α) := fun p _ hp =>
  ⟨.ok x, p, rfl, hp, nofun⟩

theorem bind (ha : Ends E a) (hk : ∀ x, Ends E (k x)) : Ends E (a >>= k) := fun p d hp =>
  (ha p d hp).bind hk

theorem self_bind {k : Pager → Action Pager β} (hk : ∀ p, Ends E (k p)) :
    Ends E (self >>= k) := fun p d hp => hk p p d hp

theorem mono (h : Ends E a) (hE : ∀ e, E e → E' e) : Ends E' a := fun p d hp =>
  (h p d hp).mono hE

theorem ofResult {r : Except Error α} (h : ∀ e, r = .error e → E e) :
    Ends E (Action.ofResult r) := fun p _ hp => ⟨r, p, rfl, hp, h⟩

theorem setRoot (id : PageId) : Ends E (Pager.setRoot id) := fun _ _ hp =>
  .of_orderly hp (.setRoot id) nofun

theorem adjustRecordCount (delta : Int) : Ends E (Pager.adjustRecordCount delta) := fun _ _ hp =>
  .of_orderly hp (.adjustRecordCount delta) nofun

theorem free (id : PageId) : Ends Denied (Pager.free id) := by
  intro p d hp
  refine .of_orderly hp (.free id) ?_
  rcases hp.guard with hu | hno
  · rcases hu.exec_free id with ⟨q, -, hexec, -⟩ | ⟨s, hexec⟩
    · rw [hexec]
      nofun
    · rw [hexec]
      rintro _ ⟨⟩
      exact .inl ⟨s, rfl⟩
  · rw [Pager.free, exec_bind_error hno]
    rintro _ ⟨⟩
    exact .inr rfl

theorem allocate : Ends NotStored Pager.allocate := by
  intro p d hp
  refine .of_orderly hp .allocate ?_
  rcases hp.guard with hu | hno
  · rcases hu.exec_allocate with
      ⟨q, page, hexec, -⟩ | ⟨q, hexec, -⟩ | ⟨e, q, hexec, -, hrefuses⟩
    · rw [hexec]
      nofun
    · rw [hexec]
      nofun
    · rw [hexec]
      rintro _ ⟨⟩
      rcases hrefuses with ⟨-, -, hfull⟩ | ⟨-, -, hcorrupt⟩
      · exact .inr (.inl hfull)
      · exact .of_corrupt hcorrupt
  · rw [Pager.allocate, exec_bind_error hno]
    rintro _ ⟨⟩
    exact .inl (.inl (.inr rfl))

end Ends

end

end Pager

namespace Tree

open Pager

/-! ## Nodes and values -/

/-- Writing a page that stands outside the file is denied. -/
theorem denied_of_write {p : Pager} {d : Disk} {page : Page} {e : Error} (hp : Legible p d)
    (he : ((write page).exec p d).1 = .error e) : Denied e := by
  rcases hp.guard with hu | hno
  · rcases hu.exec_write page with ⟨-, hexec, -⟩ | ⟨s, hexec⟩
    · rw [hexec] at he
      cases he
    · rw [hexec] at he
      cases he
      exact .inl ⟨s, rfl⟩
  · rw [write, exec_bind_error hno] at he
    cases he
    exact .inr rfl

/-- A node that fits its page is written there, or this is denied. -/
theorem endsAt_store_of_fits {p : Pager} {d : Disk} {n : Node} (hp : Legible p d)
    (hfits : n.fits p.pageSize = true) (id : PageId) : EndsAt Denied (store id n) p d := by
  refine .of_orderly hp (orderly_store id n) fun e he => ?_
  rw [store, exec_bind_ok (exec_self p d), Node.toPage_of_fits hfits id,
    exec_bind_ok (exec_ofResult _ p d)] at he
  exact denied_of_write hp he

theorem ends_store (id : PageId) (n : Node) : Ends Unwritten (store id n) := by
  intro p d hp
  cases hfits : n.fits p.pageSize with
  | true => exact (endsAt_store_of_fits hp hfits id).mono fun _ => .inl
  | false =>
      refine .of_bind_ok (exec_self p d) ?_
      rw [Node.toPage_of_not_fits hfits id]
      exact .of_bind_error (exec_ofResult _ p d) hp (.inr rfl)

theorem ends_create (n : Node) : Ends NotStored (create n) :=
  .bind .allocate fun id => .bind ((ends_store id n).mono fun _ => .inl) fun _ => .pure id

theorem of_divide_eq_error {n : Node} {e : Error} (h : divide n = .error e) : e = .panicked := by
  cases n with
  | leaf cells =>
      rw [divide] at h
      split at h
      · split at h
        · cases h
        · exact (Except.error.inj h).symm
      · exact (Except.error.inj h).symm
  | interior first rest =>
      rw [divide] at h
      split at h
      · cases h
      · exact (Except.error.inj h).symm

theorem ends_storeDivided (id : PageId) (n : Node) : Ends NotStored (storeDivided id n) := by
  refine .self_bind fun p => ?_
  split
  · exact .bind ((ends_store id n).mono fun _ => .inl) fun _ => .pure none
  · refine .bind (.ofResult fun e he => .inl (.inr (of_divide_eq_error he))) ?_
    rintro ⟨left, separator, right⟩
    refine .bind (ends_create right) fun sibling => ?_
    exact .bind ((ends_store id left).mono fun _ => .inl) fun _ => .pure _

theorem ends_freeChain (head : PageId) : Ends Denied (Chain.free head) := by
  intro p d hp
  refine .of_orderly hp (Chain.orderly_free head) fun e he => ?_
  exact ((Chain.freeEnds hp.coherent hp.unpoisoned head).other e he).imp_right And.right

theorem ends_releaseValue (v : CellValue) : Ends Denied (releaseValue v) := by
  cases v with
  | inline bs => exact .pure ()
  | chained length head compressed => exact ends_freeChain head

section

variable {p q : Pager} {d : Disk}

/-- Storing a value comes to an end. If it succeeds the root is the same page, and no page has a
child that it did not have before. -/
theorem exec_makeValue [Codec] (hp : Legible p d) (c : Compression) (key value : Bytes) :
    ∃ r q, (makeValue c key value).exec p d = (r, q, d) ∧ Legible q d ∧
      (∀ e, r = .error e → NotStored e) ∧
      ∀ v, r = .ok v → q.header.root = p.header.root ∧
        ∀ a b, (q.face d).Enters a b → (p.face d).Enters a b := by
  rw [makeValue, exec_bind, exec_self]
  dsimp only
  split
  · exact ⟨_, p, rfl, hp, nofun, fun _ _ => ⟨rfl, fun _ _ h => h⟩⟩
  split
  · refine ⟨_, p, rfl, hp, ?_, nofun⟩
    rintro _ ⟨⟩
    exact .inr (.inr (.inl ⟨_, rfl⟩))
  cases hpack : pack c value with
  | error e =>
      refine ⟨.error e, p, exec_bind_error (exec_ofResult _ p d), hp, ?_, nofun⟩
      rintro _ ⟨⟩
      exact .inr (.inr (.inr (of_pack_eq_error hpack)))
  | ok packed =>
      obtain ⟨stored, compressed⟩ := packed
      rw [exec_bind_ok (exec_ofResult _ p d)]
      dsimp only
      rcases hp.guard with hu | hno
      · obtain ⟨r, q, hexec, herror, hok⟩ := Chain.exec_writeValue hu stored
        have hq := hp.of_orderly (Chain.orderly_write stored) hexec
        refine ⟨_, q, exec_bind_pure hexec _, hq, ?_, ?_⟩
        · cases r with
          | ok head => nofun
          | error e =>
              rintro _ ⟨⟩
              rcases herror e rfl with hcorrupt | hfull
              · exact .of_corrupt hcorrupt
              · exact .inr (.inl hfull)
        · cases r with
          | ok head =>
              intro _ _
              obtain ⟨ids, hwrote⟩ := hok head rfl
              exact ⟨hwrote.root, fun a b => Face.enters_of_wrote hwrote⟩
          | error e => nofun
      · refine ⟨_, p, exec_bind_error (Chain.exec_write_refused hno stored), hp, ?_, nofun⟩
        rintro _ ⟨⟩
        exact .inl (.inl (.inr rfl))

/-! ## Going down the tree -/

/-- A change that goes down the tree: to the child that is picked of an interior node, and after
that to what has to be done at the node itself. -/
structure Walk {α : Type} (pick : PageId → List (Bytes × PageId) → PageId) (E : Error → Prop)
    (search : (fuel : Nat) → PageId → Action Pager α) : Prop where
  limit : ∀ id, search 0 id = throw .endless
  step : ∃ (k : Nat → PageId → Node → Action Pager α) (leaf : PageId → List Cell → Action Pager α)
      (after : PageId → PageId → List (Bytes × PageId) → α → Action Pager α),
    (∀ fuel id, search (fuel + 1) id = load id >>= k fuel id) ∧
    (∀ fuel id cells, k fuel id (.leaf cells) = leaf id cells) ∧
    (∀ fuel id first rest, k fuel id (.interior first rest) =
      search fuel (pick first rest) >>= after id first rest) ∧
    (∀ id cells, Ends E (leaf id cells)) ∧ ∀ id first rest x, Ends E (after id first rest x)

theorem walk_insertFrom (cell : Cell) : Walk (toward cell.key) NotStored (insertFrom cell) := by
  refine ⟨fun _ => rfl, _, _, _, fun _ _ => rfl, fun _ _ _ => rfl, fun _ _ _ _ => rfl,
    fun id cells => ?_, fun id first rest insertion => ?_⟩
  · exact .bind (ends_storeDivided id _) fun sibling => .pure _
  · obtain ⟨replaced, sibling⟩ := insertion
    cases sibling with
    | none => exact .pure _
    | some branch => exact .bind (ends_storeDivided id _) fun sibling => .pure _

theorem walk_removeFrom (key : Bytes) : Walk (toward key) Unwritten (removeFrom key) := by
  refine ⟨fun _ => rfl, _, _, _, fun _ _ => rfl, fun _ _ _ => rfl, fun _ _ _ _ => rfl,
    fun id cells => ?_, fun id first rest removal => ?_⟩
  · dsimp only
    generalize Node.findCell key cells = place
    obtain ⟨i, found⟩ := place
    cases found with
    | false => exact .pure none
    | true =>
        dsimp only
        cases cells[i]? with
        | none => exact .pure none
        | some cell =>
            dsimp only
            split
            · exact .bind ((Ends.free id).mono fun _ => .inl) fun _ => .pure _
            · exact .bind (ends_store id _) fun _ => .pure _
  · cases removal with
    | none => exact .pure none
    | some removal =>
        dsimp only
        split
        · exact .pure _
        · cases dropChild first rest (Node.childIndex key rest) with
          | none => exact .bind ((Ends.free id).mono fun _ => .inl) fun _ => .pure _
          | some node => exact .bind (ends_store id node) fun _ => .pure _

section

variable {α : Type} {pick : PageId → List (Bytes × PageId) → PageId} {E : Error → Prop}
  {search : Nat → PageId → Action Pager α} {id : PageId} {n fuel fuel' : Nat}

/-- Loading a node changes nothing, or fails because the page is damaged. -/
theorem endsAt_load_bind (hp : Legible p d) (hE : ∀ e, IsCorrupt e → E e)
    {k : Node → Action Pager α}
    (hk : ∀ node q, (p.face d).node id = .ok node → Legible q d → Alike p q →
      EndsAt E (k node) q d) : EndsAt E (load id >>= k) p d := by
  obtain ⟨q, hexec, halike, hq⟩ := answers_load (p.face d) id p d hp.displays
  have hlegible : Legible q d := hp.of_orderly (reading_load id).orderly.undoable hexec
  cases hnode : (p.face d).node id with
  | error e =>
      rw [hnode] at hexec
      exact .of_bind_error hexec hlegible
        (hE e (onlyCorrupt_node (honest_face p d) id e hnode))
  | ok node =>
      rw [hnode] at hexec
      exact .of_bind_ok hexec (hk node q hnode hlegible halike)

/-- **A change ends at a page below which no way is long.** -/
theorem Walk.endsAt (h : Walk pick E search)
    (hpick : ∀ first rest, pick first rest ∈ Node.children first rest)
    (hE : ∀ e, IsCorrupt e → E e) (hp : Legible p d) (hs : (p.face d).Shallow n id)
    (hfuel : n < fuel) : EndsAt E (search fuel id) p d := by
  obtain ⟨k, leaf, after, hstep, hleaf, hinterior, hends, hafter⟩ := h.step
  induction fuel generalizing n id p with
  | zero => exact absurd hfuel (Nat.not_lt_zero _)
  | succ fuel ih =>
      rw [hstep]
      refine endsAt_load_bind hp hE fun node q hnode hq halike => ?_
      cases node with
      | leaf cells =>
          rw [hleaf]
          exact hends id cells q d hq
      | interior first rest =>
          cases n with
          | zero => exact absurd ⟨first, rest, hnode, List.mem_cons_self⟩ (hs first)
          | succ n =>
              have hchild := hs _ ⟨first, rest, hnode, hpick first rest⟩
              rw [hinterior]
              exact (ih hq (halike.face d ▸ hchild) (Nat.lt_of_succ_lt_succ hfuel)).bind
                (hafter id first rest)

theorem Walk.endless {f : Face} (h : Walk pick E search) (hno : ∀ ids, ¬ f.Way pick id ids)
    (fuel : Nat) : Answers f (search fuel id) (.error .endless) := by
  obtain ⟨k, leaf, after, hstep, -, hinterior, -⟩ := h.step
  refine endless_of_load h.limit hstep (fun fuel id first rest hchild => ?_) hno fuel
  rw [hinterior]
  exact .bind_error hchild

theorem Walk.outlasts (h : Walk pick E search) (hle : fuel ≤ fuel') (id : PageId) :
    Outlasts (search fuel' id) (search fuel id) := by
  obtain ⟨k, leaf, after, hstep, hleaf, hinterior, -⟩ := h.step
  refine outlasts_of_load h.limit hstep hstep ?_ hle id
  intro fuel fuel' id node hchild
  cases node with
  | leaf cells =>
      rw [hleaf, hleaf]
      exact .refl _
  | interior first rest =>
      rw [hinterior, hinterior]
      exact .bind_right (hchild _) _

/-! ## The root -/

/-- A page that has children can be read, so it is one of the file. -/
theorem has_of_enters {a b : PageId} (h : (p.face d).Enters a b) : (p.face d).Has a := by
  obtain ⟨first, rest, hnode, -⟩ := h
  rw [Face.node] at hnode
  cases hpage : (p.face d).pages a with
  | error e =>
      rw [hpage] at hnode
      cases hnode
  | ok page => exact (honest_face p d).has a page hpage

/-- Letting single children take the place of the root ends after as many steps as there are pages:
each of them frees a page, and a page that was freed has no children any more. -/
theorem endsAt_collapseFrom (hp : Legible p d) {freed : List PageId} (hnodup : freed.Nodup)
    (hhas : ∀ a ∈ freed, (p.face d).Has a) (hnone : ∀ a ∈ freed, ∀ b, ¬ (p.face d).Enters a b)
    (hfuel : p.header.pageCount.toNat < fuel + freed.length) (root : PageId) :
    EndsAt Denied (collapse fuel root) p d := by
  induction fuel generalizing p freed root with
  | zero =>
      have hle : freed.length ≤ p.header.pageCount.toNat - 1 :=
        Face.length_le_of_nodup hnodup hhas
      omega
  | succ fuel ih =>
      refine endsAt_load_bind hp (fun _ => .inl) fun node q hnode hq halike => ?_
      have hface := halike.face d
      split
      · rename_i first
        have hnew : root ∉ freed := fun hmem =>
          hnone root hmem first ⟨first, [], hnode, List.mem_cons_self⟩
        rcases hq.guard with hu | hno
        · rcases hu.exec_free root with ⟨q₁, hroot, hexec, hfreed⟩ | ⟨s, hexec⟩
          · have hq₁ := hq.of_orderly (.free root) hexec
            have hset : (setRoot first).exec q₁ d =
                (.ok (), { q₁ with header := { q₁.header with root := first } }, d) := rfl
            have hnext := @face_setHeader q₁ { q₁.header with root := first } rfl d
            rw [hface] at hroot hfreed
            have hcount : q₁.header.pageCount = p.header.pageCount :=
              congrArg (fun f : Face => f.header.pageCount) hfreed
            refine .of_bind_ok hexec (.of_bind_ok hset ?_)
            refine ih (hq₁.of_orderly (.setRoot first) hset)
              (List.nodup_cons.2 ⟨hnew, hnodup⟩) (fun a ha => ?_) (fun a ha b hb => ?_) ?_ first
            · have hold : (p.face d).Has a := by
                rcases List.mem_cons.1 ha with rfl | ha
                · exact hroot
                · exact hhas a ha
              exact ⟨hold.1, hcount ▸ hold.2⟩
            · rw [hnext, hfreed] at hb
              obtain ⟨hne, henters⟩ := Face.enters_freed.1 ((Face.enters_congr rfl).1 hb)
              exact hnone a ((List.mem_cons.1 ha).resolve_left hne) b henters
            · rw [show ({ q₁ with header := { q₁.header with root := first } } :
                Pager).header.pageCount = p.header.pageCount from hcount, List.length_cons]
              omega
          · exact .of_bind_error hexec hq (.inl ⟨s, rfl⟩)
        · exact .of_bind_error (exec_bind_error hno) hq (.inr rfl)
      · exact Ends.pure () q d hq

/-- **Letting single children take the place of the root comes to an end**, whatever the pages
hold. -/
theorem endsAt_collapse (hp : Legible p d) (hfuel : p.header.pageCount.toNat < fuel)
    (root : PageId) : EndsAt Denied (collapse fuel root) p d :=
  endsAt_collapseFrom hp List.nodup_nil nofun nofun hfuel root

theorem outlasts_collapse (hle : fuel ≤ fuel') (root : PageId) :
    Outlasts (collapse fuel' root) (collapse fuel root) := by
  refine outlasts_of_load (fun _ => rfl) (fun _ _ => rfl) (fun _ _ => rfl) ?_ hle root
  intro fuel fuel' id node hchild
  split
  · exact .bind_left _ fun _ => .bind_left _ fun _ => hchild _
  · exact .refl _

end

/-! ## Changes as a whole -/

theorem exec_depthLimit (p : Pager) (d : Disk) :
    depthLimit.exec p d = (.ok (p.header.pageCount.toNat + 1), p, d) := rfl

/-- Where no page below the root leads back to itself no way down is as long as the file has
pages. -/
theorem shallow_root {id : PageId} (hno : ¬ (p.face d).Circular id) :
    (p.face d).Shallow (p.header.pageCount.toNat - 1) id :=
  Face.shallow_of_not_circular hno fun _ _ => has_of_enters

theorem endsAt_insertAt (hp : Legible p d) {root : PageId} (hno : ¬ (p.face d).Circular root)
    (cell : Cell) : EndsAt NotStored (insertAt root cell) p d := by
  refine .of_bind_ok (exec_depthLimit p d) (.bind ?_ fun insertion => ?_)
  · exact (walk_insertFrom cell).endsAt (toward_mem cell.key) (fun _ => .of_corrupt) hp
      (shallow_root hno) (by omega)
  · have hrelease : ∀ v, Ends NotStored (releaseValue v) := fun v =>
      (ends_releaseValue v).mono fun _ he => .inl (.inl he)
    obtain ⟨replaced, sibling⟩ := insertion
    cases sibling with
    | some branch =>
        refine .bind (ends_create _) fun id => .bind (.setRoot id) fun _ => ?_
        cases replaced with
        | some old => exact hrelease old
        | none => exact .adjustRecordCount 1
    | none =>
        cases replaced with
        | some old => exact hrelease old
        | none => exact .adjustRecordCount 1

theorem endsAt_insert [Codec] (hp : Legible p d) (hno : ¬ (p.face d).Circular p.header.root)
    (c : Compression) (key value : Bytes) : EndsAt NotStored (insert c key value) p d := by
  obtain ⟨r, q, hexec, hq, herror, hok⟩ := exec_makeValue hp c key value
  cases r with
  | error e => exact .of_bind_error hexec hq (herror e rfl)
  | ok v =>
      obtain ⟨hroot, henters⟩ := hok v rfl
      refine .of_bind_ok hexec (.of_bind_ok (exec_self q d) ?_)
      dsimp only
      split
      · exact Ends.bind (ends_create _) (fun id => .bind (.setRoot id) fun _ =>
          .adjustRecordCount 1) q d hq
      · exact endsAt_insertAt hq (hroot ▸ fun hback => hno (hback.mono henters)) _

theorem endsAt_remove (hp : Legible p d) (hno : ¬ (p.face d).Circular p.header.root)
    (key : Bytes) : EndsAt Unwritten (remove key) p d := by
  refine .of_bind_ok (exec_self p d) ?_
  dsimp only
  split
  · exact Ends.pure false p d hp
  refine .of_bind_ok (exec_depthLimit p d) (.bind ?_ fun removal => ?_)
  · exact (walk_removeFrom key).endsAt (toward_mem key) (fun _ he => .inl (.inl he)) hp
      (shallow_root hno) (by omega)
  · cases removal with
    | none => exact .pure false
    | some removal =>
        refine .bind ((ends_releaseValue _).mono fun _ => .inl) fun _ =>
          .bind (.adjustRecordCount _) fun _ => ?_
        split
        · exact .bind (.setRoot 0) fun _ => .pure true
        · intro q d hq
          refine .of_bind_ok (exec_depthLimit q d) (.bind ?_ fun _ => .pure true)
          exact (endsAt_collapse hq (Nat.lt_succ_self _) _).mono fun _ => .inl

/-- Keys that are too long are refused. -/
theorem exec_checkKey (key : Bytes) (p : Pager) (d : Disk) : ∃ s, (checkKey key).exec p d =
    if keyLimit p.pageSize < key.length then (.error (.limitReached s), p, d)
    else (.ok (), p, d) := by
  refine ⟨s!"key of {key.length} bytes exceeds the {keyLimit p.pageSize} byte limit", ?_⟩
  rw [checkKey, exec_bind, exec_self]
  dsimp only
  split <;> rfl

theorem endsAt_checked {E : Error → Prop} {key : Bytes} {a : Action Pager Unit} (hp : Legible p d)
    (hE : ∀ s, E (.limitReached s)) (h : EndsAt E a p.begun d) :
    EndsAt E (checkKey key >>= fun _ => atomically a) p d := by
  obtain ⟨s, hcheck⟩ := exec_checkKey key p d
  split at hcheck
  · exact .of_bind_error hcheck hp (hE s)
  · exact .of_bind_ok hcheck h.atomically

theorem endsAt_put [Codec] (hp : Legible p d) (hno : ¬ (p.face d).Circular p.header.root)
    (c : Compression) (key value : Bytes) : EndsAt NotStored (put c key value) p d :=
  endsAt_checked hp .limitReached (endsAt_insert hp.begun hno c key value)

theorem endsAt_append [Codec] (hp : Legible p d) (hno : ¬ (p.face d).Circular p.header.root)
    (c : Compression) (key value : Bytes) :
    EndsAt (fun e => NotStored e ∨ (p.face d).Trouble e) (append c key value) p d := by
  refine endsAt_checked hp (fun s => .inl (.limitReached s)) ?_
  have hb := hp.begun
  obtain ⟨r, hget, htrouble⟩ :=
    (allReply_of_shallow (honest_face p d) (shallow_root hno)).get key
  obtain ⟨q, hexec, halike, -⟩ := hget p.begun d hb.displays
  have hq := hb.of_orderly (reading_get key).orderly.undoable hexec
  cases r with
  | error e => exact .of_bind_error hexec hq (.inr (htrouble e rfl))
  | ok old =>
      refine .of_bind_ok hexec ((endsAt_insert hq ?_ c key _).mono fun _ => .inl)
      rw [halike.face d, halike.header]
      exact hno

/-! ### Removals -/

/-- A node that is read from a page as long as those of the file fits such a page. -/
theorem fits_of_node {f : Face} {id : PageId} {n : Node} (heven : f.Even)
    (h : f.node id = .ok n) : n.fits f.pageSize = true := by
  rw [Face.node] at h
  cases hpage : f.pages id with
  | error e =>
      rw [hpage] at h
      cases h
  | ok page =>
      rw [hpage] at h
      have hlen := (Node.eq_of_ofPage h).2.length_le
      rw [Node.length_encode, Page.payload, List.length_drop, heven id page hpage] at hlen
      exact Node.fits_iff.2 hlen

theorem fits_eraseIdx_leaf {pageSize : Nat} {cells : List Cell} (i : Nat)
    (h : (Node.leaf cells).fits pageSize = true) :
    (Node.leaf (cells.eraseIdx i)).fits pageSize = true := by
  have hle : ((cells.eraseIdx i).map Cell.size).sum ≤ (cells.map Cell.size).sum :=
    ((List.eraseIdx_sublist cells i).map Cell.size).sum_le_sum fun _ _ => Nat.zero_le _
  rw [Node.fits_iff, Node.size_leaf] at h ⊢
  omega

/-- An interior node without a child is no longer than with it. -/
theorem fits_dropChild {pageSize : Nat} {first : PageId} {rest : List (Bytes × PageId)} {i : Nat}
    {n : Node} (h : (Node.interior first rest).fits pageSize = true)
    (hdrop : dropChild first rest i = some n) : n.fits pageSize = true := by
  obtain ⟨child, fewer, rfl, hsub⟩ :
      ∃ child fewer, n = .interior child fewer ∧ fewer.Sublist rest := by
    match i, rest, hdrop with
    | i + 1, rest, hdrop =>
        exact ⟨_, _, (Option.some.inj hdrop).symm, List.eraseIdx_sublist rest i⟩
    | 0, branch :: rest, hdrop =>
        exact ⟨_, _, (Option.some.inj hdrop).symm, List.sublist_cons_self branch rest⟩
  have hle : (fewer.map Node.branchSize).sum ≤ (rest.map Node.branchSize).sum :=
    (hsub.map Node.branchSize).sum_le_sum fun _ _ => Nat.zero_le _
  rw [Node.fits_iff, Node.size_interior] at h ⊢
  omega

/-- **Where all pages are as long as those of the file, taking a record away fails no check**,
whether the way down ends or not. -/
theorem endsAt_removeFrom_even (hp : Legible p d) (heven : (p.face d).Even) (key : Bytes)
    (fuel : Nat) (id : PageId) : EndsAt (· ≠ .panicked) (removeFrom key fuel id) p d := by
  have hdenied : ∀ e, Denied e → e ≠ .panicked := fun _ he => he.ne_panicked
  induction fuel generalizing p id with
  | zero => exact ⟨.error .endless, p, rfl, hp, by rintro _ ⟨⟩; nofun⟩
  | succ fuel ih =>
      refine endsAt_load_bind hp (fun e he => hdenied e (.inl he)) fun node q hnode hq halike => ?_
      have hfits : node.fits q.pageSize = true := halike.pageSize ▸ fits_of_node heven hnode
      cases node with
      | leaf cells =>
          dsimp only
          generalize Node.findCell key cells = place
          obtain ⟨i, found⟩ := place
          cases found with
          | false => exact Ends.pure none q d hq
          | true =>
              dsimp only
              cases cells[i]? with
              | none => exact Ends.pure none q d hq
              | some cell =>
                  dsimp only
                  split
                  · exact ((Ends.free id).mono hdenied q d hq).bind fun _ => .pure _
                  · exact ((endsAt_store_of_fits hq (fits_eraseIdx_leaf i hfits) id).mono
                      hdenied).bind fun _ => .pure _
      | interior first rest =>
          obtain ⟨r, q', hexec, hq', herror⟩ :=
            ih hq (halike.face d ▸ heven) (Node.child first rest (Node.childIndex key rest))
          cases r with
          | error e => exact .of_bind_error hexec hq' (herror e rfl)
          | ok removal =>
              refine .of_bind_ok hexec ?_
              obtain ⟨hleft, -⟩ := (orderly_removeFrom key fuel _).leaves.of_exec hexec
              rw [← hleft.pageSize] at hfits
              cases removal with
              | none => exact Ends.pure none q' d hq'
              | some removal =>
                  dsimp only
                  split
                  · exact Ends.pure _ q' d hq'
                  · cases hdrop : dropChild first rest (Node.childIndex key rest) with
                    | none => exact ((Ends.free id).mono hdenied q' d hq').bind fun _ => .pure _
                    | some node =>
                        exact ((endsAt_store_of_fits hq' (fits_dropChild hfits hdrop) id).mono
                          hdenied).bind fun _ => .pure _

theorem endsAt_remove_even (hp : Legible p d) (heven : (p.face d).Even) (key : Bytes) :
    EndsAt (· ≠ .panicked) (remove key) p d := by
  have hdenied : ∀ e, Denied e → e ≠ .panicked := fun _ he => he.ne_panicked
  refine .of_bind_ok (exec_self p d) ?_
  dsimp only
  split
  · exact Ends.pure false p d hp
  refine .of_bind_ok (exec_depthLimit p d)
    ((endsAt_removeFrom_even hp heven key _ _).bind fun removal => ?_)
  cases removal with
  | none => exact .pure false
  | some removal =>
      refine .bind ((ends_releaseValue _).mono hdenied) fun _ =>
        .bind (.adjustRecordCount _) fun _ => ?_
      split
      · exact .bind (.setRoot 0) fun _ => .pure true
      · intro q d hq
        refine .of_bind_ok (exec_depthLimit q d) (.bind ?_ fun _ => .pure true)
        exact (endsAt_collapse hq (Nat.lt_succ_self _) _).mono hdenied

/-- Taking a record away fails a check only where a page is not as long as those of the file. -/
theorem endsAt_delete (hp : Legible p d) (hno : ¬ (p.face d).Circular p.header.root)
    (key : Bytes) :
    EndsAt (fun e => Denied e ∨ e = .panicked ∧ ¬ (p.face d).Even) (delete key) p d := by
  obtain ⟨r, q, hexec, hq, herror⟩ := (endsAt_remove hp.begun hno key).atomically
  refine ⟨r, q, hexec, hq, fun e he => (herror e he).imp_right fun hpanicked => ⟨hpanicked, ?_⟩⟩
  intro heven
  have hend := (endsAt_remove_even hp.begun heven key).atomically
  refine hend.error (e := e) ?_ hpanicked
  rw [show (atomically (remove key)).exec p d = (r, q, d) from hexec, he]

/-! ### Ways that do not end -/

/-- The page with number 0 has no children. -/
theorem way_zero (pick : PageId → List (Bytes × PageId) → PageId) : (p.face d).Way pick 0 [] :=
  .stop fun _ h => (has_of_enters h).1 rfl

theorem root_ne_zero {pick : PageId → List (Bytes × PageId) → PageId}
    (hno : ∀ ids, ¬ (p.face d).Way pick p.header.root ids) : p.header.root ≠ 0 := fun h0 =>
  hno [] (h0 ▸ way_zero pick)

section

variable {key : Bytes} (hp : Legible p d)
  (hno : ∀ ids, ¬ (p.face d).Way (toward key) p.header.root ids)
include hp hno

theorem remove_endless : ((remove key).exec p d).1 = .error .endless := by
  obtain ⟨q, hexec, -⟩ :=
    (walk_removeFrom key).endless hno (p.header.pageCount.toNat + 1) p d hp.displays
  rw [remove, exec_bind, exec_self]
  dsimp only
  rw [if_neg (root_ne_zero hno), exec_bind_ok (exec_depthLimit p d),
    exec_bind_error hexec]

/-- A record that is short enough to stand in a leaf is on its way for ever. -/
theorem insert_endless [Codec] (c : Compression) {value : Bytes}
    (hshort : (Cell.mk key (.inline value)).size ≤ inlineLimit p.pageSize) :
    ((insert c key value).exec p d).1 = .error .endless := by
  have hmake : (makeValue c key value).exec p d = (.ok (.inline value), p, d) := by
    rw [makeValue, exec_bind, exec_self]
    dsimp only
    rw [if_pos hshort]
    rfl
  obtain ⟨q, hexec, -⟩ := (walk_insertFrom ⟨key, .inline value⟩).endless hno
    (p.header.pageCount.toNat + 1) p d hp.displays
  rw [insert, exec_bind_ok hmake, exec_bind, exec_self]
  dsimp only
  rw [if_neg (root_ne_zero hno), insertAt, exec_bind_ok (exec_depthLimit p d),
    exec_bind_error hexec]

end

end

end Tree

end PagedStore
