import PagedStore.Proofs.ChangesEnd
import PagedStore.Proofs.HiddenCache
import PagedStore.Proofs.LoggedFiles
import PagedStore.Proofs.PoisonedEngines
import PagedStore.Proofs.ReadOnlyDatabases

/-!
# Engines that may only be read

An engine that was opened to be read never changes its files: whatever has to write a page fails
(`Pager.GivesUnwritten`), so nothing is ever stored, and at most it is found that there is nothing
to delete. It goes on to answer as it did when it was opened.

One request is an exception. The pages that the log held when the file was opened are laid over it
as dirty pages, and a rollback drops the dirty pages, though they were committed long ago. A reader
whose log held none is not affected.
-/

set_option autoImplicit false

namespace PagedStore

open PagedStore.Action

namespace Pager

/-! ## Programs that may not write -/

section

variable {α β : Type} {P : α → Prop} {Q : β → Prop}

/-- Where the file may only be read, a program changes nothing that can be seen, and gives nothing
but what satisfies `P`. -/
def GivesUnwritten (P : α → Prop) (a : Action Pager α) : Prop :=
  ∀ p d, p.log = none →
    ∃ r q, a.exec p d = (r, q, d) ∧ Unchanged p q ∧ ∀ x, r = .ok x → P x

/-- A program that fails wherever the file may only be read. -/
abbrev Barred (a : Action Pager α) : Prop := GivesUnwritten (fun _ => False) a

theorem exec_ensureWritable_refused {p : Pager} (hlog : p.log = none) (d : Disk) :
    ensureWritable.exec p d = (.error .readOnly, p, d) := by
  rw [exec_ensureWritable_eq, readOnly, hlog]
  rfl

namespace GivesUnwritten

theorem ofResult {r : Except Error α} (h : ∀ x, r = .ok x → P x) :
    GivesUnwritten P (Action.ofResult r) := fun p _ _ => ⟨r, p, rfl, (Alike.refl p).unchanged, h⟩

theorem pure {x : α} (h : P x) : GivesUnwritten P (pure x : Action Pager α) := by
  refine ofResult ?_
  rintro _ ⟨⟩
  exact h

theorem throw (e : Error) : GivesUnwritten P (throw e : Action Pager α) := ofResult nofun

/-- A question may give anything. -/
theorem of_reading {a : Action Pager α} (ha : Reading a) : GivesUnwritten (fun _ => True) a := by
  intro p d _
  obtain ⟨halike, hd⟩ := ha.orderly.leaves p d
  exact ⟨_, _, Prod.ext rfl (Prod.ext rfl hd), halike.unchanged, fun _ _ => trivial⟩

theorem self_bind {k : Pager → Action Pager β} (hk : ∀ p, GivesUnwritten Q (k p)) :
    GivesUnwritten Q (self >>= k) := fun p d hp => hk p p d hp

/-- What comes first cannot make the file one that may be written. -/
theorem bind {a : Action Pager α} {k : α → Action Pager β} (ha : GivesUnwritten P a)
    (hk : ∀ x, P x → GivesUnwritten Q (k x)) : GivesUnwritten Q (a >>= k) := by
  intro p d hp
  obtain ⟨r, q, hexec, hleft, hr⟩ := ha p d hp
  cases r with
  | error e => exact ⟨_, q, exec_bind_error hexec, hleft, nofun⟩
  | ok x =>
      obtain ⟨s, q', hexec', hleft', hs⟩ := hk x (hr x rfl) q d (hleft.log.trans hp)
      exact ⟨s, q', (exec_bind_ok hexec).trans hexec', hleft.trans hleft', hs⟩

/-- What follows may count on nothing. -/
theorem after {a : Action Pager α} {k : α → Action Pager β}
    (ha : GivesUnwritten (fun _ => True) a) (hk : ∀ x, GivesUnwritten Q (k x)) :
    GivesUnwritten Q (a >>= k) := ha.bind fun x _ => hk x

/-- An operation gives what its program gives, and there is nothing to be taken back. -/
theorem atomically {a : Action Pager α} (ha : GivesUnwritten P a) :
    GivesUnwritten P (Tree.atomically a) := by
  intro p d hp
  obtain ⟨r, q, hexec, hleft, hr⟩ := ha p.begun d hp
  have hended : Unchanged p q.ended :=
    ⟨((same_begun p).trans hleft.toSame).trans (same_ended q), hleft.header, hleft.dirty, .inl rfl⟩
  rw [exec_atomically, hexec]
  cases r with
  | ok x => exact ⟨_, _, rfl, hended, hr⟩
  | error e =>
      refine ⟨_, _, rfl, ?_, nofun⟩
      by_cases he : e = .panicked
      · subst he
        exact hended
      · rw [abandoned_of_ne he]
        exact unchanged_takenBack hleft

end GivesUnwritten

namespace Barred

/-- What follows a failure is not reached. -/
theorem bind {a : Action Pager α} (ha : Barred a) (k : α → Action Pager β) :
    GivesUnwritten Q (a >>= k) := GivesUnwritten.bind ha fun _ hx => hx.elim

/-- Where it fails, it fails for good. -/
theorem error {a : Action Pager α} (ha : Barred a) {p : Pager} {d : Disk} (hp : p.log = none) :
    ∃ e q, a.exec p d = (.error e, q, d) ∧ Unchanged p q := by
  obtain ⟨r, q, hexec, hleft, hr⟩ := ha p d hp
  cases r with
  | error e => exact ⟨e, q, hexec, hleft⟩
  | ok x => exact (hr x rfl).elim

theorem ensureWritable : Barred ensureWritable := fun p d hp =>
  ⟨_, p, exec_ensureWritable_refused hp d, (Alike.refl p).unchanged, nofun⟩

theorem write (page : Page) : Barred (write page) := ensureWritable.bind _

theorem allocate : Barred allocate := ensureWritable.bind _

theorem free (id : PageId) : Barred (free id) := ensureWritable.bind _

end Barred

/-- What follows a program that fails wherever the file may only be read is not reached. -/
theorem EndsAt.bind_barred {E : Error → Prop} {a : Action Pager α} {k : α → Action Pager β}
    {p : Pager} {d : Disk} (h : EndsAt E a p d) (ha : Barred a) (hlog : p.log = none) :
    EndsAt E (a >>= k) p d := by
  obtain ⟨r, q, hexec, hq, herror⟩ := h
  obtain ⟨e, q', hrefused, -⟩ := ha.error hlog
  obtain ⟨rfl, rfl, -⟩ := Prod.ext_iff.1 (hexec.symm.trans hrefused)
  exact .of_bind_error hexec hq (herror e rfl)

end

end Pager

/-! ## The tree -/

namespace Tree

open Pager

theorem barred_store (id : PageId) (n : Node) : Barred (store id n) :=
  .self_bind fun _ => .bind (.ofResult fun _ _ => trivial) fun page _ => Barred.write page

theorem barred_create (n : Node) : Barred (create n) := Barred.allocate.bind _

theorem barred_storeDivided (id : PageId) (n : Node) : Barred (storeDivided id n) := by
  refine .self_bind fun p => ?_
  split
  · exact (barred_store id n).bind _
  · exact .after (.ofResult fun _ _ => trivial) fun parts => (barred_create _).bind _

/-- A descent reads its way to a leaf, which it then has to write. -/
theorem barred_insertFrom (cell : Cell) (fuel : Nat) (id : PageId) :
    Barred (insertFrom cell fuel id) := by
  induction fuel generalizing id with
  | zero => exact .throw _
  | succ fuel ih =>
      refine .after (.of_reading (reading_load id)) fun node => ?_
      cases node with
      | leaf cells => exact (barred_storeDivided id _).bind _
      | interior first rest => exact (ih _).bind _

theorem barred_writeChain (value : Bytes) : Barred (Chain.write value) := fun p d hp =>
  ⟨_, p, Chain.exec_write_refused (exec_ensureWritable_refused hp d) value,
    (Alike.refl p).unchanged, nofun⟩

section

variable [Codec]

theorem unwritten_makeValue (c : Compression) (key value : Bytes) :
    GivesUnwritten (fun _ => True) (makeValue c key value) := by
  refine .self_bind fun p => ?_
  split
  · exact .pure trivial
  split
  · exact .throw _
  · exact .after (.ofResult fun _ _ => trivial) fun packed => (barred_writeChain _).bind _

theorem barred_insert (c : Compression) (key value : Bytes) : Barred (insert c key value) := by
  refine .after (unwritten_makeValue c key value) fun stored => .self_bind fun p => ?_
  dsimp only
  split
  · exact (barred_create _).bind _
  · exact .after (.of_reading reading_depthLimit) fun fuel => (barred_insertFrom _ fuel _).bind _

theorem barred_put (c : Compression) (key value : Bytes) : Barred (put c key value) :=
  .after (.of_reading (reading_checkKey key)) fun _ => (barred_insert c key value).atomically

theorem barred_append (c : Compression) (key value : Bytes) : Barred (append c key value) := by
  refine .after (.of_reading (reading_checkKey key)) fun _ => ?_
  have hextend : Barred (get key >>= fun old => insert c key (old.getD [] ++ value)) :=
    .after (.of_reading (reading_get key)) fun _ => barred_insert c key _
  exact hextend.atomically

end

/-- A descent finds that the key is not there, or has to write the leaf where it is. -/
theorem unwritten_removeFrom (key : Bytes) (fuel : Nat) (id : PageId) :
    GivesUnwritten (· = none) (removeFrom key fuel id) := by
  induction fuel generalizing id with
  | zero => exact .throw _
  | succ fuel ih =>
      refine .after (.of_reading (reading_load id)) fun node => ?_
      cases node with
      | leaf cells =>
          dsimp only
          generalize Node.findCell key cells = place
          obtain ⟨i, found⟩ := place
          cases found with
          | false => exact .pure rfl
          | true =>
              dsimp only
              cases cells[i]? with
              | none => exact .pure rfl
              | some cell =>
                  dsimp only
                  split
                  · exact (Barred.free id).bind _
                  · exact (barred_store id _).bind _
      | interior first rest =>
          refine (ih _).bind ?_
          rintro removal rfl
          exact .pure rfl

theorem unwritten_delete (key : Bytes) : GivesUnwritten (· = false) (delete key) := by
  refine GivesUnwritten.atomically (.self_bind fun p => ?_)
  dsimp only
  split
  · exact .pure rfl
  refine .after (.of_reading reading_depthLimit) fun fuel => ?_
  refine (unwritten_removeFrom key fuel _).bind ?_
  rintro removal rfl
  exact .pure rfl

/-! ### Checks of the program's own -/

section

variable {p : Pager} {d : Disk}

/-- A node that could be stored as it is, or in two parts. -/
def Storable (pageSize : Nat) (n : Node) : Prop :=
  n.fits pageSize = true ∨ ∃ parts, divide n = .ok parts

/-- Where the file may only be read nothing but that keeps such a node from being stored. -/
theorem exec_storeDivided_refused (hlog : p.log = none) {n : Node} (hn : Storable p.pageSize n)
    (id : PageId) : (storeDivided id n).exec p d = (.error .readOnly, p, d) := by
  have hno := exec_ensureWritable_refused hlog d
  rw [storeDivided, exec_bind_ok (exec_self p d)]
  split
  · rename_i hfits
    have hstore : (store id n).exec p d = (.error .readOnly, p, d) := by
      rw [store, exec_bind_ok (exec_self p d), Node.toPage_of_fits hfits id,
        exec_bind_ok (exec_ofResult _ p d)]
      exact exec_bind_error hno
    exact exec_bind_error hstore
  · rename_i hbig
    obtain ⟨parts, hparts⟩ := hn.resolve_left hbig
    have hallocate : allocate.exec p d = (.error .readOnly, p, d) := exec_bind_error hno
    rw [hparts, exec_bind_ok (exec_ofResult _ p d)]
    exact exec_bind_error (exec_bind_error hallocate)

/-- A leaf that fitted is still storable with a cell that has room in a leaf of its own. -/
theorem storable_putCell {pageSize : Nat} {cell : Cell} {cells : List Cell}
    (hcell : (Node.leaf [cell]).fits pageSize = true)
    (hcells : (Node.leaf cells).fits pageSize = true) :
    Storable pageSize (.leaf (putCell cell cells).1) := by
  by_cases h2 : 2 ≤ (putCell cell cells).1.length
  · obtain ⟨left, c, right, -, -, -, hdivide⟩ := Node.divide_leaf_eq h2
    exact .inr ⟨_, hdivide⟩
  · refine .inl ?_
    rw [Node.fits_iff, Node.size_leaf] at hcell hcells ⊢
    match hput : (putCell cell cells).1 with
    | [] =>
        rw [List.map_nil, List.sum_nil]
        omega
    | [c] =>
        rcases mem_putCell (hput ▸ List.mem_singleton_self c) with rfl | hmem
        · exact hcell
        · have hle : c.size ≤ (cells.map Cell.size).sum :=
            List.single_le_sum (fun _ _ => Nat.zero_le _) _ (List.mem_map_of_mem hmem)
          rw [List.map_singleton, List.sum_singleton]
          omega
    | _ :: _ :: _ =>
        rw [hput, List.length_cons, List.length_cons] at h2
        omega

theorem endsAt_insertFrom_refused (hp : Legible p d) (hlog : p.log = none)
    (heven : (p.face d).Even) {cell : Cell} (hcell : (Node.leaf [cell]).fits p.pageSize = true)
    (fuel : Nat) (id : PageId) : EndsAt (· ≠ .panicked) (insertFrom cell fuel id) p d := by
  induction fuel generalizing p id with
  | zero => exact ⟨.error .endless, p, rfl, hp, by rintro _ ⟨⟩; nofun⟩
  | succ fuel ih =>
      refine endsAt_load_bind hp (fun e he => (Denied.ne_panicked (.inl he)))
        fun node q hnode hq halike => ?_
      have hlogq : q.log = none := halike.log.trans hlog
      rw [← halike.pageSize] at hcell
      cases node with
      | leaf cells =>
          have hfits : (Node.leaf cells).fits q.pageSize = true :=
            halike.pageSize ▸ fits_of_node heven hnode
          have hstore := exec_storeDivided_refused (d := d) hlogq (storable_putCell hcell hfits) id
          exact .of_bind_error hstore hq nofun
      | interior first rest =>
          have hbelow := ih hq hlogq (halike.face d ▸ heven) hcell
            (Node.child first rest (Node.childIndex cell.key rest))
          exact hbelow.bind_barred (barred_insertFrom cell fuel _) hlogq

variable [Codec]

/-- **Where the file may only be read and all its pages are as long as they should be, storing a
record fails no check.** -/
theorem endsAt_insert_refused (hp : Legible p d) (hlog : p.log = none) (heven : (p.face d).Even)
    (c : Compression) (key value : Bytes) :
    EndsAt (· ≠ .panicked) (insert c key value) p d := by
  have hno := exec_ensureWritable_refused hlog d
  rw [insert, makeValue, bind_assoc]
  refine .of_bind_ok (exec_self p d) ?_
  dsimp only
  split
  · rename_i hshort
    have hcell : (Node.leaf [⟨key, .inline value⟩]).fits p.pageSize = true := by
      rw [inlineLimit, Cell.size, CellValue.size] at hshort
      rw [Node.fits_iff, Node.size_leaf, List.map_singleton, List.sum_singleton, Cell.size,
        CellValue.size, Page.frontLength]
      omega
    rw [pure_bind]
    refine .of_bind_ok (exec_self p d) ?_
    split
    · have hallocate : allocate.exec p d = (.error .readOnly, p, d) := exec_bind_error hno
      exact .of_bind_error (exec_bind_error hallocate) hp (by simp)
    · have hbelow := endsAt_insertFrom_refused hp hlog heven hcell
        (p.header.pageCount.toNat + 1) p.header.root
      exact .of_bind_ok (exec_depthLimit p d) (hbelow.bind_barred (barred_insertFrom _ _ _) hlog)
  split
  · exact .of_bind_error rfl hp (by simp)
  · cases hpack : pack c value with
    | error e =>
        obtain ⟨s, rfl⟩ := of_pack_eq_error hpack
        exact .of_bind_error (exec_bind_error (exec_ofResult _ p d)) hp (by simp)
    | ok packed =>
        have hwrite := Chain.exec_write_refused hno packed.1
        have hmade : (ofResult (.ok packed) >>= fun packed => Chain.write packed.1 >>= fun head =>
            pure (CellValue.chained (UInt32.ofNat value.length) head packed.2)).exec p d =
              (.error .readOnly, p, d) := by
          rw [exec_bind_ok (exec_ofResult _ p d)]
          exact exec_bind_error hwrite
        exact .of_bind_error hmade hp (by simp)

theorem endsAt_put_refused (hp : Legible p d) (hlog : p.log = none) (heven : (p.face d).Even)
    (c : Compression) (key value : Bytes) : EndsAt (· ≠ .panicked) (put c key value) p d :=
  endsAt_checked hp nofun (endsAt_insert_refused hp.begun hlog heven c key value)

theorem endsAt_append_refused (hp : Legible p d) (hlog : p.log = none) (heven : (p.face d).Even)
    (c : Compression) (key value : Bytes) :
    EndsAt (· ≠ .panicked) (append c key value) p d := by
  refine endsAt_checked hp nofun ?_
  obtain ⟨r, hget, herror⟩ := (allReply_strays (honest_face p d)).get key
  obtain ⟨q, hexec, halike, -⟩ := hget p.begun d hp.begun.displays
  have hq := hp.begun.of_orderly (reading_get key).orderly.undoable hexec
  cases r with
  | error e => exact .of_bind_error hexec hq ((herror e rfl).ne_panicked heven)
  | ok old =>
      refine .of_bind_ok hexec (endsAt_insert_refused hq (halike.log.trans hlog) ?_ c key _)
      exact halike.face d ▸ heven

end

end Tree

/-- A reader is closed without a commit. -/
theorem Tree.exec_close_reader {p : Pager} (hlog : p.log = none) (d : Disk) :
    Tree.close.exec p d = (.ok (), p, d) := by
  rw [Tree.close, exec_bind, exec_self]
  dsimp only
  rw [Pager.readOnly, hlog]
  rfl

/-! ## Opening -/

namespace Pager

section

variable {path : String} {o : Options} {d d' : Disk} {p : Pager}

/-- After logged pages have been laid over a pager there is no header that waits for a commit. -/
theorem header_of_overlay {ts : List Log.Transaction} {p q : Pager}
    (hp : p.header = p.committed) (h : overlay ts p = .ok q) : q.header = q.committed := by
  induction ts generalizing p with
  | nil =>
      obtain rfl := Except.ok.inj h
      exact hp
  | cons t ts ih =>
      rw [overlay] at h
      cases hd : Header.decode t.header with
      | error e =>
          rw [hd] at h
          cases h
      | ok header =>
          replace h : Except.bind (Header.decode t.header) _ = _ := h
          rw [hd] at h
          replace h : Except.bind (overlayPages ..) _ = _ := h
          cases hm : overlayPages header.pageSize.toNat t.pages p.dirty with
          | error e =>
              rw [hm] at h
              cases h
          | ok dirty =>
              rw [hm] at h
              exact ih rfl h

/-- A reader between two requests: it has no log to write to, caches only what the file holds, and
has changed no header. -/
structure Reader (p : Pager) (d : Disk) : Prop extends Legible p d where
  log : p.log = none
  idle : p.Idle
  header : p.header = p.committed

/-- **Opening a file to read it changes no file**, whatever the files hold. -/
theorem reader_of_open (ho : o.readOnly = true)
    (h : («open» path o).exec () d = (.ok p, (), d')) : Reader p d' ∧ d.SameFiles d' := by
  obtain ⟨file, d₁, hfile, hlocked⟩ := open_eq_ok h
  obtain ⟨-, hsame⟩ := openFile_reader_eq_ok ho hfile
  obtain ⟨recovery, hd, -, -, hover, rfl⟩ := openLocked_reader_eq_ok ho hlocked
  have hheader := header_of_overlay rfl hover
  obtain ⟨dirty, header, committed, rfl⟩ := overlay_eq_ok hover
  exact ⟨⟨⟨coherent_of_reader rfl rfl d', rfl⟩, rfl, rfl, hheader⟩, hsame⟩

theorem Reader.rolledBack (h : Reader p d) : Reader p.rolledBack d :=
  ⟨⟨h.coherent.rolledBack, h.unpoisoned⟩, h.log, rfl, rfl⟩

/-- Pages of the file itself are as long as they should be. -/
theorem even_rolledBack (p : Pager) (d : Disk) : (p.rolledBack.face d).Even := by
  intro id page hpage
  have hview : p.rolledBack.view d id = .ok page := hpage
  have hdirty : p.rolledBack.dirty[id]? = none := rfl
  rw [view, hdirty] at hview
  split at hview
  · obtain ⟨rfl, hlen, -⟩ := fromFile_eq_ok hview
    exact hlen
  · cases hview

/-- Dropping the dirty pages where there are none changes nothing. -/
theorem Reader.twins_rolledBack (h : Reader p d) (hdirty : p.dirty = ∅) :
    Twins d p p.rolledBack where
  path := rfl
  file := rfl
  log := rfl
  pageSize := rfl
  committed := rfl
  maxPages := rfl
  crashPoint := rfl
  poisoned := rfl
  header := h.header.symm
  dirty := hdirty.symm
  savepoint := h.idle.symm
  left := h.coherent
  right := h.coherent.rolledBack

end

end Pager

/-! ## Requests -/

namespace Engine

open Pager

section

variable {path : String} {o : Options} {p : Pager} {c : Compression} {d d' : Disk} {e f : Engine}

namespace Request

/-- An answer that says nothing of a record that was stored or taken away. -/
def AnsweredUnwritten : Request → Except Error Reply → Prop
  | put .., answer | append .., answer => ∃ error, answer = .error error
  | delete _, answer => (∃ error, answer = .error error) ∨ answer = .ok (.found false)
  | _, _ => True

variable [Codec]

/-- **A change asked of a reader fails, or is a removal that finds nothing**: either way what can be
seen of the reader is as it was. -/
theorem exec_change_reader (hp : p.log = none) {r : Request} (hchange : r.IsChange) :
    ∃ answer q, r.serve.exec (.tree p c) d = (answer, .tree q c, d) ∧ Unchanged p q ∧
      r.AnsweredUnwritten answer := by
  cases r with
  | put key value =>
      obtain ⟨error, q, hexec, hleft⟩ := (Tree.barred_put c key value).error (d := d) hp
      exact ⟨_, q, exec_bind_error (exec_either hexec), hleft, error, rfl⟩
  | append key value =>
      obtain ⟨error, q, hexec, hleft⟩ := (Tree.barred_append c key value).error (d := d) hp
      exact ⟨_, q, exec_bind_error (exec_either hexec), hleft, error, rfl⟩
  | delete key =>
      obtain ⟨result, q, hexec, hleft, hfound⟩ := Tree.unwritten_delete key p d hp
      cases result with
      | error error => exact ⟨_, q, exec_bind_error (exec_either hexec), hleft, .inl ⟨error, rfl⟩⟩
      | ok found =>
          obtain rfl := hfound found rfl
          exact ⟨_, q, exec_bind_ok (exec_either hexec), hleft, .inr rfl⟩
  | _ => exact hchange.elim

theorem answeredUnwritten_of_reader (hp : p.log = none) (r : Request) :
    r.AnsweredUnwritten (r.serve.exec (.tree p c) d).1 := by
  have change : r.IsChange → r.AnsweredUnwritten (r.serve.exec (.tree p c) d).1 := fun hr => by
    obtain ⟨answer, q, hexec, -, hanswer⟩ := exec_change_reader (c := c) (d := d) hp hr
    exact hexec ▸ hanswer
  cases r with
  | put key value => exact change trivial
  | append key value => exact change trivial
  | delete key => exact change trivial
  | _ => trivial

theorem unmoved_of_change_reader (hp : p.log = none) {r : Request} (hchange : r.IsChange)
    {answer : Except Error Reply} (h : r.serve.exec (.tree p c) d = (answer, f, d')) :
    Unmoved (.tree p c) f ∧ d' = d := by
  obtain ⟨_, q, hexec, hleft, -⟩ := exec_change_reader (c := c) (d := d) hp hchange
  cases hexec.symm.trans h
  exact ⟨.tree c hleft, rfl⟩

/-- No request but a rollback changes what can be seen of a reader. -/
theorem unmoved_of_reader (hp : p.log = none) {r : Request} (hr : r ≠ rollback)
    (hresize : r.isResize = false) {answer : Except Error Reply}
    (h : r.serve.exec (.tree p c) d = (answer, f, d')) : Unmoved (.tree p c) f ∧ d' = d := by
  have asks : ∀ {α : Type} {a : Action Engine α} (_ : Leaves Unmoved a) {reply : α → Reply},
      (a >>= fun x => pure (reply x)).exec (.tree p c) d = (answer, f, d') →
        Unmoved (.tree p c) f ∧ d' = d := by
    intro α a ha reply h
    have hout : a.exec (.tree p c) d = ((a.exec (.tree p c) d).1, _, _) := rfl
    rw [exec_bind_pure hout] at h
    cases h
    exact ha _ d
  have stays : ∀ {a : Action Engine Unit} {result : Except Error Unit}
      (_ : a.exec (.tree p c) d = (result, .tree p c, d)),
      (a >>= fun _ => pure .done).exec (.tree p c) d = (answer, f, d') →
        Unmoved (.tree p c) f ∧ d' = d := by
    intro a result ha h
    rw [exec_bind_pure ha] at h
    cases h
    exact ⟨.tree c (Alike.refl p).unchanged, rfl⟩
  cases r with
  | get key => exact asks (question_get key).leaves h
  | size =>
      cases h
      exact ⟨.tree c (Alike.refl p).unchanged, rfl⟩
  | seek key mode => exact asks (question_seek key mode).leaves h
  | first => exact asks question_first.leaves h
  | last => exact asks question_last.leaves h
  | next key => exact asks (question_next key).leaves h
  | prev key => exact asks (question_prev key).leaves h
  | put key value => exact unmoved_of_change_reader (r := .put key value) hp trivial h
  | append key value => exact unmoved_of_change_reader (r := .append key value) hp trivial h
  | delete key => exact unmoved_of_change_reader (r := .delete key) hp trivial h
  | begin =>
      have hbegin : ensureUsable.exec p d = ((ensureUsable.exec p d).1, p, d) := by
        obtain ⟨hsame, hd⟩ := leaves_ensureUsable (R := Eq) p d
        exact Prod.ext rfl (Prod.ext hsame.symm hd)
      exact stays (a := Engine.begin) (exec_either hbegin) h
  | commit =>
      have hcommit : Pager.commit.exec p d = (.error .readOnly, p, d) :=
        exec_bind_error (exec_ensureWritable_refused hp d)
      exact stays (a := Engine.commit) (exec_either hcommit) h
  | rollback => exact absurd rfl hr
  | close =>
      exact stays (a := Engine.close) (exec_query (Tree.exec_close_reader hp d)) h
  | setCacheCapacity pages => cases hresize

/-- **One request other than a rollback leaves a reader as good as it was.** -/
theorem akin_of_reader (h : Reader p d) {r : Request} (hr : r ≠ rollback) :
    ∃ answer f, r.serve.exec (.tree p c) d = (answer, f, d) ∧ Akin d (.tree p c) f := by
  have hakin : Akin d (.tree p c) (.tree p c) := .tree c h.coherent.twins
  match hserve : r.serve.exec (.tree p c) d with
  | (answer, f, d') =>
      have hserved := hakin.served hserve
      cases hresize : r.isResize with
      | true =>
          cases r with
          | setCacheCapacity n =>
              cases hserve
              exact ⟨_, _, rfl, .tree c ⟨alike_resize p n, h.coherent, h.coherent.resize n⟩⟩
          | _ => cases hresize
      | false =>
          obtain ⟨hleft, rfl⟩ := unmoved_of_reader h.log hr hresize hserve
          cases hleft with
          | tree _ hu =>
              cases hserved with
              | tree _ ht => exact ⟨_, _, rfl, .tree c ⟨hu.alike h.idle, h.coherent, ht.left⟩⟩

/-- **Where all pages are as long as they should be no request fails a check** of the program's
own. -/
theorem answer_ne_panicked (hp : Reader p d) (heven : (p.face d).Even) (r : Request) :
    (r.serve.exec (.tree p c) d).1 ≠ .error .panicked := by
  have hall : Tree.AllReply (p.face d) (Tree.Strays (p.face d)) :=
    Tree.allReply_strays (honest_face p d)
  have asks : ∀ {α : Type} {tree : Action Pager α} {memory : Memory → α} {reply : α → Reply},
      Replies (p.face d) (Tree.Strays (p.face d)) tree →
        ((Engine.query tree memory >>= fun x => pure (reply x)).exec (.tree p c) d).1 ≠
          .error .panicked := by
    intro α tree memory reply ha hpanicked
    obtain ⟨q, hexec, -⟩ := exec_tree_of_failed (Prod.ext hpanicked rfl)
    exact (ha.error hp.displays (congrArg Prod.fst hexec)).ne_panicked heven rfl
  have changes : ∀ {α : Type} {tree : Compression → Action Pager α} {memory : Memory → α × Memory}
      {reply : α → Reply}, EndsAt (· ≠ .panicked) (tree c) p d →
        ((Engine.either tree memory >>= fun x => pure (reply x)).exec (.tree p c) d).1 ≠
          .error .panicked := by
    intro α tree memory reply ha hpanicked
    obtain ⟨q, hexec, -⟩ := exec_tree_of_failed (Prod.ext hpanicked rfl)
    exact ha.error (congrArg Prod.fst hexec) rfl
  cases r with
  | get key => exact asks (hall.get key)
  | size => nofun
  | seek key mode => exact asks (hall.seek key mode)
  | first => exact asks hall.first
  | last => exact asks hall.last
  | next key => exact asks (hall.ceil key true)
  | prev key => exact asks (hall.floor key true)
  | put key value => exact changes (Tree.endsAt_put_refused hp.toLegible hp.log heven c key value)
  | append key value =>
      exact changes (Tree.endsAt_append_refused hp.toLegible hp.log heven c key value)
  | delete key => exact changes (Tree.endsAt_remove_even hp.toLegible.begun heven key).atomically
  | begin =>
      have hbegin : Engine.begin.exec (.tree p c) d = (.ok (), .tree p c, d) :=
        exec_either (exec_ensureUsable hp.unpoisoned)
      rw [serve, exec_bind_ok hbegin]
      nofun
  | commit =>
      have hcommit : Engine.commit.exec (.tree p c) d = (.error .readOnly, .tree p c, d) :=
        exec_either (exec_bind_error (exec_ensureWritable_refused hp.log d))
      rw [serve, exec_bind_error hcommit]
      nofun
  | rollback => nofun
  | close =>
      have hclose : Engine.close.exec (.tree p c) d = (.ok (), .tree p c, d) :=
        exec_query (Tree.exec_close_reader hp.log d)
      rw [serve, exec_bind_ok hclose]
      nofun
  | setCacheCapacity pages => nofun

/-- **Whatever a reader is asked for, no file is touched, no record is stored or taken away, and it
is as good as it was at first**, or after a rollback as it would be without its dirty pages. Where
all pages are as long as they should be no check fails. -/
theorem serveAll_reader (hp : Reader p d) (h : Akin d (.tree p c) f) (asked : List Request) :
    (serveAll asked f d).2.2 = d ∧ List.Forall₂ AnsweredUnwritten asked (serveAll asked f d).1 ∧
      ((p.face d).Even → .error .panicked ∉ (serveAll asked f d).1) ∧
      (rollback ∉ asked → Akin d (.tree p c) (serveAll asked f d).2.1) ∧
      (rollback ∈ asked → Akin d (.tree p.rolledBack c) (serveAll asked f d).2.1) := by
  induction asked generalizing p f with
  | nil => exact ⟨rfl, .nil, fun _ => List.not_mem_nil, fun _ => h, fun hr => nomatch hr⟩
  | cons r asked ih =>
      obtain ⟨answer, e', f', d', he, hf, h'⟩ := r.respects_serve d _ f h
      have hanswer : r.AnsweredUnwritten answer := by
        have hread := answeredUnwritten_of_reader (c := c) (d := d) hp.log r
        rwa [he] at hread
      have hchecked : (p.face d).Even → .error .panicked ≠ answer := fun heven => by
        have hne := answer_ne_panicked (c := c) hp heven r
        rw [he] at hne
        exact hne.symm
      simp only [serveAll, hf]
      by_cases hr : r = rollback
      · subst hr
        -- From here on the view is that without dirty pages, and a second rollback keeps it.
        cases he
        obtain ⟨hdisk, hanswers, hchecks, hsame, hback⟩ := ih hp.rolledBack h'
        refine ⟨hdisk, .cons hanswer hanswers, fun heven => ?_,
          fun hnot => absurd List.mem_cons_self hnot, fun _ => ?_⟩
        · exact List.not_mem_cons_of_ne_of_not_mem (hchecked heven)
            (hchecks (even_rolledBack p d))
        by_cases hmore : rollback ∈ asked
        · exact (Akin.tree c (hp.rolledBack.twins_rolledBack rfl)).trans (hback hmore)
        · exact hsame hmore
      · obtain ⟨_, _, he', hakin⟩ := akin_of_reader (c := c) hp hr
        rw [he] at he'
        cases he'
        obtain ⟨hdisk, hanswers, hchecks, hsame, hback⟩ := ih hp (hakin.trans h')
        refine ⟨hdisk, .cons hanswer hanswers, fun heven => ?_, fun hnot => ?_, fun hmem => ?_⟩
        · exact List.not_mem_cons_of_ne_of_not_mem (hchecked heven) (hchecks heven)
        · exact hsame fun hmore => hnot (List.mem_cons_of_mem _ hmore)
        · exact hback ((List.mem_cons.1 hmem).resolve_left fun heq => hr heq.symm)

end Request

/-! ## The main result -/

/-- The pages that lie over the file of an engine. -/
def overlay : Engine → PageMap
  | tree p _ => p.dirty
  | memory _ => ∅

/-- All pages that an engine can read are as long as those of its file. -/
def Even (d : Disk) : Engine → Prop
  | tree p _ => (p.face d).Even
  | memory _ => True

/-- **An engine that may only be read keeps its view until it is rolled back.** Whatever the files
hold and whatever it is asked for, the files keep their bytes from before it was opened; to put and
to append fails, and to delete fails or finds nothing. No check of the program's own fails, unless
the log holds pages that are not as long as those of the file. Unless there has been a rollback the
engine answers everything as it did right after it was opened. After one it answers as if the pages
that the log held had been missing then, which makes no difference if it held none. -/
theorem reader_keeps_view [Codec] (ho : o.readOnly = true)
    (h : (Engine.open path o).exec () d = (.ok e, (), d')) (asked : List Request) :
    d.SameFiles d' ∧ Request.diskAfter asked e d' = d' ∧
      List.Forall₂ Request.AnsweredUnwritten asked (Request.serveAll asked e d').1 ∧
      (e.Even d' → .error .panicked ∉ (Request.serveAll asked e d').1) ∧
      (.rollback ∉ asked ∨ e.overlay = ∅ → ∀ more,
        (Request.serveAll more (Request.engineAfter asked e d') d').1 =
          (Request.serveAll more e d').1) ∧
      (.rollback ∈ asked → ∀ more,
        (Request.serveAll more (Request.engineAfter asked e d') d').1 =
          (Request.serveAll more e.rolledBack d').1) := by
  obtain ⟨p, ⟨⟩, d₁, hopen, hend⟩ := of_exec_bind_ok h
  obtain ⟨rfl, -, rfl⟩ := exec_ok_inj hend
  obtain ⟨hreader, hfiles⟩ := reader_of_open ho hopen
  have hakin : Akin d₁ (.tree p o.compression) (.tree p o.compression) :=
    .tree _ hreader.coherent.twins
  obtain ⟨hdisk, hanswers, hchecks, hsame, hback⟩ := Request.serveAll_reader hreader hakin asked
  refine ⟨hfiles, hdisk, hanswers, hchecks, fun hview more => ?_, fun hmem more => ?_⟩
  · have hnow : Akin d₁ (.tree p o.compression)
        (Request.engineAfter asked (.tree p o.compression) d₁) := by
      by_cases hmem : Request.rollback ∈ asked
      · have hdirty : p.dirty = ∅ := hview.resolve_left fun hnot => hnot hmem
        exact (Akin.tree _ (hreader.twins_rolledBack hdirty)).trans (hback hmem)
      · exact hsame hmem
    exact (Request.serveAll_akin hnow more).1.symm
  · exact (Request.serveAll_akin (hback hmem) more).1.symm

end

end Engine

/-! ## A record that stands in the log -/

namespace Pager

/-- The leaf of a first record. -/
def firstLeaf : Page := .make 1 512 .leaf (Tree.Node.leaf [⟨[1], .inline [2]⟩]).encode

/-- The pager on the empty file after a first record has been put. -/
def withFirstRecord : Pager :=
  { onEmptyFile with
    header := { onEmptyFile.header with
      pageCount := 2, root := 1, recordCount := addSaturating 0 1 }
    dirty := (∅ : PageMap).insert 1 firstLeaf.sealed }

theorem reached_withFirstRecord : ∃ d, Reached withFirstRecord d := by
  obtain ⟨d, hopen⟩ := closed_emptyFiles.exec_open_empty (o := { pageSize := 512 }) rfl rfl rfl rfl
  have hstart : Reached onEmptyFile d :=
    .opened namesLive_emptyFiles namesApart_emptyFiles rfl (by decide) hopen
  have hpage : firstLeaf.image.length = 512 := Page.length_make (by decide) ..
  exact ⟨d, (((hstart.served .allocate trivial).served (.write _) hpage).served (.setRoot 1)
    trivial).served (.adjustRecordCount 1) trivial⟩

/-- A reader of the files that are left when the commit of the first record is stopped behind the
log. It shows the record, as long as it has the pages of the log. -/
def reader : Pager := withFirstRecord.overlaid readingOptions (Header.fresh 512)

end Pager

namespace Engine

open Pager

/-- The reader as an engine. -/
theorem exec_open_reader : ∃ d, (Engine.open "a" readingOptions).exec ()
    (loggedFiles 512 withFirstRecord) = (.ok (.tree reader .off), (), d) ∧
      d.readAll 0 = (Header.fresh 512).encode := by
  obtain ⟨d₀, hreached⟩ := reached_withFirstRecord
  have hcheck : withFirstRecord.nextHeader.check = .ok withFirstRecord.nextHeader :=
    Header.check_eq_ok.2 ⟨rfl, by decide, by decide, by decide, by decide, by decide⟩
  have hsize : 512 ∈ pageSizes := by decide
  obtain ⟨d, hopen, hmain⟩ :=
    exec_open_loggedFiles hsize (hreached.ready rfl).tidy hcheck rfl rfl
  refine ⟨d, ?_, hmain⟩
  rw [Engine.open, exec_bind_ok hopen]
  rfl

set_option maxRecDepth 4000 in
theorem get_reader [Codec] (d : Disk) : (Request.get [1]).serve.exec (.tree reader .off) d =
    (.ok (.value (some [2])), .tree reader .off, d) := by
  with_unfolding_all rfl

theorem reader_keeps_view_logged_record :
    ∃ d e d', (Engine.open "a" readingOptions).exec () d =
        (.ok e, (), d') ∧ d.SameFiles d' ∧
      (Request.serveAll [.get [1]] (Request.engineAfter [.put [3] [4], .commit, .close] e d')
        d').1 = [.ok (.value (some [2]))] := by
  obtain ⟨d', hopen, -⟩ := exec_open_reader
  obtain ⟨hfiles, -, -, -, hview, -⟩ := reader_keeps_view rfl hopen [.put [3] [4], .commit, .close]
  have hasked : Request.rollback ∉ [.put [3] [4], .commit, .close] := by
    simp
  refine ⟨loggedFiles 512 withFirstRecord, _, d', hopen, hfiles, ?_⟩
  rw [hview (.inl hasked)]
  simp only [Request.serveAll, get_reader]

/-- What is said about a page that the main file does not have yet. -/
def beyondEnd : Error := .corrupt "page 1 lies beyond the end of the file"

/-- Without the pages of the log the page of the record is looked for in a file that ends before
it. -/
theorem get_rolledBack [Codec] {d : Disk} (hmain : d.readAll 0 = (Header.fresh 512).encode) :
    ((Request.get [1]).serve.exec (.tree reader.rolledBack .off) d).1 = .error beyondEnd := by
  have hlen : (Header.fresh 512).encode.length ≤ offset 512 1 :=
    (Header.length_encode _).le.trans (by decide)
  have himage : fileImage 0 512 d 1 = [] := by
    rw [fileImage, hmain, Bytes.slice, List.drop_eq_nil_of_le hlen, List.take_nil]
  have hfile : fromFile 0 512 d 1 = .error beyondEnd := by
    rw [fromFile, himage]
    rfl
  have hview : reader.rolledBack.view d 1 = .error beyondEnd := by
    have hrange : reader.rolledBack.inRange 1 = true := rfl
    have hdirty : reader.rolledBack.dirty[(1 : PageId)]? = none := rfl
    rw [view, if_pos hrange, hdirty]
    exact hfile
  obtain ⟨q, hread, -, -⟩ := (Mirrors.of_empty (p := reader.rolledBack) rfl d).exec_read rfl 1
  rw [hview] at hread
  -- The failure comes up all the way from the page to the request.
  have hload : (Tree.load 1).exec reader.rolledBack d = (.error beyondEnd, q, d) :=
    exec_bind_error hread
  have hlookup : ∀ fuel, (Tree.lookupFrom [1] (fuel + 1) 1).exec reader.rolledBack d =
      (.error beyondEnd, q, d) := fun fuel => exec_bind_error hload
  have hroot : reader.rolledBack.header.root = 1 := rfl
  have hlimit : Tree.depthLimit.exec reader.rolledBack d =
      (.ok (reader.rolledBack.header.pageCount.toNat + 1), reader.rolledBack, d) := rfl
  have hfound : (Tree.fromRoot (Tree.lookupFrom [1])).exec reader.rolledBack d =
      (.error beyondEnd, q, d) := by
    rw [Tree.fromRoot, exec_bind, exec_self]
    dsimp only
    rw [hroot, if_neg (by decide)]
    rw [exec_bind_ok hlimit, exec_bind_error (hlookup _)]
  have hget : (Tree.get [1]).exec reader.rolledBack d = (.error beyondEnd, q, d) :=
    exec_bind_error hfound
  have hengine : (Engine.get [1]).exec (.tree reader.rolledBack .off) d =
      (.error beyondEnd, .tree q .off, d) := exec_query hget
  rw [Request.serve, exec_bind_error hengine]

/-- **A rollback takes from a reader what the log held.** -/
theorem reader_loses_view :
    ∃ d e d', (Engine.open "a" readingOptions).exec () d =
        (.ok e, (), d') ∧
      (Request.serveAll [.get [1], .rollback, .get [1]] e d').1 =
        [.ok (.value (some [2])), .ok .done, .error beyondEnd] := by
  obtain ⟨d', hopen, hmain⟩ := exec_open_reader
  have hrollback : Request.rollback.serve.exec (.tree reader .off) d' =
      (.ok .done, .tree reader.rolledBack .off, d') := rfl
  refine ⟨loggedFiles 512 withFirstRecord, .tree reader .off, d', hopen, ?_⟩
  simp only [Request.serveAll, get_reader, hrollback, get_rolledBack hmain]

end Engine

end PagedStore
