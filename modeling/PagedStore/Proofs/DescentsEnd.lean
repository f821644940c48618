import PagedStore.Compression.Block
import PagedStore.Proofs.ChangesEnd

/-!
# Whether the ways down a tree end

The walks along chains count their hops and give up a chain that is longer than the file. The ways
down the tree do not: in a file in which a page is its own descendant, a search that comes to such
a page goes on for ever (`descents_never_end`).

So whether a question comes to an end is a matter of the file. A single descent does exactly if its
way down ends, and then it has met fewer interior nodes than the file has pages. Where no page below
the root leads back to itself, every question and every change comes to an end (`descents_end`).
-/

set_option autoImplicit false

namespace PagedStore.Tree

open PagedStore.Action Pager

/-! ## Outcomes that do not depend on the limit -/

/-- With every limit above the number of pages a search has the same outcome, and it is not given
up. -/
def Unlimited {α : Type} (p : Pager) (d : Disk) (search : (fuel : Nat) → Action Pager α) : Prop :=
  ∃ out : Except Error α × Pager × Disk, out.1 ≠ .error .endless ∧
    ∀ fuel, p.header.pageCount.toNat < fuel → (search fuel).exec p d = out

/-- Whether a question that goes down a single way from the root comes to an end. -/
structure GoesDown {α : Type} (p : Pager) (d : Disk)
    (pick : PageId → List (Bytes × PageId) → PageId)
    (search : (fuel : Nat) → PageId → Action Pager (Option Cell)) (a : Action Pager α) :
    Prop where
  /-- If the way ends it meets no page twice, and the question is answered, if only by the fault of
  the pages. -/
  ends : ∀ ids, (p.face d).Way pick p.header.root ids → ids.Nodup ∧
    ids.length ≤ p.header.pageCount.toNat - 1 ∧
    (∀ e, (a.exec p d).1 = .error e → (p.face d).Trouble e) ∧
    Unlimited p d fun fuel => search fuel p.header.root
  /-- Otherwise the search goes on beyond every limit. -/
  endless : (∀ ids, ¬ (p.face d).Way pick p.header.root ids) →
    (a.exec p d).1 = .error .endless ∧
      ∀ fuel, ((search fuel p.header.root).exec p d).1 = .error .endless

section

variable {α : Type} {p : Pager} {d : Disk}

theorem Unlimited.of_outlasts {search : Nat → Action Pager α}
    (hout : ∀ {fuel fuel'}, fuel ≤ fuel' → Outlasts (search fuel') (search fuel))
    (hne : ((search (p.header.pageCount.toNat + 1)).exec p d).1 ≠ .error .endless) :
    Unlimited p d search :=
  ⟨_, hne, fun _ hfuel => hout hfuel p d hne⟩

section

variable {pick : PageId → List (Bytes × PageId) → PageId}
  {search : Nat → PageId → Action Pager (Option Cell)} (hp : Legible p d)

theorem Descent.replies_of_way (h : Descent pick search) {ids : List PageId}
    (hway : (p.face d).Way pick p.header.root ids) :
    Replies (p.face d) IsCorrupt (search (p.header.pageCount.toNat + 1) p.header.root) := by
  have hlen : ids.length ≤ p.header.pageCount.toNat - 1 :=
    hway.length_le fun _ _ => has_of_enters
  exact h.replies (honest_face p d) hway (by omega)

include hp

theorem Descent.unlimited (h : Descent pick search) {ids : List PageId}
    (hway : (p.face d).Way pick p.header.root ids) :
    Unlimited p d fun fuel => search fuel p.header.root :=
  .of_outlasts (fun hle => h.outlasts hle _) fun he =>
    ((h.replies_of_way hway).error hp.displays he).ne_endless rfl

variable [Codec]

/-- A question that depends on what a descent finds comes to an end as the descent does. -/
theorem Descent.goesDown (h : Descent pick search) {a : Action Pager α}
    (hends : ∀ f, Replies f f.Trouble (fromRoot search) → Replies f f.Trouble a)
    (hendless : ∀ f, Answers f (fromRoot search) (.error .endless) →
      Answers f a (.error .endless)) : GoesDown p d pick search a where
  ends ids hway := by
    have hreplies : Replies (p.face d) (p.face d).Trouble (fromRoot search) :=
      replies_fromRoot (honest_face p d) (fun _ he => he) fun _ =>
        (h.replies_of_way hway).mono fun _ => .of_corrupt
    exact ⟨hway.nodup, hway.length_le fun _ _ => has_of_enters,
      fun e => (hends _ hreplies).error hp.displays, h.unlimited hp hway⟩
  endless hno :=
    ⟨(hendless _ (endless_fromRoot (root_ne_zero hno) (h.endless hno _))).eq hp.displays,
      fun fuel => (h.endless hno fuel).eq hp.displays⟩

theorem goesDown_get (key : Bytes) : GoesDown p d (toward key) (lookupFrom key) (get key) :=
  (descent_lookupFrom key).goesDown hp (fun _ h => .bind h fun _ => .pure _)
    fun _ h => .bind_error h

theorem goesDown_first : GoesDown p d leftmost firstFrom first :=
  descent_firstFrom.goesDown hp (fun _ h => h) fun _ h => h

theorem goesDown_last : GoesDown p d rightmost lastFrom last :=
  descent_lastFrom.goesDown hp (fun _ h => h) fun _ h => h

end

/-! ## Trees with a page that is its own descendant -/

section

variable {key : Bytes} (hp : Legible p d)
  (hno : ∀ ids, ¬ (p.face d).Way (toward key) p.header.root ids)
include hno

variable [Codec]

theorem neighbour_endless {edge : Nat → PageId → Action Pager (Option Cell)}
    {around : Nat → Nat → PageId → Action Pager (Option Cell)} (h : Beside key edge around) :
    Answers (p.face d) (fromRoot fun limit => around limit limit) (.error .endless) :=
  endless_fromRoot (root_ne_zero hno) (h.endless hno _ _)

include hp

theorem next_endless : ((next key).exec p d).1 = .error .endless :=
  (neighbour_endless hno (beside_ceilFrom key true)).eq hp.displays

theorem prev_endless : ((prev key).exec p d).1 = .error .endless :=
  (neighbour_endless hno (beside_floorFrom key true)).eq hp.displays

theorem seek_endless (mode : SeekMode) : ((seek key mode).exec p d).1 = .error .endless := by
  cases mode with
  | exact =>
      have hget : Answers (p.face d) (get key) (.error .endless) := .bind_error
        (endless_fromRoot (root_ne_zero hno) ((descent_lookupFrom key).endless hno _))
      have hseek : Answers (p.face d) (seek key .exact) (.error .endless) := .bind_error hget
      exact hseek.eq hp.displays
  | atMost => exact (neighbour_endless hno (beside_floorFrom key false)).eq hp.displays
  | atLeast => exact (neighbour_endless hno (beside_ceilFrom key false)).eq hp.displays

omit [Codec] in
theorem delete_endless : ((delete key).exec p d).1 = .error .endless :=
  (exec_atomically_eq _ p d).trans (remove_endless hp.begun hno)

theorem put_endless (c : Compression) {value : Bytes} (hkey : key.length ≤ keyLimit p.pageSize)
    (hshort : (Cell.mk key (.inline value)).size ≤ inlineLimit p.pageSize) :
    ((put c key value).exec p d).1 = .error .endless := by
  obtain ⟨s, hcheck⟩ := exec_checkKey key p d
  rw [if_neg (Nat.not_lt.2 hkey)] at hcheck
  rw [put, exec_bind_ok hcheck, exec_atomically_eq]
  exact insert_endless hp.begun hno c hshort

end

/-! ## Files of any pages -/

/-- Every question and every change comes to an end, and no greater limit on the steps of a way down
makes a difference. A question fails by the fault of the pages only, which may be that the hops
along the chain of a value cannot be counted; a removal fails a check of the program's own only
where a page is not as long as those of the file. -/
structure AllEnd [Codec] (p : Pager) (d : Disk) : Prop where
  first : ∀ e, (first.exec p d).1 = .error e → (p.face d).Trouble e
  last : ∀ e, (last.exec p d).1 = .error e → (p.face d).Trouble e
  get : ∀ key e, ((get key).exec p d).1 = .error e → (p.face d).Trouble e
  seek : ∀ key mode e, ((seek key mode).exec p d).1 = .error e → (p.face d).Trouble e
  next : ∀ key e, ((next key).exec p d).1 = .error e → (p.face d).Trouble e
  prev : ∀ key e, ((prev key).exec p d).1 = .error e → (p.face d).Trouble e
  put : ∀ c key value e, ((put c key value).exec p d).1 = .error e → NotStored e
  append : ∀ c key value e, ((append c key value).exec p d).1 = .error e →
    NotStored e ∨ (p.face d).Trouble e
  delete : ∀ key e, ((delete key).exec p d).1 = .error e →
    Denied e ∨ e = .panicked ∧ ¬ (p.face d).Even
  ceil : ∀ key strict, Unlimited p d fun limit => ceilAt key strict limit p.header.root
  floor : ∀ key strict, Unlimited p d fun limit => floorAt key strict limit p.header.root
  insert : ∀ cell, Unlimited p d fun fuel => insertFrom cell fuel p.header.root
  remove : ∀ key, Unlimited p d fun fuel => removeFrom key fuel p.header.root

theorem unlimited_of_endsAt {E : Error → Prop} {search : Nat → Action Pager α}
    (hout : ∀ {fuel fuel'}, fuel ≤ fuel' → Outlasts (search fuel') (search fuel))
    (hE : ∀ e, E e → e ≠ .endless) (h : EndsAt E (search (p.header.pageCount.toNat + 1)) p d) :
    Unlimited p d search :=
  .of_outlasts hout fun he => hE _ (h.error he) rfl

theorem unlimited_collapse (hp : Legible p d) (root : PageId) :
    Unlimited p d fun fuel => collapse fuel root :=
  unlimited_of_endsAt (fun hle => outlasts_collapse hle root) (fun _ he => he.ne_endless)
    (endsAt_collapse hp (Nat.lt_succ_self _) root)

theorem Walk.unlimited {pick : PageId → List (Bytes × PageId) → PageId} {E : Error → Prop}
    {search : Nat → PageId → Action Pager α} (h : Walk pick E search)
    (hpick : ∀ first rest, pick first rest ∈ Node.children first rest)
    (hE : ∀ e, IsCorrupt e → E e) (hE' : ∀ e, E e → e ≠ .endless) (hp : Legible p d) {root : PageId}
    (hs : (p.face d).Shallow (p.header.pageCount.toNat - 1) root) :
    Unlimited p d fun fuel => search fuel root :=
  unlimited_of_endsAt (fun hle => h.outlasts hle root) hE' (h.endsAt hpick hE hp hs (by omega))

theorem Beside.unlimited {key : Bytes} {edge : Nat → PageId → Action Pager (Option Cell)}
    {around : Nat → Nat → PageId → Action Pager (Option Cell)}
    {pick : PageId → List (Bytes × PageId) → PageId} (h : Beside key edge around)
    (hedge : Descent pick edge) (hpick : ∀ first rest, pick first rest ∈ Node.children first rest)
    (hp : Legible p d) {root : PageId}
    (hs : (p.face d).Shallow (p.header.pageCount.toNat - 1) root) :
    Unlimited p d fun limit => around limit limit root :=
  .of_outlasts (fun hle => h.outlasts hedge hle hle root) fun he =>
    ((h.replies hedge hpick (honest_face p d) hs (by omega) (by omega)).error hp.displays
      he).ne_endless rfl

theorem allEnd [Codec] (hp : Legible p d) (hno : ¬ (p.face d).Circular p.header.root) :
    AllEnd p d := by
  have hs := shallow_root hno
  have hshown := hp.displays
  have hall : AllReply (p.face d) (p.face d).Trouble := allReply_of_shallow (honest_face p d) hs
  exact
    { first := fun e => hall.first.error hshown
      last := fun e => hall.last.error hshown
      get := fun key e => (hall.get key).error hshown
      seek := fun key mode e => (hall.seek key mode).error hshown
      next := fun key e => (hall.ceil key true).error hshown
      prev := fun key e => (hall.floor key true).error hshown
      put := fun c key value e => (endsAt_put hp hno c key value).error
      append := fun c key value e => (endsAt_append hp hno c key value).error
      delete := fun key e => (endsAt_delete hp hno key).error
      ceil := fun key strict =>
        (beside_ceilFrom key strict).unlimited descent_firstFrom leftmost_mem hp hs
      floor := fun key strict =>
        (beside_floorFrom key strict).unlimited descent_lastFrom rightmost_mem hp hs
      insert := fun cell => (walk_insertFrom cell).unlimited (toward_mem cell.key)
        (fun _ => .of_corrupt) (fun _ he => he.ne_endless) hp hs
      remove := fun key => (walk_removeFrom key).unlimited (toward_mem key)
        (fun _ he => .inl (.inl he)) (fun _ he => he.ne_endless) hp hs }

/-- **Whether the ways down a tree end**, be the pages as they may. A question that goes down a
single way is answered if and only if that way ends; it has then met no page twice, and fewer
interior nodes than there are pages. Where the way to a key does not end, neither does a question
for a neighbour of it, or its removal, or the storing of a short record. Where no page below the
root leads back to itself, everything comes to an end, save perhaps the reading of a value along a
chain whose hops cannot be counted. And letting single children take the place of the root always
does. -/
theorem descents_end [Codec] (hc : Coherent p d) (hu : p.poisoned = none) :
    (∀ key, GoesDown p d (toward key) (lookupFrom key) (get key)) ∧
    GoesDown p d leftmost firstFrom first ∧ GoesDown p d rightmost lastFrom last ∧
    (∀ key, (∀ ids, ¬ (p.face d).Way (toward key) p.header.root ids) →
      ((next key).exec p d).1 = .error .endless ∧ ((prev key).exec p d).1 = .error .endless ∧
      (∀ mode, ((seek key mode).exec p d).1 = .error .endless) ∧
      ((delete key).exec p d).1 = .error .endless ∧
      ∀ c value, key.length ≤ keyLimit p.pageSize →
        (Cell.mk key (.inline value)).size ≤ inlineLimit p.pageSize →
          ((put c key value).exec p d).1 = .error .endless) ∧
    (¬ (p.face d).Circular p.header.root → AllEnd p d) ∧
    ∀ root, Unlimited p d fun fuel => collapse fuel root := by
  have hp : Legible p d := ⟨hc, hu⟩
  refine ⟨goesDown_get hp, goesDown_first hp, goesDown_last hp, fun key hno => ?_, allEnd hp,
    unlimited_collapse hp⟩
  exact ⟨next_endless hp hno, prev_endless hp hno, seek_endless hp hno, delete_endless hp hno,
    fun c value => put_endless hp hno c⟩

end

/-! ## A node that is its own child -/

/-- The pager on a file with a single page besides the header page, the root of the tree. -/
def rooted (node : Node) : Pager :=
  { withPage node.kind node.encode with
    header := { (withPage node.kind node.encode).header with root := 1 } }

theorem exists_rooted (node : Node) (hfits : node.fits 512 = true) : ∃ d, Reached (rooted node) d ∧
    Legible (rooted node) d ∧ ((rooted node).face d).node 1 = .ok node := by
  obtain ⟨d, hd⟩ := reached_onEmptyFile
  have hreached : Reached (rooted node) d :=
    (hd.withPage node.kind node.encode).served (.setRoot 1) trivial
  have hready := hreached.ready rfl
  have hdirty : (rooted node).dirty[(1 : PageId)]? = some (node.page 1 512) :=
    Std.ExtTreeMap.getElem?_insert_self
  have hpage : (rooted node).view d 1 = .ok (node.page 1 512) := by
    rw [view, if_pos (inRange_iff.2 ⟨by decide, show (1 : UInt32) < 2 by decide⟩), hdirty]
  exact ⟨d, hreached, ⟨hready.coherent, rfl⟩, node_of_page hready.sane hpage hfits⟩

theorem descents_end_leaf : ∃ p d, Coherent p d ∧ p.poisoned = none ∧
    (p.face d).node p.header.root = .ok (.leaf [⟨[1], .inline [2]⟩]) ∧ AllEnd p d := by
  obtain ⟨d, -, hp, hnode⟩ := exists_rooted (.leaf [⟨[1], .inline [2]⟩]) (by decide)
  obtain ⟨-, -, -, -, hall, -⟩ := descents_end hp.coherent hp.unpoisoned
  exact ⟨_, d, hp.coherent, hp.unpoisoned, hnode,
    hall (Face.not_circular_of_bottom (bottom_of_leaf hnode))⟩

/-- **In a file whose root is its own child nothing comes to an end**, although its pages are whole
and can be read: no number of steps is enough for a way down. -/
theorem descents_never_end : ∃ p d, Reached p d ∧ Coherent p d ∧ p.poisoned = none ∧
    p.header.pageCount = 2 ∧ p.header.root = 1 ∧ (p.face d).node 1 = .ok (.interior 1 []) ∧
    (∀ fuel, ((firstFrom fuel 1).exec p d).1 = .error .endless ∧
      ((lastFrom fuel 1).exec p d).1 = .error .endless ∧
      ∀ key, ((lookupFrom key fuel 1).exec p d).1 = .error .endless) ∧
    (first.exec p d).1 = .error .endless ∧ (last.exec p d).1 = .error .endless ∧
    (∀ key, ((get key).exec p d).1 = .error .endless ∧
      ((next key).exec p d).1 = .error .endless ∧ ((prev key).exec p d).1 = .error .endless ∧
      (∀ mode, ((seek key mode).exec p d).1 = .error .endless) ∧
      ((delete key).exec p d).1 = .error .endless) ∧
    ((put .off [1] [2]).exec p d).1 = .error .endless := by
  obtain ⟨d, hreached, hp, hnode⟩ := exists_rooted (.interior 1 []) (by decide)
  have hno : ∀ pick : PageId → List (Bytes × PageId) → PageId, pick 1 [] ∈ Node.children 1 [] →
      ∀ ids, ¬ ((rooted (.interior 1 [])).face d).Way pick 1 ids :=
    fun pick hpick ids => Face.not_way_of_circle hnode (List.mem_singleton.1 hpick)
  have htoward := fun key => hno (toward key) (toward_mem key 1 [])
  have hfirst := (goesDown_first hp).endless (hno leftmost (leftmost_mem 1 []))
  have hlast := (goesDown_last hp).endless (hno rightmost (rightmost_mem 1 []))
  have hget := fun key => (goesDown_get hp key).endless (htoward key)
  exact ⟨_, d, hreached, hp.coherent, hp.unpoisoned, rfl, rfl, hnode,
    fun fuel => ⟨hfirst.2 fuel, hlast.2 fuel, fun key => (hget key).2 fuel⟩, hfirst.1, hlast.1,
    fun key => ⟨(hget key).1, next_endless hp (htoward key), prev_endless hp (htoward key),
      seek_endless hp (htoward key), delete_endless hp (htoward key)⟩,
    put_endless hp (htoward [1]) .off (by decide) (by decide)⟩

end PagedStore.Tree
