import PagedStore.Proofs.OrderlyTree
import PagedStore.Proofs.TreeChanges

/-!
# Insertion without a failed check

Dividing a node counts on its being long enough, and storing a node on its fitting the page; where
that is not so the program stops. So it does not where a node fits, or is divided into parts that do
(`calm_storeDivided`): the programs on single pages have no checks of their own.
-/

set_option autoImplicit false

namespace PagedStore

open PagedStore.Action

namespace Pager

/-! ## Single pages -/

/-- Of any pager nothing is asked. -/
def Any (_ : Pager) : Prop := True

namespace Calm

theorem of_any {α : Type} {P : Pager → Prop} {a : Action Pager α} (ha : Calm Any a) : Calm P a :=
  fun p d _ => ha p d trivial

theorem bind_any {α β : Type} {a : Action Pager α} {k : α → Action Pager β} (ha : Calm Any a)
    (hk : ∀ x, Calm Any (k x)) : Calm Any (a >>= k) := ha.bind (fun _ _ _ => trivial) hk

theorem update (f : Pager → Pager) : Calm Any (Action.update f) := fun _ _ _ => nofun

theorem ensureUsable : Calm Any ensureUsable := by
  intro p d _
  cases hu : p.poisoned with
  | none =>
      rw [exec_ensureUsable hu]
      nofun
  | some reason =>
      rw [exec_ensureUsable_stopped hu]
      nofun

theorem ensureWritable : Calm Any ensureWritable := by
  intro p d _
  rw [exec_ensureWritable_eq]
  split
  · nofun
  · exact ensureUsable p d trivial

theorem load (id : PageId) : Calm Any (load id) := by
  intro p d _
  simp only [Pager.load, exec_bind, exec_self, exec_disk]
  split
  · intro h
    cases h
  · split <;> intro h <;> cases h

theorem read (id : PageId) : Calm Any (read id) := by
  refine .bind_any ensureUsable fun _ => .self_bind fun p _ => ?_
  cases p.inRange id with
  | false => exact .ofResult nofun
  | true =>
      cases p.dirty[id]? with
      | some page => exact .pure page
      | none =>
          generalize p.cache.get id = found
          obtain ⟨hit, cache⟩ := found
          refine .bind_any (.update _) fun _ => ?_
          cases hit with
          | some page => exact .pure page
          | none => exact load id

theorem write (page : Page) : Calm Any (write page) := by
  refine .bind_any ensureWritable fun _ => .self_bind fun p _ => ?_
  cases p.inRange page.id with
  | false => exact .ofResult nofun
  | true => exact .update _

theorem takeFree (id : PageId) : Calm Any (takeFree id) := by
  refine .bind_any (read id) fun page => .bind_any (.ofResult fun hkind => ?_) fun kind => ?_
  · obtain ⟨s, hs⟩ := corrupt_of_kind hkind
    cases hs
  · refine .self_bind fun p _ => ?_
    dsimp only
    split
    · exact .ofResult nofun
    · exact .bind_any (.update _) fun _ => .pure id

theorem allocate : Calm Any allocate := by
  refine .bind_any ensureWritable fun _ => .self_bind fun p _ => ?_
  split
  · exact takeFree _
  split
  · exact .ofResult nofun
  · exact .bind_any (.update _) fun _ => .pure _

end Calm

/-- A pager of a file of such pages. -/
def OfPages (pageSize : Nat) (p : Pager) : Prop := p.pageSize = pageSize

theorem keeps_ofPages {α : Type} {a : Action Pager α} {pageSize : Nat} (ha : Leaves Undoable a) :
    Keeps (fun p _ => OfPages pageSize p) a :=
  ha.keeps fun _ _ hleft hp => hleft.pageSize.trans hp

end Pager

namespace Tree

open Pager

/-! ## Nodes that fit, or are divided into nodes that do -/

section

variable {pageSize : Nat} {n : Node}

theorem calm_store (hfits : n.fits pageSize = true) (id : PageId) :
    Calm (OfPages pageSize) (store id n) := by
  refine .self_bind fun p hp => ?_
  exact .ofResult_bind (Node.toPage_of_fits (hp.symm ▸ hfits) id) (.of_any (.write _))

theorem calm_create (hfits : n.fits pageSize = true) : Calm (OfPages pageSize) (create n) := by
  refine .bind (.of_any .allocate) (keeps_ofPages Orderly.allocate.leaves) fun id => ?_
  exact .bind (calm_store hfits id) (keeps_ofPages (orderly_store id n).leaves) fun _ => .pure id

/-- **No check fails where a node fits its page, or is divided into parts that do.** -/
theorem calm_storeDivided (h : n.fits pageSize = false → ∃ left separator right,
    divide n = .ok (left, separator, right) ∧ left.fits pageSize = true ∧
      right.fits pageSize = true) (id : PageId) : Calm (OfPages pageSize) (storeDivided id n) := by
  refine .self_bind fun p hp => ?_
  rw [show p.pageSize = pageSize from hp]
  cases hfits : n.fits pageSize with
  | true =>
      exact .bind (calm_store hfits id) (keeps_ofPages (orderly_store id n).leaves)
        fun _ => .pure none
  | false =>
      obtain ⟨left, separator, right, hdivide, hleft, hright⟩ := h hfits
      refine .ofResult_bind hdivide ?_
      refine .bind (calm_create hright) (keeps_ofPages (orderly_create right).leaves) fun id' => ?_
      exact .bind (calm_store hleft id) (keeps_ofPages (orderly_store id left).leaves)
        fun _ => .pure _

end

end Tree

end PagedStore
