import PagedStore.Proofs.PagerState
import PagedStore.Tree

/-!
# Operations under a savepoint, and checks that fail

What an operation under a savepoint comes to is what its program comes to from a pager that
remembers where it was: an error takes the changes back, save for that of a check of its own, which
leaves them as they are (`abandoned`). No operation is under way afterwards in any of the cases.

A program is calm on pagers of a kind when none of its own checks fails on them (`Calm`).
-/

set_option autoImplicit false

namespace PagedStore.Pager

open PagedStore.Action

/-- The pager after an operation that ended in an error. -/
def abandoned (p : Pager) : Error → Pager
  | .panicked => p.ended
  | _ => p.takenBack

theorem abandoned_of_ne {e : Error} (h : e ≠ .panicked) (p : Pager) :
    p.abandoned e = p.takenBack := by
  unfold abandoned
  split
  · exact absurd rfl h
  · rfl

theorem same_abandoned (p : Pager) (e : Error) : Same p (p.abandoned e) := by
  unfold abandoned
  split
  · exact same_ended p
  · exact same_takenBack p

theorem savepoint_abandoned (p : Pager) (e : Error) : (p.abandoned e).savepoint = none := by
  unfold abandoned
  split
  · rfl
  · exact savepoint_takenBack p

theorem exec_abandon (e : Error) (p : Pager) (d : Disk) :
    (Tree.abandon e).exec p d = (.ok (), p.abandoned e, d) := by
  unfold Tree.abandon
  split
  · rfl
  · rename_i he
    rw [abandoned_of_ne he]
    exact exec_undoOp p d

section

variable {α : Type} {a : Action Pager α} {p q : Pager} {d d' : Disk}

/-- What an operation comes to is what its program comes to. -/
theorem exec_atomically (a : Action Pager α) (p : Pager) (d : Disk) :
    (Tree.atomically a).exec p d =
      match a.exec p.begun d with
      | (.ok x, q, d') => (.ok x, q.ended, d')
      | (.error e, q, d') => (.error e, q.abandoned e, d') := by
  have hbegin : beginOp.exec p d = (.ok (), p.begun, d) := rfl
  rw [Tree.atomically, exec_bind_ok hbegin, exec_bind, exec_attempt]
  match a.exec p.begun d with
  | (.ok x, q, d') => rfl
  | (.error e, q, d') => exact exec_bind_ok (exec_abandon e q d')

/-- The answer of an operation is that of its program. -/
theorem exec_atomically_eq (a : Action Pager α) (p : Pager) (d : Disk) :
    ((Tree.atomically a).exec p d).1 = (a.exec p.begun d).1 := by
  rw [exec_atomically]
  match a.exec p.begun d with
  | (.ok x, q, d') => rfl
  | (.error e, q, d') => rfl

/-- An operation as a whole succeeds as its program does. -/
theorem of_exec_atomically_ok {x : α} (h : (Tree.atomically a).exec p d = (.ok x, q, d')) :
    ∃ q', a.exec p.begun d = (.ok x, q', d') ∧ q = q'.ended := by
  rw [exec_atomically] at h
  match hexec : a.exec p.begun d with
  | (.ok y, q', d₁) =>
      rw [hexec] at h
      obtain ⟨rfl, rfl, rfl⟩ := exec_ok_inj h
      exact ⟨q', rfl, rfl⟩
  | (.error e, q', d₁) =>
      rw [hexec] at h
      cases h

/-- An operation as a whole fails as its program does. -/
theorem of_exec_atomically_error {e : Error}
    (h : (Tree.atomically a).exec p d = (.error e, q, d')) :
    ∃ q', a.exec p.begun d = (.error e, q', d') ∧ q = q'.abandoned e := by
  rw [exec_atomically] at h
  match hexec : a.exec p.begun d with
  | (.ok y, q', d₁) =>
      rw [hexec] at h
      cases h
  | (.error e', q', d₁) =>
      rw [hexec] at h
      cases h
      exact ⟨q', rfl, rfl⟩

end

/-! ## Checks of the program's own -/

section

variable {α β : Type} {P : Pager → Prop}

/-- Wherever the pager is as `P` says, no check of the program's own fails. -/
def Calm (P : Pager → Prop) (a : Action Pager α) : Prop :=
  ∀ p d, P p → (a.exec p d).1 ≠ .error .panicked

namespace Calm

theorem ofResult {r : Except Error α} (h : r ≠ .error .panicked) :
    Calm P (Action.ofResult r) := fun _ _ _ => h

theorem pure (x : α) : Calm P (pure x : Action Pager α) := ofResult nofun

theorem self_bind {k : Pager → Action Pager β} (hk : ∀ p, P p → Calm P (k p)) :
    Calm P (self >>= k) := fun p d hp => hk p hp p d hp

theorem ofResult_bind {r : Except Error α} {x : α} {k : α → Action Pager β} (hr : r = .ok x)
    (hk : Calm P (k x)) : Calm P (Action.ofResult r >>= k) := by
  intro p d hp
  rw [hr, exec_bind_ok (exec_ofResult _ p d)]
  exact hk p d hp

theorem bind {a : Action Pager α} {k : α → Action Pager β} (ha : Calm P a)
    (hkeep : Keeps (fun p _ => P p) a) (hk : ∀ x, Calm P (k x)) : Calm P (a >>= k) := by
  intro p d hp
  have hcalm := ha p d hp
  have hkept := hkeep p d hp
  match hexec : a.exec p d with
  | (.error e, q, d') =>
      rw [hexec] at hcalm
      rw [exec_bind_error hexec]
      exact fun h => hcalm (by rw [Except.error.inj h])
  | (.ok x, q, d') =>
      rw [hexec] at hkept
      rw [exec_bind_ok hexec]
      exact hk x q d' hkept

end Calm

end

end PagedStore.Pager
