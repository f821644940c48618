import PagedStore.Proofs.Actions
import PagedStore.Tree

/-!
# Limits on the number of steps

A walk over the pages of a file has a limit on its steps, and a walk that is still under way when
the limit is reached is given up as endless. One that comes to an end within its limit does the
same within any greater one: to it the limit makes no difference.
-/

set_option autoImplicit false

namespace PagedStore

namespace Action

variable {σ α β : Type}

/-- Wherever the second action is not given up, the first one does the same. -/
def Outlasts (b a : Action σ α) : Prop :=
  ∀ s d, (a.exec s d).1 ≠ .error .endless → b.exec s d = a.exec s d

namespace Outlasts

theorem refl (a : Action σ α) : Outlasts a a := fun _ _ _ => rfl

theorem of_endless (b : Action σ α) : Outlasts b (throw .endless) := fun _ _ h => absurd rfl h

theorem self_bind {k l : σ → Action σ β} (h : ∀ s, Outlasts (l s) (k s)) :
    Outlasts (self >>= l) (self >>= k) := fun s d hne => h s s d hne

theorem bind {a b : Action σ α} {k l : α → Action σ β} (hab : Outlasts b a)
    (hkl : ∀ x, Outlasts (l x) (k x)) : Outlasts (b >>= l) (a >>= k) := by
  intro s d hne
  match hexec : a.exec s d with
  | (.error e, s', d') =>
      rw [exec_bind_error hexec] at hne ⊢
      have hb := hab s d fun he => by
        rw [hexec] at he
        cases he
        exact hne rfl
      exact exec_bind_error (hb.trans hexec)
  | (.ok x, s', d') =>
      rw [exec_bind_ok hexec] at hne ⊢
      have hb := hab s d fun he => by
        rw [hexec] at he
        cases he
      exact (exec_bind_ok (hb.trans hexec)).trans (hkl x s' d' hne)

/-- The same first action. -/
theorem bind_left (a : Action σ α) {k l : α → Action σ β} (h : ∀ x, Outlasts (l x) (k x)) :
    Outlasts (a >>= l) (a >>= k) := .bind (.refl a) h

/-- The same action after a first one. -/
theorem bind_right {a b : Action σ α} (h : Outlasts b a) (k : α → Action σ β) :
    Outlasts (b >>= k) (a >>= k) := .bind h fun x => .refl (k x)

end Outlasts

end Action

namespace Tree.Chain

open PagedStore.Action

variable {fuel fuel' : Nat}

theorem outlasts_readFrom (head : PageId) (h : fuel ≤ fuel') (hops : UInt32) (id : PageId) :
    Outlasts (readFrom head fuel' hops id) (readFrom head fuel hops id) := by
  induction fuel generalizing fuel' hops id with
  | zero => exact .of_endless _
  | succ fuel ih =>
      obtain ⟨fuel', rfl⟩ := Nat.exists_eq_succ_of_ne_zero (Nat.ne_of_gt (Nat.zero_lt_of_lt h))
      rw [readFrom, readFrom]
      split
      · exact .refl _
      refine .bind_left _ fun page => .self_bind fun p => ?_
      split
      · exact .refl _
      · exact .bind_left _ fun part => .bind_right (ih (Nat.le_of_succ_le_succ h) _ _) _

theorem outlasts_freeFrom (head : PageId) (h : fuel ≤ fuel') (hops : UInt32) (id : PageId) :
    Outlasts (freeFrom head fuel' hops id) (freeFrom head fuel hops id) := by
  induction fuel generalizing fuel' hops id with
  | zero => exact .of_endless _
  | succ fuel ih =>
      obtain ⟨fuel', rfl⟩ := Nat.exists_eq_succ_of_ne_zero (Nat.ne_of_gt (Nat.zero_lt_of_lt h))
      rw [freeFrom, freeFrom]
      split
      · exact .refl _
      · exact .bind_left _ fun page => .bind_left _ fun _ => ih (Nat.le_of_succ_le_succ h) _ _

end Tree.Chain

end PagedStore
