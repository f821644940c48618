import PagedStore.Proofs.TreeChanges
import PagedStore.Proofs.Undoing

/-!
# Operations on a tree of records

An operation as a whole either succeeds or fails without a trace: a change that fails half way is
taken back, so that the file shows what it showed before (`Settles`). Storing a record may be
refused, for want of pages or for its length; nothing else fails.
-/

set_option autoImplicit false

namespace PagedStore

open PagedStore.Action

namespace Pager

/-- A program that leads from the face `f` to a result and a face with `Q`, or fails with `E` and
leaves the face as it was. -/
def Settles {α : Type} (f : Face) (a : Action Pager α) (E : Error → Prop) (Q : α → Face → Prop) :
    Prop :=
  ∀ p d, Ready p d → p.face d = f →
    ∃ r q, a.exec p d = (r, q, d) ∧ Ready q d ∧ Same p q ∧
      match r with
      | .ok x => Q x (q.face d)
      | .error e => E e ∧ q.face d = f

namespace Settles

variable {α : Type} {f : Face} {a : Action Pager α} {E : Error → Prop} {Q : α → Face → Prop}

/-- A program that cannot fail settles. -/
theorem of_does (h : Does f a (fun _ => False) Q) : Settles f a E Q := by
  intro p d hp hf
  obtain ⟨r, q, hexec, ho, hr⟩ := h p d hp hf
  refine ⟨r, q, hexec, ho.ready, ho.toSame, ?_⟩
  cases r with
  | ok x => exact hr
  | error e => exact hr.elim

theorem post {Q' : α → Face → Prop} (h : Settles f a E Q) (hQ : ∀ x g, Q x g → Q' x g) :
    Settles f a E Q' := by
  intro p d hp hf
  obtain ⟨r, q, hexec, hq, hs, hr⟩ := h p d hp hf
  refine ⟨r, q, hexec, hq, hs, ?_⟩
  cases r with
  | ok x => exact hQ x _ hr
  | error e => exact hr

end Settles

/-- Taking an operation back restores what could be seen when it began. -/
theorem face_takenBack {p q : Pager} {d : Disk} (hs : Same p q)
    (hu : q.undone = some (p.header, p.dirty)) : q.takenBack.face d = p.face d := by
  have hview : q.takenBack.view d = p.view d := by
    funext id
    rw [takenBack, hu, view, view, hs.file, hs.pageSize]
    rfl
  rw [face, face, hview, (same_takenBack q).pageSize, hs.pageSize, (same_takenBack q).maxPages,
    hs.maxPages, takenBack, hu]

/-- **An operation under a savepoint settles**, if none of its checks fails. -/
theorem Does.atomically {α : Type} {f : Face} {a : Action Pager α} {E : Error → Prop}
    {Q : α → Face → Prop} (h : Does f a (fun e => E e ∧ e ≠ .panicked) Q) :
    Settles f (Tree.atomically a) E Q := by
  intro p d hp hf
  obtain ⟨r, q, hexec, ho, hr⟩ := h p.begun d hp.begun hf
  have hsame : Same p q := ⟨ho.path, ho.file, ho.log, ho.pageSize, ho.committed, ho.maxPages,
    ho.crashPoint, ho.poisoned⟩
  rw [exec_atomically, hexec]
  cases r with
  | ok x =>
      refine ⟨.ok x, q.ended, rfl, ho.ready.ended, ?_, ?_⟩
      · exact hsame.trans ⟨rfl, rfl, rfl, rfl, rfl, rfl, rfl, rfl⟩
      · exact hr
  | error e =>
      refine ⟨.error e, q.takenBack, ?_, ho.ready.takenBack, hsame.trans (same_takenBack q),
        hr.1, ?_⟩
      · dsimp only
        rw [abandoned_of_ne hr.2]
      · rw [face_takenBack hsame (ho.undone.trans (undone_begun p)), hf]

end Pager

namespace Tree

open Pager

section

variable {f : Face} {m : Contents} {E : Error → Prop}

/-! ## Changes -/

/-- A key that is too long is refused before anything is done. -/
theorem settles_checked {α : Type} {key : Bytes} {a : Action Pager α} {Q : α → Face → Prop}
    (h : key.length ≤ keyLimit f.pageSize → Settles f a Refused Q) :
    Settles f (checkKey key >>= fun _ => a) Refused Q := by
  intro p d hp hf
  obtain rfl := hf
  by_cases hkey : keyLimit p.pageSize < key.length
  · have hcheck : ∃ s, (checkKey key).exec p d = (.error (.limitReached s), p, d) := by
      rw [checkKey, exec_bind, exec_self]
      simp only [if_pos hkey]
      exact ⟨_, rfl⟩
    obtain ⟨s, hcheck⟩ := hcheck
    exact ⟨_, p, exec_bind_error hcheck, hp, .refl p, .inr (.inl ⟨s, rfl⟩), rfl⟩
  · have hcheck : (checkKey key).exec p d = (.ok (), p, d) := by
      rw [checkKey, exec_bind, exec_self]
      simp only [if_neg hkey]
      rfl
    rw [exec_bind_ok hcheck]
    exact h (Nat.le_of_not_lt hkey) p d hp rfl

variable [Codec]

/-- **Putting a record** puts it into the map. -/
theorem settles_put [Codec.Lawful] (h : Stores f m) (c : Compression) (key value : Bytes) :
    Settles f (put c key value) Refused fun _ g => Stores g (m.insert key value) :=
  settles_checked fun hkey =>
    Does.atomically ((does_insert c h hkey).mono (fun _ he => ⟨he, he.ne_panicked⟩) fun _ _ h => h)

/-- **Appending to a record** puts the longer value into the map. -/
theorem settles_append [Codec.Lawful] (h : Stores f m) (c : Compression) (key value : Bytes) :
    Settles f (append c key value) Refused fun _ g =>
      Stores g (m.insert key (m[key]?.getD [] ++ value)) := by
  refine settles_checked fun hkey => Does.atomically ?_
  refine .bind (does_get h key) ?_
  rintro _ g ⟨rfl, rfl⟩
  exact (does_insert c h hkey).mono (fun _ he => ⟨he, he.ne_panicked⟩) fun _ _ h => h

/-- **Deleting a record** erases it from the map, and always succeeds. -/
theorem settles_delete (h : Stores f m) (key : Bytes) :
    Settles f (delete key) E fun found g => found = m.contains key ∧ Stores g (m.erase key) :=
  Does.atomically (does_remove h key)

end

end Tree

end PagedStore
