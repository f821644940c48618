import PagedStore.Proofs.Faces
import PagedStore.Proofs.Twins

/-!
# Programs that only read

A program that looks at no more of a pager than its header and its page size, and otherwise reads
pages, is answered alike by all pagers of which the same can be seen, whatever files they have open
and whether these may be written to or not (`Reading.exec_displays`). So what is known of the
answers of a writer is known of those of a reader that shows the same (`Answers`).
-/

set_option autoImplicit false

namespace PagedStore.Pager

open PagedStore.Action

/-- A program that looks at the header and the page size and reads pages. -/
inductive Reading : {α : Type} → Action Pager α → Prop where
  | ofResult {α : Type} (r : Except Error α) : Reading (Action.ofResult r)
  /-- The rest of the pager is not looked at. -/
  | look {α : Type} {k : Pager → Action Pager α}
      (hsame : ∀ p q : Pager, k { q with header := p.header, pageSize := p.pageSize } = k p)
      (next : ∀ p, Reading (k p)) : Reading (self >>= k)
  | read (id : PageId) : Reading (Pager.read id)
  | bind {α β : Type} {a : Action Pager α} {k : α → Action Pager β} (first : Reading a)
      (next : ∀ x, Reading (k x)) : Reading (a >>= k)

namespace Reading

variable {α : Type} {a : Action Pager α}

theorem pure (x : α) : Reading (pure x : Action Pager α) := ofResult (.ok x)

theorem throw (e : Error) : Reading (throw e : Action Pager α) := ofResult (.error e)

/-- Reading is orderly. -/
theorem orderly (h : Reading a) : Orderly Alike a := by
  induction h with
  | ofResult r => exact .ofResult r
  | look hsame next ih =>
      exact .self_bind (fun p c n => hsame p { p with cache := c, counts := n }) ih
  | read id => exact .read id
  | bind first next ihfirst ihnext => exact .bind ihfirst ihnext

end Reading

/-! ## Pagers that show the same -/

/-- A pager that may be used, and of which `f` can be seen. -/
structure Displays (f : Face) (p : Pager) (d : Disk) : Prop where
  mirrors : Mirrors p d
  usable : p.poisoned = none
  header : p.header = f.header
  pageSize : p.pageSize = f.pageSize
  view : p.view d = f.pages

section

variable {f : Face} {p q : Pager} {d d' : Disk} {α : Type} {a : Action Pager α}

theorem Ready.displays (h : Ready p d) : Displays (p.face d) p d :=
  ⟨h.mirrors, h.usable, rfl, rfl, rfl⟩

theorem Displays.alike (h : Displays f p d) (ha : Alike p q) (hm : Mirrors q d) :
    Displays f q d where
  mirrors := hm
  usable := ha.poisoned.trans h.usable
  header := ha.header.trans h.header
  pageSize := ha.pageSize.trans h.pageSize
  view := (ha.view d).trans h.view

/-- **Pagers that show the same answer alike**, and show it still. -/
theorem Reading.exec_displays (ha : Reading a) (hp : Displays f p d) (hq : Displays f q d') :
    ∃ r p' q', a.exec p d = (r, p', d) ∧ a.exec q d' = (r, q', d') ∧ Alike p p' ∧
      Displays f p' d ∧ Displays f q' d' := by
  induction ha generalizing p q with
  | ofResult r => exact ⟨r, p, q, rfl, rfl, .refl p, hp, hq⟩
  | look hsame next ih =>
      obtain ⟨r, p', q', hexec, hexec', hrest⟩ := ih p hp hq
      refine ⟨r, p', q', hexec, ?_, hrest⟩
      -- With what the first one shows the second one is itself.
      rw [← hsame p q, hp.header, hp.pageSize, ← hq.header, ← hq.pageSize] at hexec'
      exact hexec'
  | read id =>
      obtain ⟨p', hexec, halike, hm⟩ := hp.mirrors.exec_read hp.usable id
      obtain ⟨q', hexec', halike', hm'⟩ := hq.mirrors.exec_read hq.usable id
      rw [hp.view] at hexec
      rw [hq.view] at hexec'
      exact ⟨_, p', q', hexec, hexec', halike, hp.alike halike hm, hq.alike halike' hm'⟩
  | bind first next ihfirst ihnext =>
      obtain ⟨r, p₁, q₁, hexec, hexec', halike, hp₁, hq₁⟩ := ihfirst hp hq
      cases r with
      | error e =>
          exact ⟨_, p₁, q₁, exec_bind_error hexec, exec_bind_error hexec', halike, hp₁, hq₁⟩
      | ok x =>
          obtain ⟨r, p₂, q₂, hnext, hnext', halike₂, hp₂, hq₂⟩ := ihnext x hp₁ hq₁
          exact ⟨r, p₂, q₂, (exec_bind_ok hexec).trans hnext, (exec_bind_ok hexec').trans hnext',
            halike.trans halike₂, hp₂, hq₂⟩

/-- The answer of every pager of which `f` can be seen; nothing that can be seen is changed. -/
def Answers (f : Face) (a : Action Pager α) (r : Except Error α) : Prop :=
  ∀ p d, Displays f p d → ∃ q, a.exec p d = (r, q, d) ∧ Alike p q ∧ Displays f q d

namespace Answers

variable {β : Type} {k : α → Action Pager β} {r : Except Error β}

theorem ofResult (f : Face) (r : Except Error α) : Answers f (ofResult r) r := fun p _ h =>
  ⟨p, rfl, .refl p, h⟩

theorem pure (x : α) : Answers f (pure x : Action Pager α) (.ok x) := ofResult f (.ok x)

theorem throw (e : Error) : Answers f (throw e : Action Pager α) (.error e) := ofResult f (.error e)

theorem look {k : Pager → Action Pager β}
    (hk : ∀ p : Pager, p.header = f.header → p.pageSize = f.pageSize → Answers f (k p) r) :
    Answers f (self >>= k) r := fun p d h => hk p h.header h.pageSize p d h

theorem read (f : Face) (id : PageId) : Answers f (Pager.read id) (f.pages id) := by
  intro p d h
  obtain ⟨q, hexec, halike, hm⟩ := h.mirrors.exec_read h.usable id
  rw [h.view] at hexec
  exact ⟨q, hexec, halike, h.alike halike hm⟩

theorem bind_ok {x : α} (ha : Answers f a (.ok x)) (hk : Answers f (k x) r) :
    Answers f (a >>= k) r := by
  intro p d h
  obtain ⟨q, hexec, halike, hq⟩ := ha p d h
  obtain ⟨q', hexec', halike', hq'⟩ := hk q d hq
  exact ⟨q', (exec_bind_ok hexec).trans hexec', halike.trans halike', hq'⟩

theorem bind_error {e : Error} (ha : Answers f a (.error e)) : Answers f (a >>= k) (.error e) := by
  intro p d h
  obtain ⟨q, hexec, hq⟩ := ha p d h
  exact ⟨q, exec_bind_error hexec, hq⟩

theorem eq {r : Except Error α} (ha : Answers f a r) (h : Displays f p d) :
    (a.exec p d).1 = r := by
  obtain ⟨q, hexec, -⟩ := ha p d h
  rw [hexec]

/-- What is answered may be put in other words. -/
theorem map {s : Except Error α} (ha : Answers f a s) (g : α → β) :
    Answers f (a >>= fun x => Pure.pure (g x)) (s.map g) := by
  intro p d h
  obtain ⟨q, hexec, hq⟩ := ha p d h
  exact ⟨q, exec_bind_pure hexec g, hq⟩

end Answers

/-- A question is answered, if only by a failure of the kind that is meant. -/
def Replies (f : Face) (E : Error → Prop) (a : Action Pager α) : Prop :=
  ∃ r, Answers f a r ∧ ∀ e, r = .error e → E e

namespace Replies

variable {β : Type} {E E' : Error → Prop} {k : α → Action Pager β}

theorem ofResult {r : Except Error α} (h : ∀ e, r = .error e → E e) :
    Replies f E (Action.ofResult r) := ⟨r, .ofResult f r, h⟩

theorem pure (x : α) : Replies f E (Pure.pure x : Action Pager α) := ofResult nofun

theorem throw {e : Error} (h : E e) : Replies f E (throw e : Action Pager α) := by
  refine ofResult ?_
  rintro _ ⟨⟩
  exact h

theorem bind (ha : Replies f E a) (hk : ∀ x, Replies f E (k x)) : Replies f E (a >>= k) := by
  obtain ⟨r, hr, herror⟩ := ha
  cases r with
  | error e =>
      refine ⟨.error e, .bind_error hr, ?_⟩
      rintro _ ⟨⟩
      exact herror e rfl
  | ok x =>
      obtain ⟨s, hs, herror⟩ := hk x
      exact ⟨s, .bind_ok hr hs, herror⟩

theorem mono (ha : Replies f E a) (hE : ∀ e, E e → E' e) : Replies f E' a := by
  obtain ⟨r, hr, herror⟩ := ha
  exact ⟨r, hr, fun e he => hE e (herror e he)⟩

theorem error (ha : Replies f E a) (h : Displays f p d) {e : Error}
    (he : (a.exec p d).1 = .error e) : E e := by
  obtain ⟨r, hr, herror⟩ := ha
  rw [hr.eq h] at he
  exact herror e he

end Replies

/-- **A question that a writer answers is answered alike by every pager** of which the same can be
seen. -/
theorem Reading.exec_of_does {Q : α → Prop} (ha : Reading a) (hq : Ready q d')
    (hdoes : Does (q.face d') a (fun _ => False) fun x g => g = q.face d' ∧ Q x)
    (hp : Displays (q.face d') p d) :
    ∃ x p', a.exec p d = (.ok x, p', d) ∧ Q x ∧ Alike p p' ∧ Displays (q.face d') p' d := by
  obtain ⟨r, p', q', hexec, hexec', halike, hp', -⟩ := ha.exec_displays hp hq.displays
  obtain ⟨r', q'', hwriter, -, hr⟩ := hdoes q d' hq rfl
  rw [hexec'] at hwriter
  cases hwriter
  cases r with
  | ok x => exact ⟨x, p', hexec, hr.2, halike, hp'⟩
  | error e => exact hr.elim

end

end PagedStore.Pager
