import Mathlib.Data.List.Induction
import PagedStore.Pager.Commit
import PagedStore.Proofs.FileContents

/-!
# Writing pages into a file

Pages of one size lie side by side, so writing one of them, or the front of one, spares all
others. Writing a set of pages therefore makes the file show every one of them, whatever the file
held in their places before, and it may be done again over a file in which it was left half done.
-/

set_option autoImplicit false

namespace PagedStore.Pager

open Bytes

variable {ps : Nat} {ids : PageId → Prop} {old mid new : Bytes}

theorem offset_zero (ps : Nat) : offset ps 0 = 0 := Nat.zero_mul ps

/-- Two pages do not overlap. -/
theorem offset_apart (ps : Nat) {i j : PageId} (h : i ≠ j) :
    offset ps i + ps ≤ offset ps j ∨ offset ps j + ps ≤ offset ps i := by
  have hne : i.toNat ≠ j.toNat := fun he => h (UInt32.toNat_inj.1 he)
  rw [offset, offset, ← Nat.succ_mul, ← Nat.succ_mul]
  rcases Nat.lt_or_gt_of_ne hne with hlt | hlt
  · exact .inl (Nat.mul_le_mul_right ps hlt)
  · exact .inr (Nat.mul_le_mul_right ps hlt)

/-! ## What is spared -/

/-- A file that was changed only in the pages `ids`, or behind its end. -/
structure Spares (ps : Nat) (ids : PageId → Prop) (old new : Bytes) : Prop where
  long : old.length ≤ new.length
  kept : ∀ id, ¬ ids id → offset ps id + ps ≤ old.length →
    slice (offset ps id) ps new = slice (offset ps id) ps old

theorem Spares.refl (ps : Nat) (ids : PageId → Prop) (bs : Bytes) : Spares ps ids bs bs :=
  ⟨Nat.le_refl _, fun _ _ _ => rfl⟩

theorem Spares.trans (h₁ : Spares ps ids old mid) (h₂ : Spares ps ids mid new) :
    Spares ps ids old new where
  long := Nat.le_trans h₁.long h₂.long
  kept id hid hlen := by
    rw [h₂.kept id hid (Nat.le_trans hlen h₁.long), h₁.kept id hid hlen]

/-- Writing a page, or the front of one, spares the others. -/
theorem Spares.patch {i : PageId} (hi : ids i) {bs : Bytes} (hlen : bs.length ≤ ps)
    (old : Bytes) : Spares ps ids old (patch (offset ps i) bs old) where
  long := le_length_patch ..
  kept id hid hold := by
    have hne : id ≠ i := by
      rintro rfl
      exact hid hi
    refine slice_patch_of_disjoint ?_ hold
    rcases offset_apart ps hne with h | h
    · exact .inl h
    · exact .inr (by omega)

theorem Spares.patch_one (i : PageId) {bs : Bytes} (hlen : bs.length ≤ ps) (old : Bytes) :
    Spares ps (fun id => id = i) old (Bytes.patch (offset ps i) bs old) :=
  @Spares.patch ps (fun id => id = i) i rfl bs hlen old

/-! ## Writing several pages -/

/-- The file after pages were written into it. -/
def patchAll (ps : Nat) (pages : List (PageId × Bytes)) (bs : Bytes) : Bytes :=
  pages.foldl (fun bs p => patch (offset ps p.1) p.2 bs) bs

/-- The file holds pages in their places. -/
def Shows (ps : Nat) (pages : List (PageId × Bytes)) (bs : Bytes) : Prop :=
  ∀ p ∈ pages, slice (offset ps p.1) ps bs = p.2

/-- Pages that can be written in any order: all of one size, and no two for the same place. -/
structure Writable (ps : Nat) (pages : List (PageId × Bytes)) : Prop where
  pos : 0 < ps
  length_eq : ∀ p ∈ pages, p.2.length = ps
  alike : ∀ p ∈ pages, ∀ q ∈ pages, p.1 = q.1 → p.2 = q.2

variable {pages : List (PageId × Bytes)}

theorem Spares.patchAll (hids : ∀ p ∈ pages, ids p.1) (hlen : ∀ p ∈ pages, p.2.length ≤ ps)
    (old : Bytes) : Spares ps ids old (patchAll ps pages old) := by
  induction pages generalizing old with
  | nil => exact .refl ps ids old
  | cons p pages ih =>
      have hp := Spares.patch (hids p List.mem_cons_self) (hlen p List.mem_cons_self) old
      exact hp.trans (ih (fun q hq => hids q (List.mem_cons_of_mem _ hq))
        (fun q hq => hlen q (List.mem_cons_of_mem _ hq)) _)

/-- Pages that lie within a file do not make it longer. -/
theorem length_patchAll_of_le (bs : Bytes)
    (h : ∀ p ∈ pages, offset ps p.1 + p.2.length ≤ bs.length) :
    (patchAll ps pages bs).length = bs.length := by
  induction pages generalizing bs with
  | nil => rfl
  | cons p pages ih =>
      have hp := length_patch_of_le (h p List.mem_cons_self)
      refine (ih _ fun q hq => ?_).trans hp
      rw [hp]
      exact h q (List.mem_cons_of_mem _ hq)

/-- A page that is shown lies within the file. -/
theorem offset_add_le {i : PageId} {bs image : Bytes} (hlen : image.length = ps) (hps : 0 < ps)
    (h : slice (offset ps i) ps bs = image) : offset ps i + ps ≤ bs.length := by
  have := length_slice (offset ps i) ps bs
  rw [h, hlen] at this
  omega

/-- **Writing pages makes the file show them**, whatever it held before. -/
theorem Writable.shows_patchAll (h : Writable ps pages) (old : Bytes) :
    Shows ps pages (patchAll ps pages old) := by
  -- The induction takes the last page off: it shows itself, and spares those before it.
  induction pages using List.reverseRecOn with
  | nil =>
      intro p hp
      cases hp
  | append_singleton pages q ih =>
      have hsub : ∀ p ∈ pages, p ∈ pages ++ [q] := fun p hp => List.mem_append_left _ hp
      have ih := ih ⟨h.pos, fun p hp => h.length_eq p (hsub p hp),
        fun p hp r hr => h.alike p (hsub p hp) r (hsub r hr)⟩
      have hq : q ∈ pages ++ [q] := List.mem_append_right _ List.mem_cons_self
      intro p hp
      rw [Pager.patchAll, List.foldl_append, List.foldl_cons, List.foldl_nil]
      by_cases hid : p.1 = q.1
      · rw [hid, h.alike p hp q hq hid]
        exact slice_patch_self (h.length_eq q hq) h.pos _
      · -- The last page lies elsewhere, so what was shown before still is.
        have hmem : p ∈ pages := by
          rcases List.mem_append.1 hp with hp | hp
          · exact hp
          · rw [List.mem_singleton.1 hp] at hid
            exact absurd rfl hid
        have hshown := ih p hmem
        have hspare := Spares.patch_one q.1 (h.length_eq q hq).le (Pager.patchAll ps pages old)
        rw [← hshown]
        exact hspare.kept p.1 hid (offset_add_le (h.length_eq p hp) h.pos hshown)

end PagedStore.Pager
