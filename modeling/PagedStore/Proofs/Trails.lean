import Mathlib.Data.List.Nodup
import Mathlib.Data.List.Perm.Subperm
import PagedStore.Proofs.Faces

/-!
# Trails

A page names the next one, and that names another, up to a page at which to stop: this is how a
chain is walked and how a tree is descended. As each page names one next page, such a trail cannot
come to the same page twice and still end; so it has no more pages than the file.
-/

set_option autoImplicit false

namespace PagedStore

/-- The points from `a` on, each leading to the next one, before the one at which to stop. -/
inductive Trail {α : Type} (Stop : α → Prop) (Next : α → α → Prop) : α → List α → Prop where
  | stop {a : α} (here : Stop a) : Trail Stop Next a []
  | step {a b : α} {more : List α} (goes : ¬ Stop a) (next : Next a b)
      (rest : Trail Stop Next b more) : Trail Stop Next a (a :: more)

namespace Trail

variable {α : Type} {Stop : α → Prop} {Next Next' : α → α → Prop} {a b : α} {l l' : List α}

/-- What holds of all points that lead on holds of those of a trail. -/
theorem forall_mem {P : α → Prop} (hP : ∀ a b, Next a b → P a) (h : Trail Stop Next a l) :
    ∀ b ∈ l, P b := by
  induction h with
  | stop => exact fun b hb => absurd hb List.not_mem_nil
  | step _ hnext _ ih =>
      intro b hb
      rcases List.mem_cons.1 hb with rfl | hb
      · exact hP _ _ hnext
      · exact ih b hb

/-- A trail depends on what its own points lead to. -/
theorem mono (h : Trail Stop Next a l) (hnext : ∀ b ∈ l, ∀ c, Next b c → Next' b c) :
    Trail Stop Next' a l := by
  induction h with
  | stop hhere => exact .stop hhere
  | step hgoes hstep _ ih =>
      exact .step hgoes (hnext _ List.mem_cons_self _ hstep)
        (ih fun b hb => hnext b (List.mem_cons_of_mem _ hb))

/-- A trail goes on from each of its points as it does from its beginning. -/
theorem of_mem (h : Trail Stop Next a l) (hb : b ∈ l) :
    ∃ more, Trail Stop Next b (b :: more) ∧ more.length < l.length := by
  induction h with
  | stop => exact absurd hb List.not_mem_nil
  | @step a c more hgoes hnext hrest ih =>
      rcases List.mem_cons.1 hb with rfl | hb
      · exact ⟨more, .step hgoes hnext hrest, Nat.lt_succ_self _⟩
      · obtain ⟨more', htrail, hlt⟩ := ih hb
        exact ⟨more', htrail, Nat.lt_succ_of_lt hlt⟩

section

variable (hone : ∀ a b c, Next a b → Next a c → b = c)
include hone

theorem unique (h : Trail Stop Next a l) (h' : Trail Stop Next a l') : l = l' := by
  induction h generalizing l' with
  | stop hhere =>
      cases h' with
      | stop => rfl
      | step hgoes => exact absurd hhere hgoes
  | step hgoes hnext _ ih =>
      cases h' with
      | stop hhere => exact absurd hhere hgoes
      | step _ hnext' hrest' =>
          obtain rfl := hone _ _ _ hnext hnext'
          rw [ih hrest']

/-- **A trail that ends comes to no point twice.** -/
theorem nodup (h : Trail Stop Next a l) : l.Nodup := by
  induction h with
  | stop => exact List.nodup_nil
  | @step a b more hgoes hnext hrest ih =>
      refine List.nodup_cons.2 ⟨fun hmem => ?_, ih⟩
      -- From its second occurrence on the point would have a shorter trail than from its first.
      obtain ⟨more', hagain, hlt⟩ := hrest.of_mem hmem
      have heq := unique hone hagain (.step hgoes hnext hrest)
      rw [(List.cons.inj heq).2] at hlt
      exact Nat.lt_irrefl _ hlt

end

end Trail

/-- Different pages are no more than the file has. -/
theorem Face.length_le_of_nodup {f : Face} {ids : List PageId} (h : ids.Nodup)
    (hhas : ∀ id ∈ ids, f.Has id) : ids.length ≤ f.header.pageCount.toNat - 1 := by
  have hnodup : (ids.map UInt32.toNat).Nodup :=
    List.Nodup.map (fun _ _ hn => UInt32.toNat_inj.1 hn) h
  have hsub : ids.map UInt32.toNat ⊆ List.range' 1 (f.header.pageCount.toNat - 1) := by
    intro n hn
    obtain ⟨id, hid, rfl⟩ := List.mem_map.1 hn
    obtain ⟨h0, hlt⟩ := hhas id hid
    have hpos : id.toNat ≠ 0 := fun hz => h0 (UInt32.toNat_inj.1 hz)
    rw [UInt32.lt_iff_toNat_lt] at hlt
    rw [List.mem_range'_1]
    omega
  have hle := (List.subperm_of_subset hnodup hsub).length_le
  rwa [List.length_map, List.length_range'] at hle

end PagedStore
