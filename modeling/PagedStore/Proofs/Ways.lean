import Mathlib.Logic.Relation
import PagedStore.Proofs.ChainWrites
import PagedStore.Proofs.TreeShape

/-!
# Ways down a tree of any pages

The children of an interior node are whatever its page says. So in a damaged file a page may be its
own descendant, and a way down the tree that comes back to a page goes round for ever
(`Face.Circular`). Where no page leads back to itself, there are fewer pages on any way down than in
the file. A single descent goes one such way; where it ends it has met no page twice.
-/

set_option autoImplicit false

namespace PagedStore

open Relation PagedStore.Tree

/-- An interior node is held by a page of its kind. -/
theorem kind_of_ofPage_interior {page : Page} {first : PageId} {rest : List (Bytes × PageId)}
    (h : Node.ofPage page = .ok (.interior first rest)) : page.kind = .ok .interior := by
  rw [Node.ofPage] at h
  simp only [bind, Except.bind] at h
  split at h
  · cases h
  · rename_i kind hkind
    cases kind with
    | interior => exact hkind
    | leaf =>
        simp only [pure, Except.pure] at h
        repeat' split at h
        all_goals cases h
    | _ => cases h

namespace Face

/-! ## Children -/

/-- A page holds an interior node with a child on the other page. -/
def Enters (f : Face) (id child : PageId) : Prop :=
  ∃ first rest, f.node id = .ok (.interior first rest) ∧ child ∈ Node.children first rest

/-- A page below the given one, or that page itself, leads back to itself. -/
def Circular (f : Face) (id : PageId) : Prop :=
  ∃ other, ReflTransGen f.Enters id other ∧ TransGen f.Enters other other

/-- There are no more than `n` interior nodes on any way down from a page. -/
def Shallow (f : Face) : (n : Nat) → PageId → Prop
  | 0, id => ∀ child, ¬ f.Enters id child
  | n + 1, id => ∀ child, f.Enters id child → f.Shallow n child

section

variable {f g : Face} {id child : PageId} {n : Nat}

/-- Whether a page has children is seen from the page alone. -/
theorem enters_congr (hpage : g.pages id = f.pages id) : g.Enters id child ↔ f.Enters id child := by
  rw [Enters, Enters, node, node, hpage]

/-- Pages of other kinds have no children. -/
theorem not_enters_of_kind {page : Page} {kind : PageKind} (hpage : f.pages id = .ok page)
    (hkind : page.kind = .ok kind) (hne : kind ≠ .interior) : ¬ f.Enters id child := by
  rintro ⟨first, rest, hnode, -⟩
  rw [node, hpage] at hnode
  exact hne (Except.ok.inj (hkind.symm.trans (kind_of_ofPage_interior hnode)))

theorem Circular.mono (h : g.Circular id) (hle : ∀ a b, g.Enters a b → f.Enters a b) :
    f.Circular id := by
  obtain ⟨other, hreach, hback⟩ := h
  exact ⟨other, ReflTransGen.mono hle _ _ hreach, TransGen.mono hle _ _ hback⟩

theorem not_circular_of_bottom (h : ∀ child, ¬ f.Enters id child) : ¬ f.Circular id := by
  rintro ⟨other, hreach, hback⟩
  obtain rfl | ⟨child, henters, -⟩ := hreach.cases_head
  · obtain ⟨child, henters, -⟩ := TransGen.head'_iff.1 hback
    exact h child henters
  · exact h child henters

/-- Below a page that is not shallow there is a way down on which many pages follow. -/
theorem exists_way_of_not_shallow (h : ¬ f.Shallow n id) : ∃ ids, ids.length = n ∧
    (∀ a ∈ id :: ids, ∃ b, f.Enters a b) ∧ (∀ a ∈ ids, TransGen f.Enters id a) ∧
    (id :: ids).Pairwise (TransGen f.Enters) := by
  induction n generalizing id with
  | zero =>
      simp only [Shallow, not_forall, not_not] at h
      exact ⟨[], rfl, by simpa using h, nofun, List.pairwise_singleton ..⟩
  | succ n ih =>
      simp only [Shallow, not_forall] at h
      obtain ⟨child, henters, hdeep⟩ := h
      obtain ⟨ids, rfl, hlead, hbelow, hpairs⟩ := ih hdeep
      have hall : ∀ a ∈ child :: ids, TransGen f.Enters id a := by
        intro a ha
        rcases List.mem_cons.1 ha with rfl | ha
        · exact .single henters
        · exact .head henters (hbelow a ha)
      refine ⟨child :: ids, rfl, ?_, hall, List.pairwise_cons.2 ⟨hall, hpairs⟩⟩
      intro a ha
      rcases List.mem_cons.1 ha with rfl | ha
      · exact ⟨child, henters⟩
      · exact hlead a ha

/-- **Where no page leads back to itself** there are fewer pages on any way down than in the
file. -/
theorem shallow_of_not_circular (h : ¬ f.Circular id)
    (hhas : ∀ a b, f.Enters a b → f.Has a) : f.Shallow (f.header.pageCount.toNat - 1) id := by
  by_contra hdeep
  obtain ⟨ids, hlen, hlead, hbelow, hpairs⟩ := exists_way_of_not_shallow hdeep
  have hnodup : (id :: ids).Nodup := by
    refine List.Pairwise.imp_of_mem (R := TransGen f.Enters) (fun {a b} ha _ hstep heq => ?_) hpairs
    subst heq
    refine h ⟨a, ?_, hstep⟩
    rcases List.mem_cons.1 ha with rfl | ha
    · exact .refl
    · exact (hbelow a ha).to_reflTransGen
  have hle := length_le_of_nodup hnodup fun a ha => by
    obtain ⟨b, hb⟩ := hlead a ha
    exact hhas a b hb
  rw [List.length_cons] at hle
  omega

/-! ## Single ways -/

/-- A way down on which the next child is always the one that is picked of a node, up to a page
without children. -/
def Way (f : Face) (pick : PageId → List (Bytes × PageId) → PageId) :
    PageId → List PageId → Prop :=
  Trail (fun id => ∀ child, ¬ f.Enters id child)
    fun id next => ∃ first rest, f.node id = .ok (.interior first rest) ∧ next = pick first rest

variable {pick : PageId → List (Bytes × PageId) → PageId} {ids : List PageId}

theorem Way.nodup (h : f.Way pick id ids) : ids.Nodup := by
  refine Trail.nodup ?_ h
  rintro a b c ⟨first, rest, hnode, rfl⟩ ⟨first', rest', hnode', rfl⟩
  cases hnode.symm.trans hnode'
  rfl

/-- **A way down that ends has fewer interior nodes than the file has pages.** -/
theorem Way.length_le (h : f.Way pick id ids) (hhas : ∀ a b, f.Enters a b → f.Has a) :
    ids.length ≤ f.header.pageCount.toNat - 1 := by
  refine length_le_of_nodup h.nodup (h.forall_mem ?_)
  rintro a b ⟨first, rest, hnode, -⟩
  exact hhas a first ⟨first, rest, hnode, List.mem_cons_self⟩

theorem way_bottom (h : ∀ child, ¬ f.Enters id child) : f.Way pick id ids ↔ ids = [] := by
  constructor
  · intro hway
    cases hway with
    | stop => rfl
    | step hgoes => exact absurd h hgoes
  · rintro rfl
    exact .stop h

theorem way_interior {first : PageId} {rest : List (Bytes × PageId)}
    (h : f.node id = .ok (.interior first rest)) :
    f.Way pick id ids ↔ ∃ more, ids = id :: more ∧ f.Way pick (pick first rest) more := by
  have henters : f.Enters id first := ⟨first, rest, h, List.mem_cons_self⟩
  constructor
  · intro hway
    cases hway with
    | stop hstop => exact absurd henters (hstop first)
    | @step _ _ more _ hnext hrest =>
        obtain ⟨first', rest', hnode, rfl⟩ := hnext
        cases h.symm.trans hnode
        exact ⟨more, rfl, hrest⟩
  · rintro ⟨more, rfl, hrest⟩
    exact .step (fun hstop => hstop first henters) ⟨first, rest, h, rfl⟩ hrest

/-- A way that comes back to its first page does not end. -/
theorem not_way_of_circle {first : PageId} {rest : List (Bytes × PageId)}
    (h : f.node id = .ok (.interior first rest)) (hback : pick first rest = id) :
    ¬ f.Way pick id ids := by
  intro hway
  obtain ⟨more, rfl, hmore⟩ := (way_interior h).1 hway
  rw [hback] at hmore
  obtain ⟨_, rfl, -⟩ := (way_interior h).1 hmore
  exact (List.nodup_cons.1 hway.nodup).1 List.mem_cons_self

/-- In a shallow tree every way down ends. -/
theorem Shallow.exists_way (h : f.Shallow n id)
    (hpick : ∀ first rest, pick first rest ∈ Node.children first rest) :
    ∃ ids, f.Way pick id ids ∧ ids.length ≤ n := by
  induction n generalizing id with
  | zero => exact ⟨[], .stop h, Nat.le_refl 0⟩
  | succ n ih =>
      by_cases hbottom : ∀ child, ¬ f.Enters id child
      · exact ⟨[], .stop hbottom, Nat.zero_le _⟩
      · simp only [not_forall, not_not] at hbottom
        obtain ⟨child, first, rest, hnode, -⟩ := hbottom
        obtain ⟨ids, hids, hlen⟩ := ih (h _ ⟨first, rest, hnode, hpick first rest⟩)
        exact ⟨id :: ids, (way_interior hnode).2 ⟨ids, rfl, hids⟩, Nat.succ_le_succ hlen⟩

end

/-! ## Changes that lead nowhere new -/

/-- A chain takes away children but gives none: its pages hold no nodes. -/
theorem enters_of_wrote {f g : Face} {value : Bytes} {head : PageId} {ids : List PageId}
    (h : Chain.Wrote f g value head ids) {a b : PageId} (henters : g.Enters a b) :
    f.Enters a b := by
  obtain ⟨k, hdrawn, -, rfl⟩ := h.drawn
  by_cases ha : a ∈ ids
  · obtain ⟨page, hpage, hkind⟩ := Chain.overflow_linked (f := k) ha (Nat.le_of_eq h.length)
    exact absurd henters (not_enters_of_kind hpage hkind (by decide))
  · exact (enters_congr ((Chain.pages_linked ha).trans (hdrawn.pages ha))).1 henters

/-- A page that is freed has no children any more, and the others have the same ones. -/
theorem enters_freed {f : Face} {id a b : PageId} :
    (f.freed id).Enters a b ↔ a ≠ id ∧ f.Enters a b := by
  by_cases ha : a = id
  · subst ha
    refine iff_of_false ?_ fun h => h.1 rfl
    exact not_enters_of_kind (Face.pages_set_self f
      (.make a f.pageSize .free (Bytes.ofU32 f.header.freeHead))) Page.kind_blank (by decide)
  · rw [and_iff_right ha]
    exact enters_congr (pages_freed_of_ne ha)

end Face

end PagedStore
