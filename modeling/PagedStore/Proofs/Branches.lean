import Mathlib.Algebra.Order.Group.Multiset
import Mathlib.Data.List.Forall2
import PagedStore.Proofs.Bisection
import PagedStore.Proofs.KeyOrder
import PagedStore.Tree.Remove

/-!
# Children between separators

The children of an interior node hold consecutive parts of its cells: a key separates what lies to
its left, which is less, from what lies to its right, which is not (`Branches`). What a child is,
is left open, so that the same facts serve before and after one of the children was changed.

A key leads to one child; the cells to the left of that child are less than the key and those to
its right are greater (`Branches.Way`). A change below the node concerns that child alone: around
it the node may take in more branches or lose the child.
-/

set_option autoImplicit false

namespace PagedStore.Tree

/-- Children separated by keys, the cells that they hold and the pages that they take up. -/
inductive Branches (S : PageId → List Cell → Multiset PageId → Prop) :
    PageId → List (Bytes × PageId) → List Cell → Multiset PageId → Prop where
  | last {id : PageId} {cells : List Cell} {pages : Multiset PageId} (child : S id cells pages) :
      Branches S id [] cells pages
  | cons {id next : PageId} {key : Bytes} {rest : List (Bytes × PageId)} {cells cells' : List Cell}
      {pages pages' : Multiset PageId} (child : S id cells pages)
      (less : ∀ c ∈ cells, KeyLt c.key key) (others : Branches S next rest cells' pages')
      (notLess : ∀ c ∈ cells', ¬ KeyLt c.key key) :
      Branches S id ((key, next) :: rest) (cells ++ cells') (pages + pages')

/-- Every child holds some cell. -/
def Filled (S : PageId → List Cell → Multiset PageId → Prop) : Prop :=
  ∀ ⦃id cells pages⦄, S id cells pages → cells ≠ []

/-- Pages each of which is the root of one part of a list of cells. -/
def Segments (S : PageId → List Cell → Multiset PageId → Prop) (ids : List PageId)
    (cells : List Cell) : Prop :=
  ∃ segs, List.Forall₂ (fun id seg => ∃ pages, S id seg pages) ids segs ∧ cells = segs.flatten

namespace Branches

variable {S S' : PageId → List Cell → Multiset PageId → Prop} {first child : PageId}
  {left right rest : List (Bytes × PageId)} {key : Bytes} {cells cells' : List Cell}
  {pages pages' : Multiset PageId}

theorem ne_nil (hS : Filled S) (h : Branches S first rest cells pages) : cells ≠ [] := by
  cases h with
  | last hchild => exact hS hchild
  | cons hchild => exact List.append_ne_nil_of_left_ne_nil (hS hchild) _

theorem mono (h : Branches S first rest cells pages)
    (hS : ∀ {id cs ps}, S id cs ps → (∀ p ∈ ps, p ∈ pages) → S' id cs ps) :
    Branches S' first rest cells pages := by
  induction h with
  | last hchild => exact .last (hS hchild fun _ hp => hp)
  | cons hchild hless hothers hnot ih =>
      refine .cons (hS hchild fun p hp => Multiset.mem_add.2 (.inl hp)) hless (ih ?_) hnot
      exact fun hs hps => hS hs fun p hp => Multiset.mem_add.2 (.inr (hps p hp))

/-! ## Joining and parting -/

/-- Branches to the left of a key and branches to its right are the branches of one node. -/
theorem append (hS : Filled S) (h : Branches S first left cells pages)
    (less : ∀ c ∈ cells, KeyLt c.key key) (h' : Branches S child right cells' pages')
    (notLess : ∀ c ∈ cells', ¬ KeyLt c.key key) :
    Branches S first (left ++ (key, child) :: right) (cells ++ cells') (pages + pages') := by
  induction h with
  | last hchild => exact .cons hchild less h' notLess
  | @cons id next k rest c₁ c₂ p₁ p₂ hchild hless hothers hnot ih =>
      have hrest := ih fun c hc => less c (List.mem_append_right _ hc)
      rw [List.cons_append, List.append_assoc, add_assoc]
      refine .cons hchild hless hrest fun c hc => ?_
      rcases List.mem_append.1 hc with hc | hc
      · exact hnot c hc
      · -- Some cell stands between the two keys.
        obtain ⟨a, ha⟩ := List.exists_mem_of_ne_nil _ (hothers.ne_nil hS)
        have hkeys : KeyLt k key := KeyLt.not_trans (hnot a ha) (less a (List.mem_append_right _ ha))
        exact fun hlt => notLess c hc (hlt.trans hkeys)

/-- The branches of a node part at each of its keys. -/
theorem split (hS : Filled S) (h : Branches S first (left ++ (key, child) :: right) cells pages) :
    ∃ c₁ c₂ p₁ p₂, cells = c₁ ++ c₂ ∧ pages = p₁ + p₂ ∧ Branches S first left c₁ p₁ ∧
      (∀ c ∈ c₁, KeyLt c.key key) ∧ Branches S child right c₂ p₂ ∧
      (∀ c ∈ c₂, ¬ KeyLt c.key key) := by
  induction left generalizing first cells pages with
  | nil =>
      cases h with
      | cons hchild hless hothers hnot =>
          exact ⟨_, _, _, _, rfl, rfl, .last hchild, hless, hothers, hnot⟩
  | cons b left ih =>
      cases h with
      | @cons _ next k _ c₁ _ p₁ _ hchild hless hothers hnot =>
          obtain ⟨c₂, c₃, p₂, p₃, rfl, rfl, hl, hl', hr, hr'⟩ := ih hothers
          refine ⟨c₁ ++ c₂, c₃, p₁ + p₂, p₃, (List.append_assoc ..).symm, (add_assoc ..).symm,
            .cons hchild hless hl fun c hc => hnot c (List.mem_append_left _ hc), ?_, hr, hr'⟩
          intro c hc
          rcases List.mem_append.1 hc with hc | hc
          · obtain ⟨a, ha⟩ := List.exists_mem_of_ne_nil _ (hl.ne_nil hS)
            exact (hless c hc).trans
              (KeyLt.not_trans (hnot a (List.mem_append_left _ ha)) (hl' a ha))
          · exact hl' c hc

/-- The keys of a node are in order, because no child is empty. -/
theorem inKeyOrder (hS : Filled S) (h : Branches S first rest cells pages) :
    InKeyOrder Prod.fst rest := by
  induction h with
  | last => exact List.Pairwise.nil
  | @cons id next key rest c₁ c₂ p₁ p₂ hchild hless hothers hnot ih =>
      refine List.pairwise_cons.2 ⟨?_, ih⟩
      rintro ⟨k, other⟩ hb
      obtain ⟨l, r, rfl⟩ := List.append_of_mem hb
      obtain ⟨c₃, c₄, p₃, p₄, rfl, rfl, hl, hl', -⟩ := hothers.split hS
      obtain ⟨a, ha⟩ := List.exists_mem_of_ne_nil _ (hl.ne_nil hS)
      exact KeyLt.not_trans (hnot a (List.mem_append_left _ ha)) (hl' a ha)

/-- The cells below a node are in order when those below each child are. -/
theorem cells_inKeyOrder (h : Branches S first rest cells pages)
    (hS : ∀ {id cs ps}, S id cs ps → InKeyOrder Cell.key cs) : InKeyOrder Cell.key cells := by
  induction h with
  | last hchild => exact hS hchild
  | cons hchild hless hothers hnot ih =>
      exact List.pairwise_append.2 ⟨hS hchild, ih, fun a ha b hb => (hless a ha).trans_not (hnot b hb)⟩

/-! ## Children in a row -/

theorem segments (h : Branches S first rest cells pages) :
    Segments S (Node.children first rest) cells := by
  induction h with
  | last hchild => exact ⟨[_], .cons ⟨_, hchild⟩ .nil, by simp⟩
  | cons hchild hless hothers hnot ih =>
      obtain ⟨segs, hsegs, rfl⟩ := ih
      exact ⟨_ :: segs, .cons ⟨_, hchild⟩ hsegs, List.flatten_cons.symm⟩

theorem card_pages (h : Branches S first rest cells pages) {n : Nat}
    (hS : ∀ {id cs ps}, S id cs ps → n ≤ ps.card) : n ≤ pages.card := by
  cases h with
  | last hchild => exact hS hchild
  | cons hchild =>
      rw [Multiset.card_add]
      exact Nat.le_trans (hS hchild) (Nat.le_add_right _ _)

theorem length_le (h : Branches S first rest cells pages) {k : Nat}
    (hS : ∀ {id cs ps}, S id cs ps → cs.length ≤ k * ps.card) :
    cells.length ≤ k * pages.card := by
  induction h with
  | last hchild => exact hS hchild
  | cons hchild hless hothers hnot ih =>
      rw [List.length_append, Multiset.card_add, Nat.mul_add]
      exact Nat.add_le_add (hS hchild) ih

/-! ## The way to a key -/

theorem childIndex_append {x : Bytes} (hl : ∀ b ∈ left, ¬ KeyLt x b.1)
    (hr : ∀ b ∈ right, KeyLt x b.1) : Node.childIndex x (left ++ right) = left.length := by
  refine partitionPoint_append (fun b hb => compare_isLE.2 (hl b hb)) fun b hb => ?_
  rw [← Bool.not_eq_true, compare_isLE]
  exact not_not_intro (hr b hb)

/-- The keys before the child to which a key leads are not greater, and those behind it are. -/
theorem exists_parts (h : InKeyOrder Prod.fst rest) (x : Bytes) :
    ∃ left right, rest = left ++ right ∧ (∀ b ∈ left, ¬ KeyLt x b.1) ∧ ∀ b ∈ right, KeyLt x b.1 := by
  obtain ⟨lower, same, upper, hp⟩ := Parted.exists_of_inKeyOrder h x
  refine ⟨lower ++ same.toList, upper, by rw [hp.eq, List.append_assoc], ?_, hp.above⟩
  intro b hb
  rcases List.mem_append.1 hb with hb | hb
  · exact (hp.below b hb).asymm
  · rw [hp.at_key b (Option.mem_toList.1 hb)]
    exact KeyLt.irrefl x

theorem childIndex_le (hS : Filled S) (h : Branches S first rest cells pages) (x : Bytes) :
    Node.childIndex x rest ≤ rest.length := by
  obtain ⟨left, right, rfl, hl, hr⟩ := exists_parts (h.inKeyOrder hS) x
  rw [childIndex_append hl hr, List.length_append]
  exact Nat.le_add_right _ _

/-- The way that a key `x` takes through a node: the cells and pages before the child with number
`i`, those of the child, and those behind it. -/
structure Way (S : PageId → List Cell → Multiset PageId → Prop) (x : Bytes) (first : PageId)
    (rest : List (Bytes × PageId)) (i : Nat) (lower mid upper : List Cell)
    (before here behind : Multiset PageId) : Prop where
  child : S (Node.child first rest i) mid here
  below : ∀ c ∈ lower, KeyLt c.key x
  above : ∀ c ∈ upper, KeyLt x c.key
  lefts : Segments S ((Node.children first rest).take i) lower
  rights : Segments S ((Node.children first rest).drop (i + 1)) upper
  /-- One or more branches with cells about the same keys may take the place of the child. -/
  replace : ∀ {S' : PageId → List Cell → Multiset PageId → Prop} {more : List (Bytes × PageId)}
    {mid' : List Cell} {here' : Multiset PageId}, Filled S' →
    (∀ {id cs ps}, S id cs ps → (∀ p ∈ ps, p ∈ before + behind) → S' id cs ps) →
    Branches S' (Node.child first rest i) more mid' here' →
    (∀ c ∈ mid', c.key = x ∨ ∃ a ∈ mid, a.key = c.key) →
    Branches S' first (rest.take i ++ (more ++ rest.drop i)) (lower ++ (mid' ++ upper))
      (before + (here' + behind))
  /-- The child may be taken away. -/
  drop : ∀ {S' : PageId → List Cell → Multiset PageId → Prop}, Filled S' →
    (∀ {id cs ps}, S id cs ps → (∀ p ∈ ps, p ∈ before + behind) → S' id cs ps) →
    match dropChild first rest i with
    | none => lower = [] ∧ upper = [] ∧ before = 0 ∧ behind = 0
    | some (.interior first' rest') =>
        rest'.Sublist rest ∧ Branches S' first' rest' (lower ++ upper) (before + behind)
    | some (.leaf _) => False

/-- Cells about the keys of other cells, or about one more key, have what those keys have. -/
theorem forall_key {P : Bytes → Prop} {x : Bytes} {mid mid' : List Cell}
    (hkeys : ∀ c ∈ mid', c.key = x ∨ ∃ a ∈ mid, a.key = c.key) (hx : P x)
    (hmid : ∀ a ∈ mid, P a.key) : ∀ c ∈ mid', P c.key := by
  intro c hc
  rcases hkeys c hc with heq | ⟨a, ha, heq⟩
  · rwa [heq]
  · rw [← heq]
    exact hmid a ha

/-- The way to a key that is less than all keys of the node. -/
theorem way_first {x : Bytes} (h : Branches S first right cells pages)
    (hr : ∀ b ∈ right, KeyLt x b.1) :
    ∃ mid upper here behind, cells = mid ++ upper ∧ pages = here + behind ∧
      Way S x first right 0 [] mid upper 0 here behind ∧
      ∀ b ∈ right.head?, ∀ c ∈ upper, ¬ KeyLt c.key b.1 := by
  have hnone : ∀ c ∈ ([] : List Cell), KeyLt c.key x := by simp
  have hleft : Segments S ((Node.children first right).take 0) [] := ⟨[], .nil, rfl⟩
  cases h with
  | last hchild =>
      -- The only child holds all cells, so nothing is left of the node without it.
      refine ⟨cells, [], pages, 0, (List.append_nil _).symm, (add_zero _).symm,
        ⟨hchild, hnone, by simp, hleft, ⟨[], .nil, rfl⟩, ?_, ?_⟩, by simp⟩
      · intro S' more mid' here' hS' hframe hmore hkeys
        rw [Node.child] at hmore
        simpa using hmore
      · intro S' hS' hframe
        exact ⟨rfl, rfl, rfl, rfl⟩
  | @cons _ next key rest mid upper here behind hchild hless hothers hnot =>
      have hx : KeyLt x key := hr (key, next) List.mem_cons_self
      refine ⟨mid, upper, here, behind, rfl, rfl, ⟨hchild, hnone, ?_, hleft, ?_, ?_, ?_⟩, ?_⟩
      · exact fun c hc => hx.trans_not (hnot c hc)
      · exact hothers.segments
      · intro S' more mid' here' hS' hframe hmore hkeys
        rw [Node.child] at hmore
        rw [zero_add] at hframe ⊢
        rw [List.take_zero, List.nil_append, List.nil_append, List.drop_zero]
        have hmid : ∀ c ∈ mid', KeyLt c.key key :=
          forall_key (P := fun k => KeyLt k key) hkeys hx hless
        exact hmore.append hS' hmid (hothers.mono hframe) hnot
      · -- The second child becomes the first, and the key between the two goes.
        intro S' hS' hframe
        rw [zero_add] at hframe
        refine ⟨List.sublist_cons_self .., ?_⟩
        rw [List.nil_append, zero_add]
        exact hothers.mono hframe
      · intro b hb c hc
        obtain rfl := Option.some.inj hb
        exact hnot c hc

theorem children_append :
    Node.children first (left ++ (key, child) :: right) =
      Node.children first left ++ Node.children child right := by
  rw [Node.children, Node.children, Node.children, List.map_append, List.map_cons,
    List.cons_append]

theorem child_append : Node.child first (left ++ (key, child) :: right) (left.length + 1) = child := by
  simp [Node.child]

section Extend

variable {x : Bytes} {lower mid upper : List Cell} {before here behind : Multiset PageId}

/-- What takes the place of the first child behind a key takes it in the whole node. -/
theorem Way.replace_behind {more : List (Bytes × PageId)} {mid' : List Cell}
    {here' : Multiset PageId} (hw : Way S x child right 0 [] mid upper 0 here behind)
    (hS' : Filled S') (hframe : ∀ {id cs ps}, S id cs ps → (∀ p ∈ ps, p ∈ behind) → S' id cs ps)
    (h : Branches S' first left lower before) (less : ∀ c ∈ lower, KeyLt c.key key)
    (hmore : Branches S' child more mid' here')
    (hkeys : ∀ c ∈ mid', c.key = x ∨ ∃ a ∈ mid, a.key = c.key) (hx : ¬ KeyLt x key)
    (notLess : ∀ c ∈ mid ++ upper, ¬ KeyLt c.key key) :
    Branches S' first (left ++ (key, child) :: (more ++ right)) (lower ++ (mid' ++ upper))
      (before + (here' + behind)) := by
  have hmid : ∀ c ∈ mid', ¬ KeyLt c.key key :=
    forall_key (P := fun k => ¬ KeyLt k key) hkeys hx fun a ha =>
      notLess a (List.mem_append_left _ ha)
  have hinner := hw.replace hS' (fun hs hps => hframe hs (by simpa using hps)) hmore hkeys
  rw [List.take_zero, List.nil_append, List.nil_append, List.drop_zero, zero_add] at hinner
  refine h.append hS' less hinner fun c hc => ?_
  rcases List.mem_append.1 hc with hc | hc
  · exact hmid c hc
  · exact notLess c (List.mem_append_right _ hc)

/-- Without the first child behind a key the branches to its left remain, and those behind the
next key if there is one. -/
theorem Way.drop_behind (hw : Way S x child right 0 [] mid upper 0 here behind)
    (hS' : Filled S') (hframe : ∀ {id cs ps}, S id cs ps → (∀ p ∈ ps, p ∈ behind) → S' id cs ps)
    (h : Branches S' first left lower before) (hlower : ∀ c ∈ lower, KeyLt c.key x)
    (hr : ∀ b ∈ right, KeyLt x b.1) (hup : ∀ b ∈ right.head?, ∀ c ∈ upper, ¬ KeyLt c.key b.1) :
    Branches S' first (left ++ right) (lower ++ upper) (before + behind) := by
  have hdrop := hw.drop hS' fun hs hps => hframe hs (by simpa using hps)
  cases right with
  | nil =>
      obtain ⟨-, hupper, -, hbehind⟩ := hdrop
      rw [hupper, hbehind, List.append_nil, List.append_nil, add_zero]
      exact h
  | cons b rest =>
      obtain ⟨-, hrest⟩ := hdrop
      rw [List.nil_append, zero_add] at hrest
      have hb : KeyLt x b.1 := hr b List.mem_cons_self
      exact h.append hS' (fun c hc => (hlower c hc).trans hb) hrest (hup b rfl)

/-- The way to a key in the part of a node behind one of its keys is one in the whole node. -/
theorem Way.extend (hw : Way S x child right 0 [] mid upper 0 here behind)
    (hup : ∀ b ∈ right.head?, ∀ c ∈ upper, ¬ KeyLt c.key b.1) (hr : ∀ b ∈ right, KeyLt x b.1)
    (h : Branches S first left lower before) (less : ∀ c ∈ lower, KeyLt c.key key)
    (notLess : ∀ c ∈ mid ++ upper, ¬ KeyLt c.key key) (hx : ¬ KeyLt x key) :
    Way S x first (left ++ (key, child) :: right) (left.length + 1) lower mid upper
      before here behind := by
  have hlength : (Node.children first left).length = left.length + 1 := by
    rw [Node.children, List.length_cons, List.length_map]
  have hlower : ∀ c ∈ lower, KeyLt c.key x := fun c hc => (less c hc).trans_not hx
  refine ⟨?_, hlower, hw.above, ?_, ?_, ?_, ?_⟩
  · rw [child_append]
    exact hw.child
  · rw [children_append, ← hlength, List.take_left]
    exact h.segments
  · rw [children_append, ← hlength, ← List.drop_drop, List.drop_left]
    exact hw.rights
  · intro S' more mid' here' hS' hframe hmore hkeys
    rw [child_append] at hmore
    have hfirst : Branches S' first left lower before := h.mono fun hs hps =>
      hframe hs fun p hp => Multiset.mem_add.2 (.inl (hps p hp))
    have hall := hw.replace_behind hS' (fun hs hps => hframe hs fun p hp =>
      Multiset.mem_add.2 (.inr (hps p hp))) hfirst less hmore hkeys hx notLess
    have htake : (left ++ (key, child) :: right).take (left.length + 1) =
        left ++ [(key, child)] := by
      simp [List.take_append]
    have hdrop : (left ++ (key, child) :: right).drop (left.length + 1) = right := by
      simp [List.drop_append]
    rw [htake, hdrop, List.append_assoc, List.singleton_append]
    exact hall
  · intro S' hS' hframe
    have hfirst : Branches S' first left lower before := h.mono fun hs hps =>
      hframe hs fun p hp => Multiset.mem_add.2 (.inl (hps p hp))
    have hall := hw.drop_behind hS' (fun hs hps => hframe hs fun p hp =>
      Multiset.mem_add.2 (.inr (hps p hp))) hfirst hlower hr hup
    have herase : (left ++ (key, child) :: right).eraseIdx left.length = left ++ right := by
      rw [List.eraseIdx_append_of_length_le (Nat.le_refl _), Nat.sub_self, List.eraseIdx_cons_zero]
    rw [dropChild]
    simp only [herase]
    exact ⟨List.Sublist.append_left (List.sublist_cons_self ..) left, hall⟩

end Extend

/-- **The way to a key leads through one child.** -/
theorem exists_way (hS : Filled S) (h : Branches S first rest cells pages) (x : Bytes) :
    ∃ lower mid upper before here behind, cells = lower ++ (mid ++ upper) ∧
      pages = before + (here + behind) ∧
      Way S x first rest (Node.childIndex x rest) lower mid upper before here behind := by
  obtain ⟨left, right, rfl, hl, hr⟩ := exists_parts (h.inKeyOrder hS) x
  rw [childIndex_append hl hr]
  -- The last key that is not greater parts the node: the way leads through what is behind it.
  rcases List.eq_nil_or_concat left with rfl | ⟨left, ⟨key, child⟩, rfl⟩
  · obtain ⟨mid, upper, here, behind, rfl, rfl, hw, -⟩ := h.way_first hr
    exact ⟨[], mid, upper, 0, here, behind, rfl, (zero_add _).symm, hw⟩
  · rw [List.concat_eq_append, List.append_assoc, List.singleton_append] at h ⊢
    obtain ⟨lower, _, before, _, rfl, rfl, hleft, less, hright, notLess⟩ := h.split hS
    obtain ⟨mid, upper, here, behind, rfl, rfl, hw, hup⟩ := hright.way_first hr
    rw [List.length_append, List.length_singleton]
    exact ⟨lower, mid, upper, before, here, behind, rfl, rfl,
      hw.extend hup hr hleft less notLess (hl (key, child) (by simp))⟩

end Branches

end PagedStore.Tree
