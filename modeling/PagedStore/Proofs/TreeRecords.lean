import PagedStore.Proofs.Contents
import PagedStore.Proofs.StoredValues
import PagedStore.Proofs.TreeRemoval

/-!
# The records of a tree

A file stores a map when the cells of its tree stand for the records in the order of their keys,
every page is a node of the tree, a page of the chain of one cell, or free, and the header counts
the cells (`Stores`). Inserting, removing and looking up do to the map what their names say.
-/

set_option autoImplicit false

namespace PagedStore.Tree

open PagedStore.Action Pager

/-! ## Cells and records -/

/-- Cells stand for records, and own the pages of the chains of their values. -/
inductive Records [Codec] (f : Face) :
    List Cell → List (Bytes × Bytes) → Multiset PageId → Prop where
  | nil : Records f [] [] 0
  | cons {c : Cell} {v : Bytes} {cells : List Cell} {records : List (Bytes × Bytes)}
      {own others : Multiset PageId} (value : ValueAt f c.value v own)
      (rest : Records f cells records others) :
      Records f (c :: cells) ((c.key, v) :: records) (own + others)

namespace Records

variable {f g : Face} {cells cells' : List Cell} {records records' : List (Bytes × Bytes)}
  {pages pages' : Multiset PageId}

variable [Codec]

theorem eq_nil (h : Records f [] records pages) : records = [] ∧ pages = 0 := by
  cases h
  exact ⟨rfl, rfl⟩

theorem eq_singleton {c : Cell} (h : Records f [c] records pages) :
    ∃ v, records = [(c.key, v)] ∧ ValueAt f c.value v pages := by
  cases h with
  | @cons _ v _ _ own _ hvalue hrest =>
      obtain ⟨rfl, rfl⟩ := hrest.eq_nil
      exact ⟨v, rfl, (add_zero own).symm ▸ hvalue⟩

theorem congr (h : Records f cells records pages) (hpages : ∀ p ∈ pages, g.pages p = f.pages p)
    (hsize : g.pageSize = f.pageSize) : Records g cells records pages := by
  induction h with
  | nil => exact .nil
  | cons hvalue hrest ih =>
      refine .cons (hvalue.congr (fun p hp => ?_) hsize) (ih fun p hp => ?_)
      · exact hpages p (Multiset.mem_add.2 (.inl hp))
      · exact hpages p (Multiset.mem_add.2 (.inr hp))

theorem kept {kept : Multiset PageId} (h : Records f cells records pages) (hk : Kept kept f g)
    (hpages : ∀ p ∈ pages, p ∈ kept) : Records g cells records pages :=
  h.congr (fun p hp => hk.pages p (hpages p hp)) hk.pageSize

theorem append (h : Records f cells records pages) (h' : Records f cells' records' pages') :
    Records f (cells ++ cells') (records ++ records') (pages + pages') := by
  induction h with
  | nil =>
      rw [zero_add]
      exact h'
  | cons hvalue hrest ih =>
      rw [add_assoc]
      exact .cons hvalue ih

theorem split (h : Records f (cells ++ cells') records pages) :
    ∃ r₁ r₂ p₁ p₂, records = r₁ ++ r₂ ∧ pages = p₁ + p₂ ∧ Records f cells r₁ p₁ ∧
      Records f cells' r₂ p₂ := by
  induction cells generalizing records pages with
  | nil => exact ⟨[], records, 0, pages, rfl, (zero_add _).symm, .nil, h⟩
  | cons c cells ih =>
      cases h with
      | @cons _ v _ _ own _ hvalue hrest =>
          obtain ⟨r₁, r₂, p₁, p₂, rfl, rfl, h₁, h₂⟩ := ih hrest
          exact ⟨(c.key, v) :: r₁, r₂, own + p₁, p₂, rfl, (add_assoc ..).symm, .cons hvalue h₁, h₂⟩

theorem reverse (h : Records f cells records pages) :
    Records f cells.reverse records.reverse pages := by
  induction h with
  | nil => exact .nil
  | @cons c v cells records own others hvalue hrest ih =>
      have hlast := ih.append (.cons hvalue .nil)
      rw [List.reverse_cons, List.reverse_cons, add_comm own]
      rwa [add_zero] at hlast

theorem keys_eq (h : Records f cells records pages) :
    records.map Prod.fst = cells.map Cell.key := by
  induction h with
  | nil => rfl
  | cons hvalue hrest ih => rw [List.map_cons, List.map_cons, ih]

theorem length_eq (h : Records f cells records pages) : records.length = cells.length := by
  have hlen := congrArg List.length h.keys_eq
  rwa [List.length_map, List.length_map] at hlen

/-- What holds of the keys of the cells holds of the keys of the records. -/
theorem forall_key (h : Records f cells records pages) (P : Bytes → Prop)
    (hP : ∀ c ∈ cells, P c.key) : ∀ r ∈ records, P r.1 := by
  intro r hr
  have hmem : r.1 ∈ cells.map Cell.key := h.keys_eq ▸ List.mem_map_of_mem hr
  obtain ⟨c, hc, heq⟩ := List.mem_map.1 hmem
  rw [← heq]
  exact hP c hc

/-- A cut of the cells is a cut of the records. -/
theorem parted {key : Bytes} {lower upper : List Cell} {same : Option Cell}
    (h : Records f cells records pages) (hp : Parted Cell.key key cells lower same upper) :
    ∃ r₁ r₂ r₃ p₁ p₂ p₃, pages = p₁ + (p₂ + p₃) ∧ Records f lower r₁ p₁ ∧
      Records f same.toList r₂.toList p₂ ∧ Records f upper r₃ p₃ ∧
      Parted Prod.fst key records r₁ r₂ r₃ ∧ r₂.isSome = same.isSome := by
  obtain ⟨rfl⟩ := hp.eq
  obtain ⟨r₁, r₂₃, p₁, p₂₃, rfl, rfl, h₁, h₂₃⟩ := h.split
  obtain ⟨r₂, r₃, p₂, p₃, rfl, rfl, h₂, h₃⟩ := h₂₃.split
  cases same with
  | none =>
      obtain ⟨rfl, rfl⟩ := h₂.eq_nil
      exact ⟨r₁, none, r₃, p₁, 0, p₃, rfl, h₁, .nil, h₃,
        ⟨rfl, h₁.forall_key (KeyLt · key) hp.below, by simp, h₃.forall_key (KeyLt key ·) hp.above⟩,
        rfl⟩
  | some c =>
      obtain ⟨v, rfl, hvalue⟩ := h₂.eq_singleton
      refine ⟨r₁, some (c.key, v), r₃, p₁, p₂, p₃, rfl, h₁, h₂, h₃,
        ⟨rfl, h₁.forall_key (KeyLt · key) hp.below, ?_, h₃.forall_key (KeyLt key ·) hp.above⟩, rfl⟩
      rintro r hr
      obtain rfl := Option.some.inj hr
      exact hp.at_key c rfl

end Records

/-! ## Files that store records -/

/-- The tree whose root the header names: its cells, and the pages of its nodes. -/
inductive Rooted (f : Face) : List Cell → Multiset PageId → Prop where
  | empty (noRoot : f.header.root = 0) : Rooted f [] 0
  | tree {n : Nat} {cells : List Cell} {nodes : Multiset PageId}
      (subtree : Subtree f n f.header.root cells nodes) : Rooted f cells nodes

/-- The cells of a file, the records that they stand for, the pages of the nodes and those of the
chains. The root does not only lead to a single child. -/
structure Keeps [Codec] (f : Face) (cells : List Cell) (records : List (Bytes × Bytes))
    (nodes chains : Multiset PageId) : Prop where
  rooted : Rooted f cells nodes
  records : Records f cells records chains
  balanced : Balanced f (nodes + chains)
  counted : f.header.recordCount.toNat = cells.length
  keyed : f.RootKeyed

/-- A file stores a map. -/
def Stores [Codec] (f : Face) (m : Contents) : Prop :=
  ∃ cells nodes chains, Keeps f cells m.toList nodes chains

section

variable {f g : Face} {n : Nat} {id : PageId} {cells : List Cell} {records : List (Bytes × Bytes)}
  {nodes chains : Multiset PageId} {m : Contents} {E : Error → Prop}

theorem Subtree.root_ne_zero (h : Subtree f n id cells nodes) (hs : f.Sane) : id ≠ 0 := by
  obtain ⟨node, below, hpage, -⟩ := h
  exact (hs.page id _ hpage).2.1.1

/-- A tree without a root has no cells. -/
theorem Rooted.eq_empty (h : Rooted f cells nodes) (hs : f.Sane) (h0 : f.header.root = 0) :
    cells = [] ∧ nodes = 0 := by
  cases h with
  | empty => exact ⟨rfl, rfl⟩
  | tree htree => exact absurd h0 (htree.root_ne_zero hs)

theorem Rooted.exists_tree (h : Rooted f cells nodes) (h0 : f.header.root ≠ 0) :
    ∃ n, Subtree f n f.header.root cells nodes := by
  cases h with
  | empty hnone => exact absurd hnone h0
  | tree htree => exact ⟨_, htree⟩

/-- **No way down is longer than the limit**: a tree is not as deep as the file has pages. -/
theorem Subtree.does_depthLimit {used : Multiset PageId} (h : Subtree f n id cells nodes)
    (hb : Balanced f (nodes + used)) : Does f depthLimit E fun fuel g => g = f ∧ n < fuel := by
  have hdepth := h.depth_lt
  have hcard := hb.card_lt
  rw [Multiset.card_add] at hcard
  refine .self_bind fun p hh _ _ => .pure ⟨rfl, ?_⟩
  rw [hh]
  omega

/-- The number of cells is within the range of its counter. -/
theorem Rooted.length_lt {used : Multiset PageId} (h : Rooted f cells nodes)
    (hb : Balanced f (nodes + used)) (hs : f.Sane) : cells.length < UInt64.size := by
  have hcard := hb.card_lt
  have hcount : f.header.pageCount.toNat < UInt32.size := f.header.pageCount.toNat_lt
  have hbounds := hs.bounds
  rw [Multiset.card_add] at hcard
  have hnodes : nodes.card < UInt32.size := by omega
  cases h with
  | empty => exact Nat.succ_pos _
  | tree htree =>
      calc cells.length ≤ f.pageSize * nodes.card := htree.length_le
        _ ≤ 65536 * nodes.card := Nat.mul_le_mul_right _ hbounds.2
        _ < 65536 * UInt32.size := Nat.mul_lt_mul_of_pos_left hnodes (by decide)
        _ ≤ UInt64.size := by decide

/-! ## Looking up -/

variable [Codec]

/-- The record of a cell that was found. -/
theorem does_found {q : Bytes → Bool} {used : Multiset PageId}
    (h : Records f cells records chains) (hb : Balanced f (chains + used)) :
    Does f (match cells.find? fun c => q c.key with
        | none => return none
        | some c => return some (← record c)) E fun r g =>
      g = f ∧ r = records.find? fun r => q r.1 := by
  -- Cells and records stand side by side, so the first of either is found at the same place.
  induction h generalizing used with
  | nil => exact .pure ⟨rfl, rfl⟩
  | @cons c v cells records own others hvalue hrest ih =>
      cases hq : q c.key with
      | false =>
          rw [List.find?_cons_of_neg (by simp [hq]), List.find?_cons_of_neg (by simp [hq])]
          have hsplit : own + others + used = others + (own + used) := by ac_rfl
          rw [hsplit] at hb
          exact ih hb
      | true =>
          rw [List.find?_cons_of_pos (by simp [hq]), List.find?_cons_of_pos (by simp [hq])]
          rw [add_assoc] at hb
          refine .bind (Q := fun r g => g = f ∧ r = (c.key, v)) ?_ ?_
          · refine .bind (hvalue.read hb) ?_
            rintro x g ⟨rfl, rfl⟩
            exact .pure ⟨rfl, rfl⟩
          · rintro r g ⟨rfl, rfl⟩
            exact .pure ⟨rfl, rfl⟩

/-- What a search of the whole file gives, told by the cell that a search of the tree finds. -/
theorem does_fromRoot {search : (fuel : Nat) → PageId → Action Pager (Option Cell)}
    {found : Option Cell} {x : Option (Bytes × Bytes)} (hk : Keeps f cells records nodes chains)
    (hsearch : ∀ {n fuel}, Subtree f n f.header.root cells nodes → n < fuel →
      Does f (search fuel f.header.root) E fun r g => g = f ∧ r = found)
    (hrecord : Does f (match found with
        | none => return none
        | some c => return some (← record c)) E fun r g => g = f ∧ r = x)
    (hempty : records = [] → x = none) :
    Does f (fromRoot search) E fun r g => g = f ∧ r = x := by
  refine .of_sane fun hs => .self_bind fun p hh _ _ => ?_
  rw [hh]
  by_cases h0 : f.header.root = 0
  · obtain ⟨rfl, rfl⟩ := hk.rooted.eq_empty hs h0
    rw [if_pos h0, hempty (List.length_eq_zero_iff.1 hk.records.length_eq)]
    exact .pure ⟨rfl, rfl⟩
  · obtain ⟨n, htree⟩ := hk.rooted.exists_tree h0
    rw [if_neg h0]
    refine .bind (htree.does_depthLimit hk.balanced) ?_
    rintro fuel g ⟨rfl, hfuel⟩
    refine .bind (hsearch htree hfuel) ?_
    rintro r g' ⟨rfl, rfl⟩
    exact hrecord

variable {search : (fuel : Nat) → PageId → Action Pager (Option Cell)} {q : Bytes → Bool}

/-- **A search for the first cell** with some property of its key finds the first such record. -/
theorem does_fromRoot_find? (h : Stores f m)
    (hsearch : ∀ {n fuel id cells nodes}, Subtree f n id cells nodes → n < fuel →
      Does f (search fuel id) E fun r g => g = f ∧ r = cells.find? fun c => q c.key) :
    Does f (fromRoot search) E fun r g => g = f ∧ r = m.toList.find? fun r => q r.1 := by
  obtain ⟨cells, nodes, chains, hk⟩ := h
  have hb := hk.balanced
  rw [add_comm] at hb
  refine does_fromRoot hk hsearch (does_found hk.records hb) fun hnil => ?_
  rw [hnil]
  rfl

/-- **A search for the last cell** with some property of its key finds the last such record. -/
theorem does_fromRoot_reverse (h : Stores f m)
    (hsearch : ∀ {n fuel id cells nodes}, Subtree f n id cells nodes → n < fuel →
      Does f (search fuel id) E fun r g => g = f ∧ r = cells.reverse.find? fun c => q c.key) :
    Does f (fromRoot search) E fun r g => g = f ∧ r = m.toList.reverse.find? fun r => q r.1 := by
  obtain ⟨cells, nodes, chains, hk⟩ := h
  have hb := hk.balanced
  rw [add_comm] at hb
  refine does_fromRoot hk hsearch (does_found hk.records.reverse hb) fun hnil => ?_
  rw [hnil]
  rfl

end

end PagedStore.Tree
