import PagedStore.Proofs.TreeRecords

/-!
# The owners of pages

Every page of a file that stores a map belongs to one owner: it is a node of the tree, or a page
of the chain of one cell, or free. So no page is lost and none serves two purposes, and a file
whose map is empty has free pages only.
-/

set_option autoImplicit false

namespace PagedStore.Tree

variable {f : Face} {m : Contents} {cells : List Cell} {nodes chains : Multiset PageId}
  {free : List PageId}

variable [Codec]

/-- The pages of a file that stores a map, told apart by their owners. The nodes are those that
are met on the ways down from the root, and the chains are those of the cells in the leaves. -/
structure Owned (f : Face) (m : Contents) (cells : List Cell) (nodes chains : Multiset PageId)
    (free : List PageId) : Prop where
  rooted : Rooted f cells nodes
  records : Records f cells m.toList chains
  listed : FreeList f f.header.freeHead free
  acyclic : free.Nodup
  freeCount : f.header.freeCount.toNat = free.length
  recordCount : f.header.recordCount.toNat = cells.length
  pageCount : f.header.pageCount.toNat = nodes.card + chains.card + free.length + 1
  once : ∀ id, f.Has id → nodes.count id + chains.count id + free.count id = 1
  never : ∀ id, ¬ f.Has id → nodes.count id + chains.count id + free.count id = 0

/-- **The pages of a file that stores a map have one owner each.** -/
theorem Stores.owned (h : Stores f m) : ∃ cells nodes chains free,
    Owned f m cells nodes chains free := by
  obtain ⟨cells, nodes, chains, hrooted, hrecords, ⟨free, hb⟩, hcount, -⟩ := h
  have hsum : ∀ id, nodes.count id + chains.count id + free.count id =
      (nodes + chains + (free : Multiset PageId)).count id := fun id => by
    rw [Multiset.count_add, Multiset.count_add, Multiset.coe_count]
  refine ⟨cells, nodes, chains, free, hrooted, hrecords, hb.listed, ?_, hb.counted, hcount, ?_,
    fun id hid => ?_, fun id hid => ?_⟩
  · exact Multiset.coe_nodup.1 (Multiset.nodup_add.1 hb.once).2.1
  · rw [← hb.card_succ, Multiset.card_add]
  · rw [hsum]
    exact Multiset.count_eq_one_of_mem hb.once ((hb.all id).2 hid)
  · rw [hsum]
    exact Multiset.count_eq_zero_of_notMem fun hmem => hid ((hb.all id).1 hmem)

omit [Codec] in
/-- A tree with a root has cells. -/
theorem Rooted.root_eq_zero (h : Rooted f [] nodes) : f.header.root = 0 ∧ nodes = 0 := by
  cases h with
  | empty hnone => exact ⟨hnone, rfl⟩
  | tree htree => exact absurd rfl (subtree_filled f _ htree)

/-- **A file with the empty map** has no root, and all its pages are free. -/
theorem Owned.emptied (h : Owned f m cells nodes chains free) (hm : m = ∅) :
    f.header.root = 0 ∧ f.header.freeCount.toNat + 1 = f.header.pageCount.toNat := by
  have hnil : m.toList = [] := Std.ExtTreeMap.toList_eq_nil_iff.2 hm
  have hrecords := h.records
  rw [hnil] at hrecords
  obtain rfl : cells = [] := List.length_eq_zero_iff.1 hrecords.length_eq.symm
  obtain ⟨-, rfl⟩ := hrecords.eq_nil
  obtain ⟨hroot, rfl⟩ := h.rooted.root_eq_zero
  refine ⟨hroot, ?_⟩
  rw [h.freeCount, h.pageCount, Multiset.card_zero]
  omega

end PagedStore.Tree
