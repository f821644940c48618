import PagedStore.Proofs.Sessions

/-!
# Search trees

What makes a tree fit for searching is told here from the pages alone, without the cells and the
pages that a proof counts along (`SearchTree`). Each page that is met on a way down from the root
has a range of keys: the keys beside the way, at every node from the root on, are its bounds
(`Located`). The keys of a node lie in its range, and so do all keys below it.

A file that stores a map has such a tree, and so has the file of a session after any calls, except
after a commit that was made to stop.
-/

set_option autoImplicit false

namespace PagedStore

namespace Tree

open Pager

/-! ## Ranges of keys -/

/-- The keys that are not less than a lower bound and less than an upper one. Either bound may be
missing. -/
structure KeyRange where
  low : Option Bytes
  high : Option Bytes

namespace KeyRange

/-- All keys. -/
def all : KeyRange := ⟨none, none⟩

/-- A key lies in the range. -/
def Has (r : KeyRange) (key : Bytes) : Prop :=
  (∀ a ∈ r.low, ¬ KeyLt key a) ∧ ∀ b ∈ r.high, KeyLt key b

/-- A key lies in the range and is not its lower bound. -/
def Inside (r : KeyRange) (key : Bytes) : Prop :=
  (∀ a ∈ r.low, KeyLt a key) ∧ ∀ b ∈ r.high, KeyLt key b

/-- What a node with the given keys leaves of its range to the child with a number: the keys from
the one before the child up to the one behind it. -/
def child (r : KeyRange) (keys : List Bytes) (i : Nat) : KeyRange :=
  ⟨if i = 0 then r.low else keys[i - 1]?, keys[i]?.or r.high⟩

theorem has_all (key : Bytes) : all.Has key := ⟨by simp [all], by simp [all]⟩

theorem child_cons_zero (r : KeyRange) (key : Bytes) (keys : List Bytes) :
    r.child (key :: keys) 0 = ⟨r.low, some key⟩ := rfl

theorem child_cons_succ (r : KeyRange) (key : Bytes) (keys : List Bytes) (i : Nat) :
    r.child (key :: keys) (i + 1) = (⟨some key, r.high⟩ : KeyRange).child keys i := by
  cases i with
  | zero => rfl
  | succ i => rfl

end KeyRange

/-! ## Pages below the root -/

/-- A page that is met so many steps below the root, and the range that is left to it there. -/
inductive Located (f : Face) : Nat → KeyRange → PageId → Prop where
  | root (some : f.header.root ≠ 0) : Located f 0 .all f.header.root
  | child {depth i : Nat} {r : KeyRange} {id first other : PageId} {rest : List (Bytes × PageId)}
      (parent : Located f depth r id) (node : f.node id = .ok (.interior first rest))
      (isChild : (Node.children first rest)[i]? = some other) :
      Located f (depth + 1) (r.child (rest.map Prod.fst) i) other

/-- Nothing is met in a file that has no root. -/
theorem Located.root_ne_zero {f : Face} {depth : Nat} {r : KeyRange} {id : PageId}
    (h : Located f depth r id) : f.header.root ≠ 0 := by
  induction h with
  | root hsome => exact hsome
  | child _ _ _ ih => exact ih

/-- A key is stored in a leaf at or below a page. -/
inductive Below (f : Face) (key : Bytes) : PageId → Prop where
  | leaf {id : PageId} {cells : List Cell} (node : f.node id = .ok (.leaf cells))
      (isKey : key ∈ cells.map Cell.key) : Below f key id
  | child {id first other : PageId} {rest : List (Bytes × PageId)}
      (node : f.node id = .ok (.interior first rest)) (isChild : other ∈ Node.children first rest)
      (below : Below f key other) : Below f key id

/-- **A tree in which keys can be searched for**, with its leaves so many steps below the root. -/
structure SearchTree (f : Face) (height : Nat) : Prop where
  /-- Every page that is met holds a node, and the node fits its page. -/
  node {depth : Nat} {r : KeyRange} {id : PageId} (h : Located f depth r id) :
    ∃ node, f.node id = .ok node ∧ node.fits f.pageSize = true
  /-- All leaves lie at the same depth. -/
  leaf_depth {depth : Nat} {r : KeyRange} {id : PageId} {cells : List Cell}
    (h : Located f depth r id) (hnode : f.node id = .ok (.leaf cells)) : depth = height
  /-- No leaf is empty. -/
  leaf_ne_nil {depth : Nat} {r : KeyRange} {id : PageId} {cells : List Cell}
    (h : Located f depth r id) (hnode : f.node id = .ok (.leaf cells)) : cells ≠ []
  /-- The keys of a leaf increase. -/
  leaf_order {depth : Nat} {r : KeyRange} {id : PageId} {cells : List Cell}
    (h : Located f depth r id) (hnode : f.node id = .ok (.leaf cells)) : InKeyOrder Cell.key cells
  /-- An interior node has one child more than keys. -/
  children {depth : Nat} {r : KeyRange} {id first : PageId} {rest : List (Bytes × PageId)}
    (h : Located f depth r id) (hnode : f.node id = .ok (.interior first rest)) :
    (Node.children first rest).length = (rest.map Prod.fst).length + 1
  /-- The keys of an interior node increase. -/
  interior_order {depth : Nat} {r : KeyRange} {id first : PageId} {rest : List (Bytes × PageId)}
    (h : Located f depth r id) (hnode : f.node id = .ok (.interior first rest)) :
    InKeyOrder Prod.fst rest
  /-- They lie in the range of the node, and none is its lower bound. -/
  separators {depth : Nat} {r : KeyRange} {id first : PageId} {rest : List (Bytes × PageId)}
    (h : Located f depth r id) (hnode : f.node id = .ok (.interior first rest)) :
    ∀ key ∈ rest.map Prod.fst, r.Inside key
  /-- All keys at or below a page lie in its range. -/
  keys {depth : Nat} {r : KeyRange} {id : PageId} {key : Bytes} (h : Located f depth r id)
    (hkey : Below f key id) : r.Has key
  /-- The root is no interior node without keys. -/
  root : f.RootKeyed

/-- The keys below a child lie between the keys beside it, and in the range of its parent. -/
theorem SearchTree.child_keys {f : Face} {height depth i : Nat} {r : KeyRange}
    {id first other : PageId} {rest : List (Bytes × PageId)} {key : Bytes} (h : SearchTree f height)
    (hid : Located f depth r id) (hnode : f.node id = .ok (.interior first rest))
    (hother : (Node.children first rest)[i]? = some other) (hkey : Below f key other) :
    (r.child (rest.map Prod.fst) i).Has key ∧ r.Has key :=
  ⟨h.keys (.child hid hnode hother) hkey,
    h.keys hid (.child hnode (List.mem_of_getElem? hother) hkey)⟩

/-! ## Children and their ranges -/

namespace Branches

variable {S : PageId → List Cell → Multiset PageId → Prop} {first other : PageId}
  {rest : List (Bytes × PageId)} {cells : List Cell} {pages : Multiset PageId} {r : KeyRange}

/-- Each child holds a part of the cells. -/
theorem exists_of_mem (h : Branches S first rest cells pages)
    (hother : other ∈ Node.children first rest) :
    ∃ own pages', S other own pages' ∧ own ⊆ cells := by
  induction h with
  | @last id own pages' hchild =>
      obtain rfl : other = id := by simpa [Node.children] using hother
      exact ⟨own, pages', hchild, fun _ hc => hc⟩
  | @cons id next key rest own others pages' _ hchild hless hothers hnot ih =>
      rcases List.mem_cons.1 hother with rfl | hother
      · exact ⟨own, pages', hchild, fun _ hc => List.mem_append_left _ hc⟩
      · obtain ⟨own', pages'', hsub, hown⟩ := ih hother
        exact ⟨own', pages'', hsub, fun _ hc => List.mem_append_right _ (hown hc)⟩

/-- A child holds those of the cells that lie in its range. -/
theorem child_in_range {i : Nat} (h : Branches S first rest cells pages)
    (hcells : ∀ c ∈ cells, r.Has c.key) (hother : (Node.children first rest)[i]? = some other) :
    ∃ own pages', S other own pages' ∧ ∀ c ∈ own, (r.child (rest.map Prod.fst) i).Has c.key := by
  induction h generalizing r i with
  | @last id own pages' hchild =>
      cases i with
      | zero =>
          obtain rfl : id = other := by simpa [Node.children] using hother
          exact ⟨own, pages', hchild, hcells⟩
      | succ i => simp [Node.children] at hother
  | @cons id next key rest own others pages' _ hchild hless hothers hnot ih =>
      cases i with
      | zero =>
          obtain rfl : id = other := by simpa [Node.children] using hother
          refine ⟨own, pages', hchild, fun c hc => ?_⟩
          rw [List.map_cons, KeyRange.child_cons_zero]
          refine ⟨(hcells c (List.mem_append_left _ hc)).1, fun b hb => ?_⟩
          obtain rfl := Option.some.inj hb
          exact hless c hc
      | succ i =>
          -- The key of the first branch is the lower bound of what is to the right of it.
          rw [List.map_cons, KeyRange.child_cons_succ]
          refine ih (fun c hc => ⟨fun a ha => ?_, ?_⟩) hother
          · obtain rfl := Option.some.inj ha
            exact hnot c hc
          · exact (hcells c (List.mem_append_right _ hc)).2

/-- Each key of a node has a cell to its left and one to its right, so that it lies inside of any
range in which the cells lie. -/
theorem separators_inside (hS : Filled S) (h : Branches S first rest cells pages)
    (hcells : ∀ c ∈ cells, r.Has c.key) : ∀ key ∈ rest.map Prod.fst, r.Inside key := by
  intro key hkey
  obtain ⟨⟨_, next⟩, hb, rfl⟩ := List.mem_map.1 hkey
  obtain ⟨left, right, rfl⟩ := List.append_of_mem hb
  obtain ⟨lower, upper, _, _, rfl, -, hleft, hless, hright, hnot⟩ := h.split hS
  obtain ⟨a, ha⟩ := List.exists_mem_of_ne_nil _ (hleft.ne_nil hS)
  obtain ⟨b, hb⟩ := List.exists_mem_of_ne_nil _ (hright.ne_nil hS)
  constructor
  · intro low hlow
    exact KeyLt.not_trans ((hcells a (List.mem_append_left _ ha)).1 low hlow) (hless a ha)
  · intro high hhigh
    exact KeyLt.not_trans (hnot b hb) ((hcells b (List.mem_append_right _ hb)).2 high hhigh)

end Branches

/-! ## The tree of a file -/

section

variable {f : Face} {n depth : Nat} {id : PageId} {cells : List Cell} {nodes : Multiset PageId}
  {r : KeyRange} {key : Bytes}

theorem Subtree.node_zero (hs : f.Sane) (h : Subtree f 0 id cells nodes) :
    f.node id = .ok (.leaf cells) ∧ (Node.leaf cells).fits f.pageSize = true ∧ cells ≠ [] ∧
      InKeyOrder Cell.key cells := by
  obtain ⟨node, below, hpage, hfits, -, hbody⟩ := h
  obtain ⟨rfl, -, hne, horder, -⟩ := hbody.eq_leaf
  exact ⟨node_of_page hs hpage hfits, hfits, hne, horder⟩

theorem Subtree.node_succ (hs : f.Sane) (h : Subtree f (n + 1) id cells nodes) :
    ∃ first rest below, f.node id = .ok (.interior first rest) ∧
      (Node.interior first rest).fits f.pageSize = true ∧
      Branches (Subtree f n) first rest cells below := by
  obtain ⟨node, below, hpage, hfits, -, hbody⟩ := h
  obtain ⟨first, rest, rfl, -, hbranches⟩ := hbody.eq_interior
  exact ⟨first, rest, below, node_of_page hs hpage hfits, hfits, hbranches⟩

theorem Subtree.node (hs : f.Sane) (h : Subtree f n id cells nodes) :
    ∃ node, f.node id = .ok node ∧ node.fits f.pageSize = true := by
  cases n with
  | zero =>
      obtain ⟨hnode, hfits, -⟩ := h.node_zero hs
      exact ⟨_, hnode, hfits⟩
  | succ n =>
      obtain ⟨_, _, _, hnode, hfits, -⟩ := h.node_succ hs
      exact ⟨_, hnode, hfits⟩

/-- A leaf is found where the depth says so. -/
theorem Subtree.leaf_inv (hs : f.Sane) (h : Subtree f n id cells nodes) {own : List Cell}
    (hnode : f.node id = .ok (.leaf own)) :
    n = 0 ∧ own = cells ∧ cells ≠ [] ∧ InKeyOrder Cell.key cells := by
  cases n with
  | zero =>
      obtain ⟨hleaf, -, hrest⟩ := h.node_zero hs
      rw [hnode] at hleaf
      cases hleaf
      exact ⟨rfl, rfl, hrest⟩
  | succ n =>
      obtain ⟨first, rest, below, hinterior, -⟩ := h.node_succ hs
      rw [hnode] at hinterior
      cases hinterior

theorem Subtree.interior_inv (hs : f.Sane) (h : Subtree f n id cells nodes) {first : PageId}
    {rest : List (Bytes × PageId)} (hnode : f.node id = .ok (.interior first rest)) :
    ∃ m below, n = m + 1 ∧ Branches (Subtree f m) first rest cells below := by
  cases n with
  | zero =>
      obtain ⟨hleaf, -⟩ := h.node_zero hs
      rw [hnode] at hleaf
      cases hleaf
  | succ n =>
      obtain ⟨_, _, below, hinterior, -, hbranches⟩ := h.node_succ hs
      rw [hnode] at hinterior
      cases hinterior
      exact ⟨n, below, rfl, hbranches⟩

/-- Every key below a page is that of a cell of the tree there. -/
theorem Subtree.mem_of_below (hs : f.Sane) (h : Subtree f n id cells nodes)
    (hkey : Below f key id) : key ∈ cells.map Cell.key := by
  induction hkey generalizing n cells nodes with
  | leaf hnode hmem =>
      obtain ⟨-, rfl, -⟩ := h.leaf_inv hs hnode
      exact hmem
  | child hnode hother _ ih =>
      obtain ⟨m, below, rfl, hbranches⟩ := h.interior_inv hs hnode
      obtain ⟨own, pages, hsub, hown⟩ := hbranches.exists_of_mem hother
      obtain ⟨c, hc, rfl⟩ := List.mem_map.1 (ih hsub)
      exact List.mem_map_of_mem (hown hc)

/-- **Where a page is met there is a tree**, whose depth is what is left of that of the whole tree
and whose cells lie in the range of the page. -/
theorem Located.subtree (hs : f.Sane) (htree : Subtree f n f.header.root cells nodes)
    (h : Located f depth r id) : ∃ m own pages, m + depth = n ∧ Subtree f m id own pages ∧
      ∀ c ∈ own, r.Has c.key := by
  induction h with
  | root => exact ⟨n, cells, nodes, rfl, htree, fun c _ => KeyRange.has_all c.key⟩
  | child _ hnode hother ih =>
      obtain ⟨_, own, pages, hdepth, hsub, hrange⟩ := ih
      obtain ⟨m, below, rfl, hbranches⟩ := hsub.interior_inv hs hnode
      obtain ⟨own', pages', hchild, hrange'⟩ := hbranches.child_in_range hrange hother
      exact ⟨m, own', pages', by omega, hchild, hrange'⟩

/-- **The tree of a file that stores a map is a search tree.** -/
theorem Stores.searchTree [Codec] {m : Contents} (h : Stores f m) (hs : f.Sane) :
    ∃ height, SearchTree f height := by
  obtain ⟨cells, nodes, chains, hk⟩ := h
  obtain ⟨height, hsub⟩ : ∃ height, ∀ {depth : Nat} {r : KeyRange} {id : PageId},
      Located f depth r id → ∃ m own pages, m + depth = height ∧ Subtree f m id own pages ∧
        ∀ c ∈ own, r.Has c.key := by
    cases hk.rooted with
    | empty hnone => exact ⟨0, fun hid => absurd hnone hid.root_ne_zero⟩
    | @tree n _ _ htree => exact ⟨n, fun hid => hid.subtree hs htree⟩
  refine ⟨height, ?_⟩
  exact
    { node := fun hid => by
        obtain ⟨m, own, pages, -, htree, -⟩ := hsub hid
        exact htree.node hs
      leaf_depth := fun hid hnode => by
        obtain ⟨m, own, pages, hdepth, htree, -⟩ := hsub hid
        obtain ⟨rfl, -⟩ := htree.leaf_inv hs hnode
        omega
      leaf_ne_nil := fun hid hnode => by
        obtain ⟨m, own, pages, -, htree, -⟩ := hsub hid
        obtain ⟨-, rfl, hne, -⟩ := htree.leaf_inv hs hnode
        exact hne
      leaf_order := fun hid hnode => by
        obtain ⟨m, own, pages, -, htree, -⟩ := hsub hid
        obtain ⟨-, rfl, -, horder⟩ := htree.leaf_inv hs hnode
        exact horder
      children := fun _ _ => by simp [Node.children]
      interior_order := fun hid hnode => by
        obtain ⟨m, own, pages, -, htree, -⟩ := hsub hid
        obtain ⟨k, below, rfl, hbranches⟩ := htree.interior_inv hs hnode
        exact hbranches.inKeyOrder (subtree_filled f k)
      separators := fun hid hnode => by
        obtain ⟨m, own, pages, -, htree, hrange⟩ := hsub hid
        obtain ⟨k, below, rfl, hbranches⟩ := htree.interior_inv hs hnode
        exact hbranches.separators_inside (subtree_filled f k) hrange
      keys := fun hid hkey => by
        obtain ⟨m, own, pages, -, htree, hrange⟩ := hsub hid
        obtain ⟨c, hc, rfl⟩ := List.mem_map.1 (htree.mem_of_below hs hkey)
        exact hrange c hc
      root := hk.keyed }

end

end Tree

/-! ## The tree of a session -/

namespace Session

/-- **Whatever the calls were, there is a search tree.** Records are stored, appended to and deleted
in any order, and whether a call fails or not makes no difference. Only of a commit that is made to
stop nothing is said. -/
theorem tree_stays_search_tree [Codec] [Codec.Lawful] {path : String} {o : Options} {s : Session}
    {calls : List Call} (h : Begins path o s) (hc : Proper o.crashPoint calls) :
    ∃ p c height, (s.run path calls).2.engine = some (.tree p c) ∧
      Tree.SearchTree (p.face (s.run path calls).2.disk) height := by
  obtain ⟨_, p, c, hengine, hlive⟩ := h.stands.run hc
  obtain ⟨height, htree⟩ := hlive.current.searchTree hlive.ready.sane
  exact ⟨p, c, height, hengine, htree⟩

/-- Six records make a tree of a root and two leaves. -/
theorem tree_stays_search_tree_two_leaves :
    ∃ p c height, (onEmptyFile.run "a" sixRecords).2.engine = some (.tree p c) ∧
      p.header.root = 3 ∧ p.header.recordCount = 6 ∧
      Tree.SearchTree (p.face (onEmptyFile.run "a" sixRecords).2.disk) height := by
  obtain ⟨p, c, height, hengine, htree⟩ :=
    tree_stays_search_tree begins_onEmptyFile proper_sixRecords
  have hheader : p.header = { Header.fresh 512 with pageCount := 6, root := 3, recordCount := 6 } :=
    Option.some.inj ((header?_of_engine hengine).symm.trans header?_sixRecords)
  exact ⟨p, c, height, hengine, by rw [hheader], by rw [hheader], htree⟩

end Session

end PagedStore
