import PagedStore.Proofs.Branches
import PagedStore.Proofs.Division
import PagedStore.Proofs.NodeCodec
import PagedStore.Proofs.PageAccounting

/-!
# The shape of the tree

A tree of depth `n` has its leaves `n` steps below its root, all of them at the same depth. Its
leaves hold the cells in the order of their keys, none is empty, and every node fits its page
(`Subtree`). The pages of the nodes are counted with the tree, so that a page which is met twice
would be counted twice.
-/

set_option autoImplicit false

namespace PagedStore

/-- The node that a page holds. -/
def Face.node (f : Face) (id : PageId) : Except Error Tree.Node := do Tree.Node.ofPage (← f.pages id)

/-- A page is no interior node without keys. -/
def Face.Keyed (f : Face) (id : PageId) : Prop := ∀ first, f.node id ≠ .ok (.interior first [])

/-- The root, if there is one, is no interior node without keys. -/
def Face.RootKeyed (f : Face) : Prop := f.header.root ≠ 0 → f.Keyed f.header.root

namespace Tree

open PagedStore.Action Pager

/-! ## Nodes without keys -/

section

variable {f g : Face} {id : PageId}

theorem keyed_of_leaf {cells : List Cell} (h : f.node id = .ok (.leaf cells)) : f.Keyed id :=
  fun first hnode => by simp [h] at hnode

theorem keyed_of_interior {first : PageId} {rest : List (Bytes × PageId)}
    (h : f.node id = .ok (.interior first rest)) (hne : rest ≠ []) : f.Keyed id :=
  fun other hnode => by simp [h, hne] at hnode

/-- Whether a page has keys is seen from the page alone. -/
theorem keyed_congr (h : f.Keyed id) (hpage : g.pages id = f.pages id) : g.Keyed id := by
  intro first
  rw [Face.node, hpage]
  exact h first

end

/-- What every cell of a leaf satisfies. -/
structure Cell.Short (pageSize : Nat) (c : Cell) : Prop where
  key : c.key.length ≤ keyLimit pageSize
  size : c.size ≤ inlineLimit pageSize

/-- The keys of branches are keys that a record may have. -/
def ShortKeys (pageSize : Nat) (rest : List (Bytes × PageId)) : Prop :=
  ∀ b ∈ rest, b.1.length ≤ keyLimit pageSize

/-- A page holds a node, whose cells and the pages below it are such as `B` says. -/
def OnPage (f : Face) (B : Node → List Cell → Multiset PageId → Prop) (id : PageId)
    (cells : List Cell) (pages : Multiset PageId) : Prop :=
  ∃ node rest, f.pages id = .ok (node.page id f.pageSize) ∧ node.fits f.pageSize = true ∧
    pages = {id} + rest ∧ B node cells rest

/-- A node `n` steps above the leaves: the cells below it and the pages of the nodes below it. -/
def Body (f : Face) : (n : Nat) → Node → List Cell → Multiset PageId → Prop
  | 0, .leaf own, cells, pages => own = cells ∧ pages = 0 ∧ cells ≠ [] ∧
      InKeyOrder Cell.key cells ∧ ∀ c ∈ cells, c.Short f.pageSize
  | n + 1, .interior first rest, cells, pages =>
      ShortKeys f.pageSize rest ∧ Branches (OnPage f (Body f n)) first rest cells pages
  | _, _, _, _ => False

/-- The tree of depth `n` below a page: its cells and the pages of its nodes. -/
def Subtree (f : Face) (n : Nat) : PageId → List Cell → Multiset PageId → Prop :=
  OnPage f (Body f n)

section

variable {f g : Face} {n : Nat} {node : Node} {id : PageId} {cells : List Cell}
  {pages : Multiset PageId} {E : Error → Prop}

theorem Body.eq_leaf (h : Body f 0 node cells pages) :
    node = .leaf cells ∧ pages = 0 ∧ cells ≠ [] ∧ InKeyOrder Cell.key cells ∧
      ∀ c ∈ cells, c.Short f.pageSize := by
  cases node with
  | leaf own =>
      obtain ⟨rfl, h⟩ := h
      exact ⟨rfl, h⟩
  | interior first rest => exact h.elim

theorem Body.eq_interior (h : Body f (n + 1) node cells pages) :
    ∃ first rest, node = .interior first rest ∧ ShortKeys f.pageSize rest ∧
      Branches (Subtree f n) first rest cells pages := by
  cases node with
  | leaf own => exact h.elim
  | interior first rest => exact ⟨first, rest, rfl, h⟩

/-! ## What does not depend on the face -/

theorem Body.congr (h : Body f n node cells pages) (hpages : ∀ p ∈ pages, g.pages p = f.pages p)
    (hsize : g.pageSize = f.pageSize) : Body g n node cells pages := by
  induction n generalizing node cells pages with
  | zero =>
      obtain ⟨rfl, hleaf⟩ := h.eq_leaf
      rw [← hsize] at hleaf
      exact ⟨rfl, hleaf⟩
  | succ n ih =>
      obtain ⟨first, rest, rfl, hkeys, hbranches⟩ := h.eq_interior
      rw [← hsize] at hkeys
      refine ⟨hkeys, hbranches.mono ?_⟩
      rintro id cells _ ⟨node, below, hpage, hfits, rfl, hbody⟩ hmem
      have hid := hpages id (hmem id (Multiset.mem_add.2 (.inl (Multiset.mem_singleton_self id))))
      refine ⟨node, below, ?_, by rwa [hsize], rfl, ih hbody fun p hp =>
        hpages p (hmem p (Multiset.mem_add.2 (.inr hp)))⟩
      rw [hid, hsize, hpage]

theorem Subtree.congr (h : Subtree f n id cells pages)
    (hpages : ∀ p ∈ pages, g.pages p = f.pages p) (hsize : g.pageSize = f.pageSize) :
    Subtree g n id cells pages := by
  obtain ⟨node, below, hpage, hfits, rfl, hbody⟩ := h
  refine ⟨node, below, ?_, by rwa [hsize], rfl,
    hbody.congr (fun p hp => hpages p (Multiset.mem_add.2 (.inr hp))) hsize⟩
  rw [hpages id (Multiset.mem_add.2 (.inl (Multiset.mem_singleton_self id))), hsize, hpage]

/-- A tree is left as it is by a change to other pages. -/
theorem Subtree.kept {kept : Multiset PageId} (h : Subtree f n id cells pages) (hk : Kept kept f g)
    (hpages : ∀ p ∈ pages, p ∈ kept) : Subtree g n id cells pages :=
  h.congr (fun p hp => hk.pages p (hpages p hp)) hk.pageSize

/-- The trees beside a child are left as they are by a change below that child. -/
theorem Subtree.beside {above others used : Multiset PageId} (hk : Kept (above + others + used) f g)
    (h : Subtree f n id cells pages) (hpages : ∀ p ∈ pages, p ∈ others) : Subtree g n id cells pages :=
  h.kept hk fun p hp =>
    Multiset.mem_add.2 (.inl (Multiset.mem_add.2 (.inr (hpages p hp))))

/-- An interior node that was left alone is the root of what has become of the trees below it. -/
theorem Subtree.of_branches {first : PageId} {rest : List (Bytes × PageId)}
    {kept : Multiset PageId} (hpage : f.pages id = .ok ((Node.interior first rest).page id f.pageSize))
    (hfits : (Node.interior first rest).fits f.pageSize = true) (hkeys : ShortKeys f.pageSize rest)
    (hk : Kept kept f g) (hid : id ∈ kept) (h : Branches (Subtree g n) first rest cells pages) :
    Subtree g (n + 1) id cells ({id} + pages) := by
  have hpage' : g.pages id = .ok ((Node.interior first rest).page id g.pageSize) := by
    rw [hk.pages id hid, hk.pageSize]
    exact hpage
  refine ⟨_, _, hpage', ?_, rfl, ?_, h⟩
  · rwa [hk.pageSize]
  · rwa [hk.pageSize]

/-- The page of a tree is one of those of its nodes. -/
theorem Subtree.mem_self (h : Subtree f n id cells pages) : id ∈ pages := by
  obtain ⟨node, below, -, -, rfl, -⟩ := h
  exact Multiset.mem_add.2 (.inl (Multiset.mem_singleton_self id))

/-! ## Cells -/

theorem Body.ne_nil (h : Body f n node cells pages) : cells ≠ [] := by
  induction n generalizing node cells pages with
  | zero => exact h.eq_leaf.2.2.1
  | succ n ih =>
      obtain ⟨first, rest, rfl, -, hbranches⟩ := h.eq_interior
      refine hbranches.ne_nil ?_
      rintro id cells pages ⟨node, below, -, -, -, hbody⟩
      exact ih hbody

theorem subtree_filled (f : Face) (n : Nat) : Filled (Subtree f n) := by
  rintro id cells pages ⟨node, below, -, -, -, hbody⟩
  exact hbody.ne_nil

theorem Body.inKeyOrder (h : Body f n node cells pages) : InKeyOrder Cell.key cells := by
  induction n generalizing node cells pages with
  | zero => exact h.eq_leaf.2.2.2.1
  | succ n ih =>
      obtain ⟨first, rest, rfl, -, hbranches⟩ := h.eq_interior
      refine hbranches.cells_inKeyOrder ?_
      rintro id cells pages ⟨node, below, -, -, -, hbody⟩
      exact ih hbody

/-! ## Sizes -/

/-- A tree has more nodes than steps from its root to a leaf. -/
theorem Subtree.depth_lt (h : Subtree f n id cells pages) : n < pages.card := by
  induction n generalizing id cells pages with
  | zero =>
      obtain ⟨node, below, -, -, rfl, -⟩ := h
      rw [Multiset.card_add, Multiset.card_singleton]
      omega
  | succ n ih =>
      obtain ⟨node, below, -, -, rfl, hbody⟩ := h
      obtain ⟨first, rest, rfl, -, hbranches⟩ := hbody.eq_interior
      have hbelow : n + 1 ≤ below.card := hbranches.card_pages fun hs => ih hs
      rw [Multiset.card_add, Multiset.card_singleton]
      omega

/-- No more cells are in a tree than fit the pages of its nodes. -/
theorem Subtree.length_le (h : Subtree f n id cells pages) :
    cells.length ≤ f.pageSize * pages.card := by
  induction n generalizing id cells pages with
  | zero =>
      obtain ⟨node, below, -, hfits, rfl, hbody⟩ := h
      obtain ⟨rfl, rfl, -⟩ := hbody.eq_leaf
      have hcount := @Node.mul_length_le_sum _ Cell.size 7 cells fun c _ => c.seven_le_size
      rw [Node.fits_iff, Node.size_leaf] at hfits
      rw [add_zero, Multiset.card_singleton]
      omega
  | succ n ih =>
      obtain ⟨node, below, -, -, rfl, hbody⟩ := h
      obtain ⟨first, rest, rfl, -, hbranches⟩ := hbody.eq_interior
      have hbelow := hbranches.length_le fun hs => ih hs
      rw [Multiset.card_add, Nat.mul_add]
      omega

/-! ## Reading a node -/

theorem node_of_page (hs : f.Sane) (hpage : f.pages id = .ok (node.page id f.pageSize))
    (hfits : node.fits f.pageSize = true) : f.node id = .ok node := by
  rw [Face.node, hpage]
  exact Node.ofPage_page hfits hs.bounds.2 id

theorem does_load (hpage : f.pages id = .ok (node.page id f.pageSize))
    (hfits : node.fits f.pageSize = true) :
    Does f (load id) E fun x g => g = f ∧ x = node := by
  refine .of_sane fun hs => .bind
    (.read_ok hpage (R := fun x g => g = f ∧ x = node.page id f.pageSize) ⟨rfl, rfl⟩) ?_
  rintro page g ⟨rfl, rfl⟩
  have hnode := Node.ofPage_page hfits hs.bounds.2 id
  refine (Does.ofResult g _).mono (fun e he => ?_) ?_
  · rw [hnode] at he
    cases he
  · rintro x g' ⟨rfl, hx⟩
    exact ⟨rfl, Except.ok.inj (hx.symm.trans hnode)⟩

/-- A node without nodes below it is a leaf. -/
theorem Subtree.leaf_bind {α : Type} {k : Node → Action Pager α} {Q : α → Face → Prop}
    (h : Subtree f 0 id cells pages)
    (hk : f.pages id = .ok ((Node.leaf cells).page id f.pageSize) →
      (Node.leaf cells).fits f.pageSize = true → Body f 0 (.leaf cells) cells 0 → pages = {id} →
      Does f (k (.leaf cells)) E Q) : Does f (load id >>= k) E Q := by
  obtain ⟨node, below, hpage, hfits, rfl, hbody⟩ := h
  obtain ⟨rfl, rfl, hleaf⟩ := hbody.eq_leaf
  refine .bind (does_load hpage hfits) ?_
  rintro x g ⟨rfl, rfl⟩
  exact hk hpage hfits hbody (add_zero _)

/-- A node with nodes below it is an interior node. -/
theorem Subtree.interior_bind {α : Type} {k : Node → Action Pager α} {Q : α → Face → Prop}
    (h : Subtree f (n + 1) id cells pages)
    (hk : ∀ {first rest below}, f.pages id = .ok ((Node.interior first rest).page id f.pageSize) →
      (Node.interior first rest).fits f.pageSize = true → ShortKeys f.pageSize rest →
      Branches (Subtree f n) first rest cells below → pages = {id} + below →
      Does f (k (.interior first rest)) E Q) : Does f (load id >>= k) E Q := by
  obtain ⟨node, below, hpage, hfits, rfl, hbody⟩ := h
  obtain ⟨first, rest, rfl, hkeys, hbranches⟩ := hbody.eq_interior
  refine .bind (does_load hpage hfits) ?_
  rintro x g ⟨rfl, rfl⟩
  exact hk hpage hfits hkeys hbranches rfl

end

end Tree

end PagedStore
