import PagedStore.Proofs.TreeSearch

/-!
# Putting a cell into the tree

A node that has grown by one cell or one branch is stored on its page, or on that page and a new
one. Below an interior node a single child is replaced by what has become of it, and all pages that
belong to something else are left alone.
-/

set_option autoImplicit false

namespace PagedStore.Tree

open PagedStore.Action Pager

/-! ## Storing nodes -/

section

variable {f : Face} {n : Nat} {node : Node} {id : PageId} {cells : List Cell}
  {below used : Multiset PageId} {E : Error → Prop}

/-- Storing a node on a page in use makes the tree of which it is the root. -/
theorem does_store (h : Body f n node cells below) (hfits : node.fits f.pageSize = true)
    (hb : Balanced f ({id} + (below + used))) :
    Does f (store id node) E fun _ g => Subtree g n id cells ({id} + below) ∧
      Balanced g (({id} + below) + used) ∧ Kept (below + used) f g ∧ g.node id = .ok node := by
  refine .of_sane fun hs => .self_bind fun p _ hp _ => ?_
  rw [hp]
  refine .ofResult_bind (Node.toPage_of_fits hfits id) ?_
  have hlen := Page.length_make (Nat.le_trans (by decide) hs.bounds.1) id node.kind node.encode
  have hpage : Balanced f
      ({(Page.make id f.pageSize node.kind node.encode).id} + (below + used)) := hb
  refine (hpage.write hlen).post ?_
  rintro ⟨⟩ g ⟨hb', hk, hstored⟩
  have hbody : Body g n node cells below :=
    h.congr (fun p hp => hk.pages p (Multiset.mem_add.2 (.inl hp))) hk.pageSize
  rw [← hk.pageSize] at hfits
  have hpage' : g.pages id = .ok (node.page id g.pageSize) := by
    rw [hk.pageSize]
    exact hstored
  refine ⟨⟨node, below, hpage', hfits, rfl, hbody⟩, ?_, hk, ?_⟩
  · rw [add_assoc]
    exact hb'
  · rw [Face.node, hpage']
    exact Node.ofPage_page hfits (hk.pageSize ▸ hs.bounds.2) id

/-- Storing a node on a new page. -/
theorem does_create (h : Body f n node cells below) (hfits : node.fits f.pageSize = true)
    (hb : Balanced f (below + used)) :
    Does f (create node) IsFull fun id g => Subtree g n id cells ({id} + below) ∧
      Balanced g (({id} + below) + used) ∧ Kept (below + used) f g ∧ g.node id = .ok node := by
  refine .bind hb.allocate ?_
  rintro id g ⟨hb', hk⟩
  have hbody : Body g n node cells below :=
    h.congr (fun p hp => hk.pages p (Multiset.mem_add.2 (.inl hp))) hk.pageSize
  rw [← hk.pageSize] at hfits
  refine .bind (does_store hbody hfits hb') ?_
  rintro ⟨⟩ g' ⟨htree, hb'', hk', hnode⟩
  exact .pure ⟨htree, hb'', hk.trans hk', hnode⟩

end

/-! ## Dividing nodes -/

/-- The length of a node is at most that of one which fits its page and one more cell or branch. -/
def Node.Swollen (pageSize : Nat) : Node → Prop
  | .leaf cells => (cells.map Cell.size).sum ≤ pageSize - 7 + inlineLimit pageSize
  | .interior _ rest =>
      (rest.map Node.branchSize).sum ≤ pageSize - 11 + (keyLimit pageSize + 6)

section

variable {f : Face} {n : Nat} {node : Node} {id : PageId} {cells : List Cell}
  {below used : Multiset PageId}

/-- A node that does not fit its page is divided into two that do. -/
theorem Body.divide (hs : f.Sane) (h : Body f n node cells below)
    (hbig : node.fits f.pageSize = false) (hswollen : node.Swollen f.pageSize) :
    ∃ left key right c₁ c₂ b₁ b₂, Tree.divide node = .ok (left, key, right) ∧ cells = c₁ ++ c₂ ∧
      below = b₁ + b₂ ∧ (Body f n left c₁ b₁ ∧ left.fits f.pageSize = true) ∧
      (Body f n right c₂ b₂ ∧ right.fits f.pageSize = true) ∧
      (∀ c ∈ c₁, KeyLt c.key key) ∧ (∀ c ∈ c₂, ¬ KeyLt c.key key) ∧
      key.length ≤ keyLimit f.pageSize := by
  cases n with
  | zero =>
      -- The key of the first cell on the right separates the two leaves.
      obtain ⟨rfl, rfl, -, horder, hshort⟩ := h.eq_leaf
      obtain ⟨left, c, right, rfl, hleft, hdivide, hfit, hfit'⟩ := Node.divide_leaf hs.bounds.1
        (fun c hc => (hshort c hc).size) hbig hswollen
      obtain ⟨hl, hr, hlr⟩ := List.pairwise_append.1 horder
      refine ⟨_, _, _, left, c :: right, 0, 0, hdivide, rfl, (add_zero _).symm,
        ⟨⟨rfl, rfl, hleft, hl, ?_⟩, hfit⟩, ⟨⟨rfl, rfl, List.cons_ne_nil _ _, hr, ?_⟩, hfit'⟩,
        fun a ha => hlr a ha c List.mem_cons_self, ?_,
        (hshort c (List.mem_append_right _ List.mem_cons_self)).key⟩
      · exact fun a ha => hshort a (List.mem_append_left _ ha)
      · exact fun a ha => hshort a (List.mem_append_right _ ha)
      · intro a ha
        rcases List.mem_cons.1 ha with rfl | ha
        · exact KeyLt.irrefl _
        · exact KeyLt.asymm ((List.pairwise_cons.1 hr).1 a ha)
  | succ n =>
      -- The key in the middle moves up, and the branches part there.
      obtain ⟨first, rest, rfl, hkeys, hbranches⟩ := h.eq_interior
      obtain ⟨left, key, child, right, rfl, -, -, hdivide, hfit, hfit'⟩ :=
        Node.divide_interior hs.bounds.1 hkeys first hbig hswollen
      obtain ⟨c₁, c₂, b₁, b₂, rfl, rfl, hl, hless, hr, hnot⟩ :=
        hbranches.split (subtree_filled f n)
      refine ⟨_, _, _, c₁, c₂, b₁, b₂, hdivide, rfl, rfl, ⟨⟨?_, hl⟩, hfit⟩, ⟨⟨?_, hr⟩, hfit'⟩,
        hless, hnot, hkeys (key, child) (List.mem_append_right _ List.mem_cons_self)⟩
      · exact fun b hb => hkeys b (List.mem_append_left _ hb)
      · exact fun b hb => hkeys b (List.mem_append_right _ (List.mem_cons_of_mem _ hb))

/-- **A node that has grown is stored** as one tree, of which it is the root, or as two that a key
separates. -/
theorem does_storeDivided (h : Body f n node cells below) (hswollen : node.Swollen f.pageSize)
    (hb : Balanced f ({id} + (below + used))) :
    Does f (storeDivided id node) IsFull fun sibling g => ∃ grown,
      Branches (Subtree g n) id sibling.toList cells grown ∧
      ShortKeys g.pageSize sibling.toList ∧ Balanced g (grown + used) ∧ Kept used f g ∧
      (sibling = none → g.node id = .ok node) := by
  refine .of_sane fun hs => .self_bind fun p _ hp _ => ?_
  rw [hp]
  split
  · rename_i hfits
    refine .bind (does_store h hfits hb) ?_
    rintro ⟨⟩ g ⟨htree, hb', hk, hnode⟩
    refine .pure ⟨_, .last htree, fun b hm => absurd hm (by simp), hb', hk.mono fun p hp =>
      Multiset.mem_add.2 (.inr hp), fun _ => hnode⟩
  · rename_i hbig
    obtain ⟨left, key, right, c₁, c₂, b₁, b₂, hdivide, rfl, rfl, ⟨hl, hlfits⟩, ⟨hr, hrfits⟩, hless,
      hnot, hkey⟩ := h.divide hs (Bool.not_eq_true _ ▸ hbig) hswollen
    refine .ofResult_bind hdivide ?_
    -- The right part is stored first, on a new page, and then the left part in the old place.
    have hsplit : {id} + (b₁ + b₂ + used) = b₂ + ({id} + (b₁ + used)) := by ac_rfl
    rw [hsplit] at hb
    refine .bind (does_create hr hrfits hb) ?_
    rintro sibling g ⟨htree, hb', hk, -⟩
    have hl' : Body g n left c₁ b₁ := hl.congr (fun p hp => hk.pages p (by simp [hp])) hk.pageSize
    rw [← hk.pageSize] at hlfits
    have hjoin : {sibling} + b₂ + ({id} + (b₁ + used)) =
        {id} + (b₁ + ({sibling} + b₂ + used)) := by ac_rfl
    rw [hjoin] at hb'
    refine .bind (does_store hl' hlfits hb') ?_
    rintro ⟨⟩ g' ⟨htree', hb'', hk', -⟩
    have hsibling : Subtree g' n sibling c₂ ({sibling} + b₂) :=
      htree.kept hk' fun p hp => Multiset.mem_add.2 (.inr (Multiset.mem_add.2 (.inl hp)))
    refine .pure ⟨_, .cons htree' hless (.last hsibling) hnot, ?_, ?_, ?_, fun hnone => ?_⟩
    · intro b hm
      obtain rfl := List.mem_singleton.1 hm
      rw [hk'.pageSize, hk.pageSize]
      exact hkey
    · rwa [add_assoc]
    · refine (hk.mono fun p hp => ?_).trans (hk'.mono fun p hp => ?_)
      · simp [hp]
      · simp [hp]
    · cases hnone

end

/-! ## The cells of a leaf -/

theorem insertIdx_eq {α : Type} {xs : List α} {i : Nat} (h : i ≤ xs.length) (a : α) :
    xs.insertIdx i a = xs.take i ++ a :: xs.drop i := by
  induction xs generalizing i with
  | nil =>
      obtain rfl := Nat.le_zero.1 h
      rfl
  | cons x xs ih =>
      cases i with
      | zero => rfl
      | succ i =>
          rw [List.insertIdx_succ_cons, ih (Nat.le_of_succ_le_succ h)]
          rfl

section

variable {cell : Cell} {cells lower upper : List Cell} {same : Option Cell}

theorem putCell_eq (h : Parted Cell.key cell.key cells lower same upper) :
    putCell cell cells = (lower ++ cell :: upper, same.map Cell.value) := by
  have hle : lower.length ≤ cells.length := by
    rw [h.eq, List.length_append]
    exact Nat.le_add_right _ _
  cases same with
  | none =>
      simp only [putCell, findCell_eq h, Option.isSome_none, insertIdx_eq hle]
      rw [h.eq, List.take_left, List.drop_left]
      rfl
  | some c =>
      simp only [putCell, findCell_eq h, Option.isSome_some, getElem?_of_parted h rfl]
      rw [h.eq, List.set_append_right _ _ (Nat.le_refl _), Nat.sub_self]
      rfl

/-- No other cells come into the leaf, whether those that it had are in order or not. -/
theorem mem_putCell {c : Cell} (h : c ∈ (putCell cell cells).1) : c = cell ∨ c ∈ cells := by
  unfold putCell at h
  split at h
  · exact (List.mem_or_eq_of_mem_set h).symm
  · exact List.eq_or_mem_of_mem_insertIdx h

/-- A leaf with one more cell holds no more than a cell too much. -/
theorem swollen_leaf {pageSize : Nat} (hs : 512 ≤ pageSize)
    (h : Parted Cell.key cell.key cells lower same upper)
    (hfits : (Node.leaf cells).fits pageSize = true) (hsize : cell.size ≤ inlineLimit pageSize) :
    (Node.leaf (lower ++ cell :: upper)).Swollen pageSize := by
  have h5 : Page.frontLength = 5 := rfl
  rw [Node.fits_iff, Node.size_leaf, h.eq] at hfits
  simp only [List.map_append, List.sum_append] at hfits
  rw [Node.Swollen, List.map_append, List.map_cons, List.sum_append, List.sum_cons]
  omega

/-- Every cell of a leaf after an insertion was there before or is the new one. -/
theorem mem_of_mem_inserted (h : Parted Cell.key cell.key cells lower same upper) {c : Cell}
    (hc : c ∈ lower ++ cell :: upper) : c = cell ∨ c ∈ cells := by
  rw [h.mem_iff]
  rcases List.mem_append.1 hc with hc | hc
  · exact .inr (.inl hc)
  rcases List.mem_cons.1 hc with hc | hc
  · exact .inl hc
  · exact .inr (.inr (.inr hc))

/-- An interior node with one more branch holds no more than a branch too much. -/
theorem swollen_interior {pageSize i : Nat} {first : PageId} {rest : List (Bytes × PageId)}
    {branch : Bytes × PageId} (hs : 512 ≤ pageSize) (hi : i ≤ rest.length)
    (hfits : (Node.interior first rest).fits pageSize = true)
    (hkey : branch.1.length ≤ keyLimit pageSize) :
    (Node.interior first (rest.insertIdx i branch)).Swollen pageSize := by
  have h5 : Page.frontLength = 5 := rfl
  rw [Node.fits_iff, Node.size_interior] at hfits
  rw [Node.Swollen, ((List.perm_insertIdx branch rest hi).map Node.branchSize).sum_eq, List.map_cons,
    List.sum_cons, Node.branchSize]
  omega

end

/-! ## Descending -/

/-- What has become of the tree of depth `n` below a page into which a cell was put. All pages but
those of the tree are as before, and the page does not become an interior node without keys. -/
structure Inserted (cell : Cell) (n : Nat) (id : PageId) (cells : List Cell)
    (used : Multiset PageId) (f : Face) (insertion : Insertion) (g : Face) : Prop where
  grown : ∃ lower same upper pages, Parted Cell.key cell.key cells lower same upper ∧
    insertion.replaced = same.map Cell.value ∧
    Branches (Subtree g n) id insertion.sibling.toList (lower ++ cell :: upper) pages ∧
    Balanced g (pages + used)
  keys : ShortKeys g.pageSize insertion.sibling.toList
  kept : Kept used f g
  keyed : insertion.sibling = none → f.Keyed id → g.Keyed id

/-- Insertion into a leaf. -/
theorem does_insertFrom_leaf {cell : Cell} {f : Face} {fuel : Nat} {id : PageId} {cells : List Cell}
    {nodes used : Multiset PageId} (hcell : cell.Short f.pageSize) (h : Subtree f 0 id cells nodes)
    (hb : Balanced f (nodes + used)) :
    Does f (insertFrom cell (fuel + 1) id) IsFull (Inserted cell 0 id cells used f) := by
  refine .of_sane fun hs => h.leaf_bind ?_
  rintro hpage hfits hbody rfl
  obtain ⟨-, -, -, horder, hshort⟩ := hbody.eq_leaf
  obtain ⟨lower, same, upper, hp⟩ := Parted.exists_of_inKeyOrder horder cell.key
  simp only [putCell_eq hp]
  have hbody' : Body f 0 (.leaf (lower ++ cell :: upper)) (lower ++ cell :: upper) 0 := by
    refine ⟨rfl, rfl, by simp, hp.inKeyOrder_insert horder rfl, fun c hc => ?_⟩
    rcases mem_of_mem_inserted hp hc with rfl | hc
    · exact hcell
    · exact hshort c hc
  have hswollen := swollen_leaf hs.bounds.1 hp hfits hcell.size
  rw [← zero_add used] at hb
  refine .bind (does_storeDivided hbody' hswollen hb) ?_
  rintro sibling g ⟨grown, hgrown, hkeys, hb', hk, hwhole⟩
  exact .pure ⟨⟨lower, same, upper, grown, hp, rfl, hgrown, hb'⟩, hkeys, hk,
    fun hnone _ => keyed_of_leaf (hwhole hnone)⟩

/-- An interior node takes in the branch that has come into being below it. -/
theorem does_storeBranch {f g : Face} {n i : Nat} {id first : PageId} {rest : List (Bytes × PageId)}
    {branch : Bytes × PageId} {cells : List Cell} {pages used kept : Multiset PageId}
    (hfits : (Node.interior first rest).fits f.pageSize = true) (hkeys : ShortKeys f.pageSize rest)
    (hk : Kept kept f g) (hi : i ≤ rest.length) (hkey : branch.1.length ≤ keyLimit g.pageSize)
    (h : Branches (Subtree g n) first (rest.insertIdx i branch) cells pages)
    (hb : Balanced g ({id} + (pages + used))) :
    Does g (storeDivided id (.interior first (rest.insertIdx i branch))) IsFull
      fun sibling g' => ∃ grown, Branches (Subtree g' (n + 1)) id sibling.toList cells grown ∧
        ShortKeys g'.pageSize sibling.toList ∧ Balanced g' (grown + used) ∧ Kept used g g' ∧
        (sibling = none → g'.node id = .ok (.interior first (rest.insertIdx i branch))) := by
  rw [← hk.pageSize] at hfits hkeys
  have hbody : Body g (n + 1) (.interior first (rest.insertIdx i branch)) cells pages := by
    refine ⟨fun b hb => ?_, h⟩
    rcases List.eq_or_mem_of_mem_insertIdx hb with rfl | hb
    · exact hkey
    · exact hkeys b hb
  refine .of_sane fun hs => ?_
  exact does_storeDivided hbody (swollen_interior hs.bounds.1 hi hfits hkey) hb

/-- **Insertion puts the cell in the place of its key.** -/
theorem does_insertFrom {cell : Cell} {f : Face} {n fuel : Nat} {id : PageId} {cells : List Cell}
    {nodes used : Multiset PageId} (hcell : cell.Short f.pageSize) (h : Subtree f n id cells nodes)
    (hb : Balanced f (nodes + used)) (hfuel : n < fuel) :
    Does f (insertFrom cell fuel id) IsFull (Inserted cell n id cells used f) := by
  -- The face stays the same down to the leaf, so the induction is on the depth for this face alone.
  induction n generalizing fuel id cells nodes used with
  | zero =>
      obtain ⟨fuel, rfl⟩ := Nat.exists_eq_succ_of_ne_zero (Nat.ne_of_gt hfuel)
      exact does_insertFrom_leaf hcell h hb
  | succ n ih =>
      obtain ⟨fuel, rfl⟩ := Nat.exists_eq_succ_of_ne_zero (Nat.ne_of_gt (Nat.zero_lt_of_lt hfuel))
      refine h.interior_bind ?_
      rintro first rest below hpage hfits hkeys hbranches rfl
      have hfilled := subtree_filled f n
      obtain ⟨lower, mid, upper, before, here, behind, rfl, rfl, hway⟩ :=
        hbranches.exists_way hfilled cell.key
      have hindex := hbranches.childIndex_le hfilled cell.key
      -- All that the child does not own is left alone by what is done below it.
      have hsplit : {id} + (before + (here + behind)) + used =
          here + ({id} + (before + behind) + used) := by ac_rfl
      rw [hsplit] at hb
      refine .bind (ih hway.child hb (Nat.lt_of_succ_lt_succ hfuel)) ?_
      rintro ⟨replaced, sibling⟩ g
        ⟨⟨lower', same, upper', grown, hp, hrep, hgrown, hb'⟩, hkeys', hk, -⟩
      have hbranches' := hway.replace (subtree_filled g n) (Subtree.beside hk) hgrown fun c hc => by
        rcases mem_of_mem_inserted hp hc with rfl | hc
        · exact .inl rfl
        · exact .inr ⟨c, hc, rfl⟩
      have hp' := hp.extend hway.below hway.above
      have hcells : lower ++ (lower' ++ cell :: upper' ++ upper) =
          lower ++ lower' ++ cell :: (upper' ++ upper) := by
        simp only [List.append_assoc, List.cons_append]
      rw [hcells] at hbranches'
      have hjoin : grown + ({id} + (before + behind) + used) =
          {id} + ((before + (grown + behind)) + used) := by ac_rfl
      rw [hjoin] at hb'
      have hused : Kept used f g := hk.mono fun p hp => Multiset.mem_add.2 (.inr hp)
      cases sibling with
      | none =>
          -- The child is still one tree, and its parent needs no writing.
          rw [Option.toList_none, List.nil_append, List.take_append_drop] at hbranches'
          have htree := Subtree.of_branches hpage hfits hkeys hk (by simp) hbranches'
          refine .pure ⟨⟨_, same, _, _, hp', hrep, .last htree, ?_⟩, hkeys', hused,
            fun _ hkeyed => keyed_congr hkeyed (hk.pages id (by simp))⟩
          rwa [add_assoc]
      | some branch =>
          -- The child was divided: its parent takes in a branch, and may be divided in turn.
          rw [Option.toList_some, List.singleton_append, ← insertIdx_eq hindex] at hbranches'
          have hkey := hkeys' branch (by simp)
          refine .bind (does_storeBranch hfits hkeys hk hindex hkey hbranches' hb') ?_
          rintro sibling g' ⟨grown', hgrown', hkeys'', hb'', hk', hwhole⟩
          have hne : rest.insertIdx (Node.childIndex cell.key rest) branch ≠ [] := by
            simp [insertIdx_eq hindex]
          exact .pure ⟨⟨_, same, _, grown', hp', hrep, hgrown', hb''⟩, hkeys'', hused.trans hk',
            fun hnone _ => keyed_of_interior (hwhole hnone) hne⟩

end PagedStore.Tree
