import PagedStore.Proofs.TreeInsertion

/-!
# Taking a cell out of the tree

A node that loses a cell or a child still fits its page, so removal cannot fail. The page of a node
that has become empty is free again, and a root with a single child makes way for it: the depth of
the tree shrinks, and its cells stay.
-/

set_option autoImplicit false

namespace PagedStore.Tree

open PagedStore.Action Pager

/-! ## Smaller nodes -/

theorem sum_map_le_of_sublist {α : Type} {xs ys : List α} (h : xs.Sublist ys) (size : α → Nat) :
    (xs.map size).sum ≤ (ys.map size).sum :=
  (h.map size).sum_le_sum fun _ _ => Nat.zero_le _

theorem fits_of_sublist_leaf {pageSize : Nat} {cells cells' : List Cell} (h : cells'.Sublist cells)
    (hfits : (Node.leaf cells).fits pageSize = true) : (Node.leaf cells').fits pageSize = true := by
  have hsum := sum_map_le_of_sublist h Cell.size
  rw [Node.fits_iff, Node.size_leaf] at hfits ⊢
  omega

theorem fits_of_sublist_interior {pageSize : Nat} {first : PageId}
    {rest rest' : List (Bytes × PageId)} (h : rest'.Sublist rest)
    (hfits : (Node.interior first rest).fits pageSize = true) (first' : PageId) :
    (Node.interior first' rest').fits pageSize = true := by
  have hsum := sum_map_le_of_sublist h Node.branchSize
  rw [Node.fits_iff, Node.size_interior] at hfits ⊢
  omega

/-! ## Descending -/

/-- What has become of the tree of depth `n` below a page from which the cell with a key was to be
taken. -/
inductive Removed (key : Bytes) (n : Nat) (id : PageId) (cells : List Cell)
    (used : Multiset PageId) (f : Face) : Option Removal → Face → Prop where
  /-- There is no such cell. -/
  | absent {lower upper : List Cell} (parted : Parted Cell.key key cells lower none upper) :
      Removed key n id cells used f none f
  /-- It was the only one, and nothing is left. -/
  | emptied {c : Cell} {g : Face} (only : cells = [c]) (atKey : c.key = key)
      (balanced : Balanced g used) (kept : Kept used f g) :
      Removed key n id cells used f (some ⟨c.value, true⟩) g
  /-- The other cells are left. -/
  | left {lower upper : List Cell} {c : Cell} {pages : Multiset PageId} {g : Face}
      (parted : Parted Cell.key key cells lower (some c) upper)
      (tree : Subtree g n id (lower ++ upper) pages) (balanced : Balanced g (pages + used))
      (kept : Kept used f g) : Removed key n id cells used f (some ⟨c.value, false⟩) g

theorem eraseIdx_of_parted {key : Bytes} {cells lower upper : List Cell} {c : Cell}
    (h : Parted Cell.key key cells lower (some c) upper) :
    cells.eraseIdx lower.length = lower ++ upper := by
  rw [h.eq, List.eraseIdx_append_of_length_le (Nat.le_refl _), Nat.sub_self]
  rfl

section

variable {f : Face} {key : Bytes} {n fuel : Nat} {id : PageId} {cells : List Cell}
  {nodes used : Multiset PageId} {E : Error → Prop}

theorem does_removeFrom_leaf (h : Subtree f 0 id cells nodes) (hb : Balanced f (nodes + used)) :
    Does f (removeFrom key (fuel + 1) id) E (Removed key 0 id cells used f) := by
  refine h.leaf_bind ?_
  rintro hpage hfits hbody rfl
  obtain ⟨-, -, -, horder, hshort⟩ := hbody.eq_leaf
  obtain ⟨lower, same, upper, hp⟩ := Parted.exists_of_inKeyOrder horder key
  cases same with
  | none =>
      simp only [findCell_eq hp, Option.isSome_none]
      exact .pure (.absent hp)
  | some c =>
      simp only [findCell_eq hp, Option.isSome_some, getElem?_of_parted hp rfl,
        eraseIdx_of_parted hp]
      by_cases hempty : lower ++ upper = []
      · -- The cell was the only one, and its page goes with it.
        rw [hempty]
        obtain ⟨rfl, rfl⟩ := List.append_eq_nil_iff.1 hempty
        refine .bind hb.free ?_
        rintro ⟨⟩ g ⟨hb', hk⟩
        exact .pure (.emptied hp.eq (hp.at_key c rfl) hb' hk)
      · have hnot : (lower ++ upper).isEmpty = false := by
          rwa [List.isEmpty_eq_false_iff]
        have hsub : (lower ++ upper).Sublist cells := by
          rw [hp.eq]
          exact List.Sublist.append_left (List.sublist_append_right _ _) _
        have hbody' : Body f 0 (.leaf (lower ++ upper)) (lower ++ upper) 0 :=
          ⟨rfl, rfl, hempty, hp.inKeyOrder_erase horder, fun c hc => hshort c (hsub.subset hc)⟩
        rw [hnot]
        rw [← zero_add used] at hb
        refine .bind (does_store hbody' (fits_of_sublist_leaf hsub hfits) hb) ?_
        rintro ⟨⟩ g ⟨htree, hb', hk, -⟩
        rw [zero_add] at hk
        exact .pure (.left hp htree hb' hk)

/-- The end of a removal below a child that has lost its only cell: the child is dropped, and the
page of a node without children is given back as well. -/
theorem does_dropped {g : Face} {first : PageId} {rest : List (Bytes × PageId)} {i : Nat} {c : Cell}
    {lower mid upper : List Cell} {before here behind : Multiset PageId}
    (hfits : (Node.interior first rest).fits f.pageSize = true) (hkeys : ShortKeys f.pageSize rest)
    (hway : Branches.Way (Subtree f n) key first rest i lower mid upper before here behind)
    (hk : Kept ({id} + (before + behind) + used) f g)
    (hb : Balanced g ({id} + (before + behind) + used)) (hkey : c.key = key) :
    Does g (match dropChild first rest i with
        | none => do
            Pager.free id
            return some ⟨c.value, true⟩
        | some node => do
            store id node
            return some ⟨c.value, false⟩) E
      (Removed key (n + 1) id (lower ++ ([c] ++ upper)) used f) := by
  have hdrop := hway.drop (subtree_filled g n) (Subtree.beside hk)
  have hused : Kept used f g := hk.mono fun p hp => Multiset.mem_add.2 (.inr hp)
  have hp : Parted Cell.key key (lower ++ ([c] ++ upper)) lower (some c) upper :=
    ⟨rfl, hway.below, by rintro a ⟨⟩; exact hkey, hway.above⟩
  cases hnode : dropChild first rest i with
  | none =>
      -- The node had no other child, so the cell was the only one below it.
      rw [hnode] at hdrop
      obtain ⟨rfl, rfl, rfl, rfl⟩ := hdrop
      rw [add_zero, add_zero] at hb
      refine .bind hb.free ?_
      rintro ⟨⟩ g' ⟨hb', hk'⟩
      exact .pure (.emptied rfl hkey hb' (hused.trans hk'))
  | some node =>
      rw [hnode] at hdrop
      cases node with
      | leaf => exact hdrop.elim
      | interior first' rest' =>
          obtain ⟨hsub, hbranches⟩ := hdrop
          have hfits' := fits_of_sublist_interior hsub hfits first'
          rw [← hk.pageSize] at hfits' hkeys
          have hbody : Body g (n + 1) (.interior first' rest') (lower ++ upper) (before + behind) :=
            ⟨fun b hb => hkeys b (hsub.subset hb), hbranches⟩
          rw [add_assoc] at hb
          refine .bind (does_store hbody hfits' hb) ?_
          rintro ⟨⟩ g' ⟨htree, hb', hk', -⟩
          exact .pure (.left hp htree hb' (hused.trans
            (hk'.mono fun p hp => Multiset.mem_add.2 (.inr hp))))

/-- **Removal takes out the cell with the key**, if there is one. -/
theorem does_removeFrom (h : Subtree f n id cells nodes) (hb : Balanced f (nodes + used))
    (hfuel : n < fuel) :
    Does f (removeFrom key fuel id) E (Removed key n id cells used f) := by
  induction n generalizing fuel id cells nodes used with
  | zero =>
      obtain ⟨fuel, rfl⟩ := Nat.exists_eq_succ_of_ne_zero (Nat.ne_of_gt hfuel)
      exact does_removeFrom_leaf h hb
  | succ n ih =>
      obtain ⟨fuel, rfl⟩ := Nat.exists_eq_succ_of_ne_zero (Nat.ne_of_gt (Nat.zero_lt_of_lt hfuel))
      refine h.interior_bind ?_
      rintro first rest below hpage hfits hkeys hbranches rfl
      obtain ⟨lower, mid, upper, before, here, behind, rfl, rfl, hway⟩ :=
        hbranches.exists_way (subtree_filled f n) key
      -- All that the child does not own is left alone by what is done below it.
      have hsplit : {id} + (before + (here + behind)) + used =
          here + ({id} + (before + behind) + used) := by ac_rfl
      rw [hsplit] at hb
      refine .bind (ih hway.child hb (Nat.lt_of_succ_lt_succ hfuel)) ?_
      intro result g hr
      cases hr with
      | absent hp => exact .pure (.absent (hp.extend hway.below hway.above))
      | @emptied c _ honly hkey hb' hk =>
          subst honly
          exact does_dropped hfits hkeys hway hk hb' hkey
      | @left lower' upper' c pages _ hp htree hb' hk =>
          -- The node is not written: the child keeps its number, and its other keys their place.
          have hbranches' := hway.replace (subtree_filled g n) (Subtree.beside hk) (.last htree)
            fun a ha => by
              refine .inr ⟨a, hp.mem_iff.2 ?_, rfl⟩
              rcases List.mem_append.1 ha with ha | ha
              · exact .inl ha
              · exact .inr (.inr ha)
          have hcells : lower ++ (lower' ++ upper' ++ upper) =
              lower ++ lower' ++ (upper' ++ upper) := by
            simp only [List.append_assoc]
          rw [List.nil_append, List.take_append_drop, hcells] at hbranches'
          have hsub := Subtree.of_branches hpage hfits hkeys hk (by simp) hbranches'
          have hjoin : pages + ({id} + (before + behind) + used) =
              {id} + (before + (pages + behind)) + used := by ac_rfl
          rw [hjoin] at hb'
          exact .pure (.left (hp.extend hway.below hway.above) hsub hb'
            (hk.mono fun p hp => Multiset.mem_add.2 (.inr hp)))

/-! ## Collapsing -/

/-- **Collapsing the root** changes nothing but the nodes at the top of the tree, and goes on until
the root has keys or is a leaf. -/
theorem does_collapse {root : PageId} (h : Subtree f n root cells nodes)
    (hroot : f.header.root = root) (hb : Balanced f (nodes + used)) (hfuel : n < fuel) :
    Does f (collapse fuel root) E fun _ g => ∃ n' nodes', Subtree g n' g.header.root cells nodes' ∧
      Balanced g (nodes' + used) ∧ Kept used (f.withRoot g.header.root) g ∧ g.RootKeyed := by
  induction n generalizing f fuel root nodes with
  | zero =>
      obtain ⟨fuel, rfl⟩ := Nat.exists_eq_succ_of_ne_zero (Nat.ne_of_gt hfuel)
      refine .of_sane fun hs => h.leaf_bind ?_
      rintro hpage hfits - -
      exact .pure ⟨0, nodes, hroot ▸ h, hb, .refl used _, fun _ =>
        hroot ▸ keyed_of_leaf (node_of_page hs hpage hfits)⟩
  | succ n ih =>
      obtain ⟨fuel, rfl⟩ := Nat.exists_eq_succ_of_ne_zero (Nat.ne_of_gt (Nat.zero_lt_of_lt hfuel))
      refine .of_sane fun hs => h.interior_bind ?_
      rintro first rest below hpage hfits - hbranches hnodes
      cases hbranches with
      | cons =>
          exact .pure ⟨n + 1, nodes, hroot ▸ h, hb, .refl used _, fun _ =>
            hroot ▸ keyed_of_interior (node_of_page hs hpage hfits) (List.cons_ne_nil _ _)⟩
      | last hchild =>
          -- The only child becomes the root, and the page of the node above it is free.
          subst hnodes
          rw [add_assoc] at hb
          refine .bind hb.free ?_
          rintro ⟨⟩ g ⟨hb', hk⟩
          refine .bind (Q := fun _ g' => g' = g.withRoot first) (.setRoot rfl) ?_
          rintro ⟨⟩ _ rfl
          have hchild' : Subtree (g.withRoot first) n first cells below :=
            (hchild.kept hk fun p hp => Multiset.mem_add.2 (.inl hp)).congr (fun _ _ => rfl) rfl
          refine (ih hchild' rfl (hb'.withRoot first) (Nat.lt_of_succ_lt_succ hfuel)).post ?_
          rintro ⟨⟩ g' ⟨n', nodes', htree, hb'', hk', hkeyed⟩
          have hk'' : Kept used f g := hk.mono fun p hp => Multiset.mem_add.2 (.inr hp)
          exact ⟨n', nodes', htree, hb'', (hk''.withRoot g'.header.root).trans hk', hkeyed⟩

end

end PagedStore.Tree
