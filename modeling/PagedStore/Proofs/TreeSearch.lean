import PagedStore.Proofs.TreeShape

/-!
# Searching finds the cell

Each search of the tree gives what the same search of the list of all cells gives: the cell with a
key, the first and the last cell, and the nearest cell on either side of a bound. The list is in
the order of the keys, so it is cut by every bound, and a search for a neighbour has to look beyond
the child that the bound leads to only when that child holds nothing on the right side of the cut.
-/

set_option autoImplicit false

namespace PagedStore.Tree

open PagedStore.Action Pager

/-! ## Cuts of a list of cells -/

section

variable {key bound x y : Bytes} {included : Bool} {cells lower upper : List Cell}
  {same : Option Cell}

theorem findCell_eq (h : Parted Cell.key key cells lower same upper) :
    Node.findCell key cells = (lower.length, same.isSome) := by
  have hlower : ∀ c ∈ lower, compare c.key key = .lt := h.below
  have hupper : ∀ c ∈ upper, compare c.key key = .gt := fun c hc => compare_eq_gt.2 (h.above c hc)
  rw [h.eq, Node.findCell]
  cases same with
  | none => exact bisect_missing hlower hupper
  | some c => exact bisect_found hlower (compare_eq_eq.2 (h.at_key c rfl)) hupper

theorem getElem?_of_parted (h : Parted Cell.key key cells lower same upper) (hs : same.isSome) :
    cells[lower.length]? = same := by
  obtain ⟨c, rfl⟩ := Option.isSome_iff_exists.1 hs
  rw [h.eq, List.getElem?_append_right (Nat.le_refl _), Nat.sub_self]
  rfl

theorem below_of_lt (h : KeyLt x bound) : below bound included x = true := by
  rw [below]
  split
  · exact compare_isLE.2 h.asymm
  · exact beq_iff_eq.2 h

theorem not_below_of_lt (h : KeyLt bound x) : below bound included x = false := by
  rw [← Bool.not_eq_true, below]
  split
  · rw [compare_isLE]
    exact not_not_intro h
  · rw [beq_iff_eq]
    exact h.asymm

/-- What is less than something below a bound is below it as well. -/
theorem below_of_below (h : below bound included y = true) (hxy : KeyLt x y) :
    below bound included x = true := by
  rcases KeyLt.trichotomy x bound with hx | rfl | hx
  · exact below_of_lt hx
  · rw [not_below_of_lt hxy] at h
    cases h
  · rw [not_below_of_lt (hx.trans hxy)] at h
    cases h

/-- Every bound cuts a list of cells in order. -/
theorem exists_cut (h : InKeyOrder Cell.key cells) (bound : Bytes) (included : Bool) :
    ∃ before after, cells = before ++ after ∧
      (∀ c ∈ before, below bound included c.key = true) ∧
      ∀ c ∈ after, below bound included c.key = false := by
  induction cells with
  | nil => exact ⟨[], [], rfl, by simp, by simp⟩
  | cons c cells ih =>
      obtain ⟨hc, hcells⟩ := List.pairwise_cons.1 h
      cases hbelow : below bound included c.key with
      | true =>
          obtain ⟨before, after, rfl, hb, ha⟩ := ih hcells
          refine ⟨c :: before, after, rfl, ?_, ha⟩
          intro a hm
          rcases List.mem_cons.1 hm with rfl | hm
          · exact hbelow
          · exact hb a hm
      | false =>
          -- Everything behind a cell that is not below the bound is greater still.
          refine ⟨[], c :: cells, rfl, by simp, ?_⟩
          intro a hm
          rcases List.mem_cons.1 hm with rfl | hm
          · exact hbelow
          · rw [← Bool.not_eq_true]
            intro hbelow'
            rw [below_of_below hbelow' (hc a hm)] at hbelow
            cases hbelow

/-- The first cell that is not below a bound. -/
def ceiling (bound : Bytes) (included : Bool) (cells : List Cell) : Option Cell :=
  cells.find? fun c => !below bound included c.key

/-- The last cell that is below a bound. -/
def floor (bound : Bytes) (included : Bool) (cells : List Cell) : Option Cell :=
  cells.reverse.find? fun c => below bound included c.key

theorem ceiling_append (bound : Bytes) (included : Bool) (xs ys : List Cell) :
    ceiling bound included (xs ++ ys) = (ceiling bound included xs).or (ceiling bound included ys) :=
  List.find?_append

theorem floor_append (bound : Bytes) (included : Bool) (xs ys : List Cell) :
    floor bound included (xs ++ ys) = (floor bound included ys).or (floor bound included xs) := by
  rw [floor, List.reverse_append]
  exact List.find?_append

theorem ceiling_of_below (h : ∀ c ∈ cells, below bound included c.key = true) :
    ceiling bound included cells = none :=
  List.find?_eq_none.2 fun c hc => by simp [h c hc]

theorem floor_of_not_below (h : ∀ c ∈ cells, below bound included c.key = false) :
    floor bound included cells = none :=
  List.find?_eq_none.2 fun c hc => by simp [h c (List.mem_reverse.1 hc)]

theorem ceiling_of_not_below (h : ∀ c ∈ cells, below bound included c.key = false) :
    ceiling bound included cells = cells.head? := by
  cases cells with
  | nil => rfl
  | cons c cells => simp [ceiling, h c List.mem_cons_self]

theorem floor_of_below (h : ∀ c ∈ cells, below bound included c.key = true) :
    floor bound included cells = cells.getLast? := by
  rcases List.eq_nil_or_concat cells with rfl | ⟨cells, c, rfl⟩
  · rfl
  · simp [floor, h c (by simp)]

end

/-! ## Children in a row -/

section

variable {S : PageId → List Cell → Multiset PageId → Prop} {id : PageId} {ids : List PageId}
  {cells : List Cell}

theorem Segments.head (h : Segments S (id :: ids) cells) :
    ∃ seg more pages, S id seg pages ∧ cells = seg ++ more := by
  obtain ⟨segs, hsegs, rfl⟩ := h
  cases hsegs with
  | @cons _ seg _ segs hseg hsegs =>
      obtain ⟨pages, hseg⟩ := hseg
      exact ⟨seg, segs.flatten, pages, hseg, rfl⟩

theorem Segments.last (h : Segments S (ids ++ [id]) cells) :
    ∃ more seg pages, S id seg pages ∧ cells = more ++ seg := by
  obtain ⟨segs, hsegs, rfl⟩ := h
  have hrev := List.forall₂_reverse_iff.2 hsegs
  rw [List.reverse_append, List.reverse_singleton, List.singleton_append] at hrev
  generalize hr : segs.reverse = rsegs at hrev
  cases hrev with
  | @cons _ seg _ rest hseg hrest =>
      obtain ⟨pages, hseg⟩ := hseg
      refine ⟨rest.reverse.flatten, seg, pages, hseg, ?_⟩
      rw [List.reverse_eq_iff.1 hr, List.reverse_cons, List.flatten_append, List.flatten_singleton]

theorem Segments.eq_nil (h : Segments S [] cells) : cells = [] := by
  obtain ⟨segs, hsegs, rfl⟩ := h
  cases hsegs
  rfl

end

/-! ## Descents -/

section

variable {f : Face} {n fuel : Nat} {id : PageId} {cells : List Cell} {pages : Multiset PageId}
  {E : Error → Prop}

/-- **A lookup finds the cell with the key**, or nothing when there is none. -/
theorem does_lookupFrom (key : Bytes) (h : Subtree f n id cells pages) (hfuel : n < fuel) :
    Does f (lookupFrom key fuel id) E fun r g => g = f ∧
      ∃ lower upper, Parted Cell.key key cells lower r upper := by
  -- The fuel exceeds the depth, so that the descent comes to a leaf before it runs out.
  induction n generalizing fuel id cells pages with
  | zero =>
      obtain ⟨fuel, rfl⟩ := Nat.exists_eq_succ_of_ne_zero (Nat.ne_of_gt hfuel)
      refine h.leaf_bind ?_
      rintro - - ⟨-, -, -, horder, -⟩ -
      obtain ⟨lower, same, upper, hp⟩ := Parted.exists_of_inKeyOrder horder key
      simp only [findCell_eq hp]
      cases hs : same.isSome with
      | true =>
          simp only [getElem?_of_parted hp hs]
          exact .pure ⟨rfl, lower, upper, hp⟩
      | false =>
          obtain rfl := Option.not_isSome_iff_eq_none.1 (Bool.eq_false_iff.1 hs)
          exact .pure ⟨rfl, lower, upper, hp⟩
  | succ n ih =>
      obtain ⟨fuel, rfl⟩ := Nat.exists_eq_succ_of_ne_zero (Nat.ne_of_gt (Nat.zero_lt_of_lt hfuel))
      refine h.interior_bind ?_
      intro first rest below _ _ _ hbranches _
      obtain ⟨before, mid, after, _, _, _, rfl, -, hway⟩ :=
        hbranches.exists_way (subtree_filled f n) key
      refine (ih hway.child (Nat.lt_of_succ_lt_succ hfuel)).post ?_
      rintro r g ⟨rfl, lower, upper, hp⟩
      exact ⟨rfl, _, _, hp.extend hway.below hway.above⟩

theorem does_firstFrom (h : Subtree f n id cells pages) (hfuel : n < fuel) :
    Does f (firstFrom fuel id) E fun r g => g = f ∧ r = cells.head? := by
  induction n generalizing fuel id cells pages with
  | zero =>
      obtain ⟨fuel, rfl⟩ := Nat.exists_eq_succ_of_ne_zero (Nat.ne_of_gt hfuel)
      refine h.leaf_bind ?_
      intro _ _ _ _
      exact .pure ⟨rfl, rfl⟩
  | succ n ih =>
      obtain ⟨fuel, rfl⟩ := Nat.exists_eq_succ_of_ne_zero (Nat.ne_of_gt (Nat.zero_lt_of_lt hfuel))
      refine h.interior_bind ?_
      intro first rest below _ _ _ hbranches _
      obtain ⟨seg, more, pages, hseg, rfl⟩ := hbranches.segments.head
      have hne := subtree_filled f n hseg
      refine (ih hseg (Nat.lt_of_succ_lt_succ hfuel)).post ?_
      rintro r g ⟨rfl, rfl⟩
      exact ⟨rfl, (List.head?_append_of_ne_nil seg hne).symm⟩

theorem does_lastFrom (h : Subtree f n id cells pages) (hfuel : n < fuel) :
    Does f (lastFrom fuel id) E fun r g => g = f ∧ r = cells.getLast? := by
  induction n generalizing fuel id cells pages with
  | zero =>
      obtain ⟨fuel, rfl⟩ := Nat.exists_eq_succ_of_ne_zero (Nat.ne_of_gt hfuel)
      refine h.leaf_bind ?_
      intro _ _ _ _
      exact .pure ⟨rfl, rfl⟩
  | succ n ih =>
      obtain ⟨fuel, rfl⟩ := Nat.exists_eq_succ_of_ne_zero (Nat.ne_of_gt (Nat.zero_lt_of_lt hfuel))
      refine h.interior_bind ?_
      intro first rest below _ _ _ hbranches _
      have hsegs := hbranches.segments
      rcases List.eq_nil_or_concat (Node.children first rest) with hnil | ⟨ids, id, hids⟩
      · cases hnil
      rw [hids, List.concat_eq_append] at hsegs
      obtain ⟨more, seg, pages, hseg, rfl⟩ := hsegs.last
      have hne := subtree_filled f n hseg
      have hlast : (Node.children first rest).getLastD first = id := by
        rw [hids, List.concat_eq_append, List.getLastD_concat]
      show Does f (lastFrom fuel ((Node.children first rest).getLastD first)) E _
      rw [hlast]
      refine (ih hseg (Nat.lt_of_succ_lt_succ hfuel)).post ?_
      rintro r g ⟨rfl, rfl⟩
      exact ⟨rfl, (List.getLast?_append_of_ne_nil more hne).symm⟩

/-! ## Neighbours -/

theorem does_firstFound_first {ids : List PageId} (h : Segments (Subtree f n) ids cells)
    (hfuel : n < fuel) :
    Does f (firstFound (firstFrom fuel) ids) E fun r g => g = f ∧ r = cells.head? := by
  cases ids with
  | nil =>
      rw [h.eq_nil]
      exact .pure ⟨rfl, rfl⟩
  | cons id ids =>
      obtain ⟨seg, more, pages, hseg, rfl⟩ := h.head
      have hne := subtree_filled f n hseg
      refine .bind (does_firstFrom hseg hfuel) ?_
      rintro r g ⟨rfl, rfl⟩
      rw [List.head?_append_of_ne_nil seg hne, List.head?_eq_some_head hne]
      exact .pure ⟨rfl, rfl⟩

theorem does_firstFound_last {ids : List PageId} (h : Segments (Subtree f n) ids cells)
    (hfuel : n < fuel) :
    Does f (firstFound (lastFrom fuel) ids.reverse) E fun r g => g = f ∧ r = cells.getLast? := by
  rcases List.eq_nil_or_concat ids with rfl | ⟨ids, id, rfl⟩
  · rw [h.eq_nil]
    exact .pure ⟨rfl, rfl⟩
  · rw [List.concat_eq_append] at h ⊢
    obtain ⟨more, seg, pages, hseg, rfl⟩ := h.last
    have hne := subtree_filled f n hseg
    rw [List.reverse_append, List.reverse_singleton, List.singleton_append]
    refine .bind (does_lastFrom hseg hfuel) ?_
    rintro r g ⟨rfl, rfl⟩
    rw [List.getLast?_append_of_ne_nil more hne, List.getLast?_eq_some_getLast hne]
    exact .pure ⟨rfl, rfl⟩

/-- **The first cell that is not below a bound.** -/
theorem does_ceilFrom (bound : Bytes) (strict : Bool) (h : Subtree f n id cells pages)
    {limit : Nat} (hlimit : n < limit) (hfuel : n < fuel) :
    Does f (ceilFrom bound strict limit fuel id) E fun r g =>
      g = f ∧ r = ceiling bound strict cells := by
  induction n generalizing fuel id cells pages with
  | zero =>
      obtain ⟨fuel, rfl⟩ := Nat.exists_eq_succ_of_ne_zero (Nat.ne_of_gt hfuel)
      refine h.leaf_bind ?_
      rintro - - ⟨-, -, -, horder, -⟩ -
      obtain ⟨before, after, rfl, hb, ha⟩ := exists_cut horder bound strict
      refine .pure ⟨rfl, ?_⟩
      rw [partitionPoint_append hb ha, ceiling_append, ceiling_of_below hb, Option.none_or,
        ceiling_of_not_below ha, List.getElem?_append_right (Nat.le_refl _), Nat.sub_self,
        List.head?_eq_getElem?]
  | succ n ih =>
      obtain ⟨fuel, rfl⟩ := Nat.exists_eq_succ_of_ne_zero (Nat.ne_of_gt (Nat.zero_lt_of_lt hfuel))
      refine h.interior_bind ?_
      intro first rest below _ _ _ hbranches _
      obtain ⟨lower, mid, upper, _, _, _, rfl, -, hway⟩ :=
        hbranches.exists_way (subtree_filled f n) bound
      have hlower : ceiling bound strict lower = none :=
        ceiling_of_below fun c hc => below_of_lt (hway.below c hc)
      have hupper : ceiling bound strict upper = upper.head? :=
        ceiling_of_not_below fun c hc => not_below_of_lt (hway.above c hc)
      rw [ceiling_append, ceiling_append, hlower, hupper, Option.none_or]
      refine .bind (ih hway.child (Nat.lt_of_succ_lt hlimit) (Nat.lt_of_succ_lt_succ hfuel)) ?_
      rintro r g ⟨rfl, rfl⟩
      cases hr : ceiling bound strict mid with
      | some c => exact .pure ⟨rfl, rfl⟩
      | none =>
          -- All cells of the child are below the bound: the first one behind it is wanted.
          rw [Option.none_or]
          exact does_firstFound_first hway.rights (Nat.lt_of_succ_lt hlimit)

/-- **The last cell that is below a bound.** -/
theorem does_floorFrom (bound : Bytes) (strict : Bool) (h : Subtree f n id cells pages)
    {limit : Nat} (hlimit : n < limit) (hfuel : n < fuel) :
    Does f (floorFrom bound strict limit fuel id) E fun r g =>
      g = f ∧ r = floor bound (!strict) cells := by
  induction n generalizing fuel id cells pages with
  | zero =>
      obtain ⟨fuel, rfl⟩ := Nat.exists_eq_succ_of_ne_zero (Nat.ne_of_gt hfuel)
      refine h.leaf_bind ?_
      rintro - - ⟨-, -, -, horder, -⟩ -
      obtain ⟨before, after, rfl, hb, ha⟩ := exists_cut horder bound (!strict)
      refine .pure ⟨rfl, ?_⟩
      rw [partitionPoint_append hb ha, floor_append, floor_of_not_below ha, Option.none_or,
        floor_of_below hb, List.take_left]
  | succ n ih =>
      obtain ⟨fuel, rfl⟩ := Nat.exists_eq_succ_of_ne_zero (Nat.ne_of_gt (Nat.zero_lt_of_lt hfuel))
      refine h.interior_bind ?_
      intro first rest below _ _ _ hbranches _
      obtain ⟨lower, mid, upper, _, _, _, rfl, -, hway⟩ :=
        hbranches.exists_way (subtree_filled f n) bound
      have hlower : floor bound (!strict) lower = lower.getLast? :=
        floor_of_below fun c hc => below_of_lt (hway.below c hc)
      have hupper : floor bound (!strict) upper = none :=
        floor_of_not_below fun c hc => not_below_of_lt (hway.above c hc)
      rw [floor_append, floor_append, hlower, hupper, Option.none_or]
      refine .bind (ih hway.child (Nat.lt_of_succ_lt hlimit) (Nat.lt_of_succ_lt_succ hfuel)) ?_
      rintro r g ⟨rfl, rfl⟩
      cases hr : floor bound (!strict) mid with
      | some c => exact .pure ⟨rfl, rfl⟩
      | none =>
          -- No cell of the child is below the bound: the last one before it is wanted.
          rw [Option.none_or]
          exact does_firstFound_last hway.lefts (Nat.lt_of_succ_lt hlimit)

end

end PagedStore.Tree
