import PagedStore.Proofs.TreeQueries

/-!
# Changing the records of a tree

Inserting a record into a tree and removing one do the same to the map that the file stores. The
chain of a new value is made first and the chain of a replaced one is given back last; in between
the tree may gain or lose nodes, up to a new root above the old one or none at all.
-/

set_option autoImplicit false

namespace PagedStore.Tree

open PagedStore.Action Pager

/-! ## The number of records -/

theorem toNat_addSaturating {n : UInt64} {delta : Int} {k : Nat}
    (h : (n.toNat : Int) + delta = k) (hk : k < UInt64.size) : (addSaturating n delta).toNat = k := by
  rw [addSaturating, h, Int.toNat_natCast, Nat.min_eq_right (Nat.le_sub_one_of_lt hk)]
  exact UInt64.toNat_ofNat_of_lt' hk

section

variable {f g : Face} {cells : List Cell} {records : List (Bytes × Bytes)} {m : Contents}
  {nodes chains used : Multiset PageId} {E : Error → Prop}

theorem Rooted.congr (h : Rooted f cells nodes) (hpages : ∀ p ∈ nodes, g.pages p = f.pages p)
    (hsize : g.pageSize = f.pageSize) (hroot : g.header.root = f.header.root) :
    Rooted g cells nodes := by
  cases h with
  | empty hnone => exact .empty (hroot.trans hnone)
  | tree htree => exact .tree (hroot ▸ htree.congr hpages hsize)

theorem Rooted.kept {kept : Multiset PageId} (h : Rooted f cells nodes) (hk : Kept kept f g)
    (hpages : ∀ p ∈ nodes, p ∈ kept) : Rooted g cells nodes :=
  h.congr (fun p hp => hk.pages p (hpages p hp)) hk.pageSize hk.root

/-- The root stays as it is with the nodes. -/
theorem Rooted.keyed_kept {kept : Multiset PageId} (h : Rooted f cells nodes) (hkeyed : f.RootKeyed)
    (hk : Kept kept f g) (hpages : ∀ p ∈ nodes, p ∈ kept) : g.RootKeyed := by
  intro hsome
  cases h with
  | empty hnone => exact absurd (hk.root.trans hnone) hsome
  | tree htree =>
      rw [hk.root] at hsome ⊢
      exact keyed_congr (hkeyed hsome) (hk.pages _ (hpages _ htree.mem_self))

/-- The count of records is brought up to date. -/
theorem does_adjustRecordCount [Codec] {delta : Int} (hrooted : Rooted f cells nodes)
    (hkeyed : f.RootKeyed)
    (hrecords : Records f cells records chains) (hb : Balanced f (nodes + chains))
    (hcount : (f.header.recordCount.toNat : Int) + delta = cells.length)
    (hlt : cells.length < UInt64.size) :
    Does f (adjustRecordCount delta) E fun _ g => Keeps g cells records nodes chains := by
  refine .adjustRecordCount ⟨?_, ?_, hb.withHeader _ _, toNat_addSaturating hcount hlt, hkeyed⟩
  · exact hrooted.congr (fun _ _ => rfl) rfl rfl
  · exact hrecords.congr (fun _ _ => rfl) rfl

/-! ## Inserting -/

/-- The end of an insertion: the replaced value is released, or the new record is counted. -/
theorem does_replace [Codec] {cell : Cell} {value : Bytes} {lower upper : List Cell}
    {same : Option Cell} {r₁ r₃ : List (Bytes × Bytes)} {r₂ : Option (Bytes × Bytes)}
    {own p₁ p₂ p₃ : Multiset PageId} (hrooted : Rooted f (lower ++ cell :: upper) nodes)
    (hkeyed : f.RootKeyed)
    (hlower : Records f lower r₁ p₁) (hsame : Records f same.toList r₂.toList p₂)
    (hupper : Records f upper r₃ p₃) (hvalue : ValueAt f cell.value value own)
    (hb : Balanced f (nodes + (own + (p₁ + (p₂ + p₃)))))
    (hp : Parted Prod.fst cell.key m.toList r₁ r₂ r₃)
    (hcount : f.header.recordCount.toNat = (lower ++ (same.toList ++ upper)).length) :
    Does f (match same.map Cell.value with
        | some old => releaseValue old
        | none => adjustRecordCount 1) E fun _ g => Stores g (m.insert cell.key value) := by
  refine Does.post (Q := fun _ g => ∃ nodes chains, Keeps g (lower ++ cell :: upper)
    (r₁ ++ (cell.key, value) :: r₃) nodes chains) ?_ fun _ g ⟨nodes, chains, hk⟩ =>
      ⟨_, nodes, chains, (Contents.toList_insert hp value).symm ▸ hk⟩
  have hrecords : Records f (lower ++ cell :: upper) (r₁ ++ (cell.key, value) :: r₃)
      (p₁ + (own + p₃)) := hlower.append (.cons hvalue hupper)
  refine .of_sane fun hs => ?_
  have hlt := hrooted.length_lt hb hs
  cases same with
  | none =>
      -- The record is new, and no page is given back.
      obtain ⟨-, rfl⟩ := hsame.eq_nil
      have hjoin : nodes + (own + (p₁ + (0 + p₃))) = nodes + (p₁ + (own + p₃)) := by
        rw [zero_add]
        ac_rfl
      rw [hjoin] at hb
      refine (does_adjustRecordCount hrooted hkeyed hrecords hb ?_ hlt).post fun _ g hk =>
        ⟨_, _, hk⟩
      rw [hcount]
      simp only [List.length_append, List.length_cons, Option.toList_none, List.length_nil]
      omega
  | some c =>
      -- As many cells as before: only the chain of the old value goes.
      obtain ⟨v, -, hold⟩ := hsame.eq_singleton
      have hjoin : nodes + (own + (p₁ + (p₂ + p₃))) = p₂ + (nodes + (p₁ + (own + p₃))) := by ac_rfl
      rw [hjoin] at hb
      refine (hold.release hb).post ?_
      rintro ⟨⟩ g ⟨hb', hk⟩
      have hnodes : ∀ p ∈ nodes, p ∈ nodes + (p₁ + (own + p₃)) := fun p hp =>
        Multiset.mem_add.2 (.inl hp)
      refine ⟨_, _, hrooted.kept hk hnodes, hrecords.kept hk fun p hp => ?_, hb', ?_,
        hrooted.keyed_kept hkeyed hk hnodes⟩
      · exact Multiset.mem_add.2 (.inr hp)
      · rw [hk.records, hcount]
        simp

/-- A single cell, or a single branch, fits any page. -/
theorem fits_leaf_singleton {pageSize : Nat} (hs : 512 ≤ pageSize) {cell : Cell}
    (hcell : cell.Short pageSize) : (Node.leaf [cell]).fits pageSize = true := by
  have hsize := hcell.size
  have h5 : Page.frontLength = 5 := rfl
  rw [inlineLimit] at hsize
  rw [Node.fits_iff, Node.size_leaf, List.map_singleton, List.sum_singleton]
  omega

theorem fits_interior_singleton {pageSize : Nat} (hs : 512 ≤ pageSize) (first : PageId)
    {branch : Bytes × PageId} (hkey : branch.1.length ≤ keyLimit pageSize) :
    (Node.interior first [branch]).fits pageSize = true := by
  have h5 : Page.frontLength = 5 := rfl
  rw [keyLimit] at hkey
  rw [Node.fits_iff, Node.size_interior, List.map_singleton, List.sum_singleton,
    Node.branchSize]
  omega

/-- A root that was divided gets a new root above it. -/
theorem does_raise_bind {n : Nat} {root : PageId} {branch : Bytes × PageId}
    {k : Unit → Action Pager Unit} {Q : Unit → Face → Prop}
    (h : Branches (Subtree f n) root [branch] cells nodes)
    (hkeys : ShortKeys f.pageSize [branch]) (hb : Balanced f (nodes + used))
    (hk : ∀ {g id}, Rooted g cells ({id} + nodes) → g.RootKeyed →
      Balanced g (({id} + nodes) + used) →
      Kept used (f.withRoot id) g → Does g (k ()) IsFull Q) :
    Does f (create (.interior root [branch]) >>= fun id => setRoot id >>= k) IsFull Q := by
  refine .of_sane fun hs => ?_
  have hbody : Body f (n + 1) (.interior root [branch]) cells nodes := ⟨hkeys, h⟩
  have hfits := fits_interior_singleton hs.bounds.1 root (hkeys branch List.mem_cons_self)
  refine .bind (does_create hbody hfits hb) ?_
  rintro id g ⟨htree, hb', hk', hnode⟩
  refine .bind (Q := fun _ g' => g' = g.withRoot id) (.setRoot rfl) ?_
  rintro ⟨⟩ _ rfl
  have hkeyed : g.Keyed id := keyed_of_interior hnode (List.cons_ne_nil _ _)
  refine hk (.tree (htree.congr (fun _ _ => rfl) rfl)) (fun _ => hkeyed) (hb'.withRoot id) ?_
  exact (hk'.mono fun p hp => Multiset.mem_add.2 (.inr hp)).withRoot id

variable [Codec]

/-- **Inserting into a tree with a root.** -/
theorem does_insertAt {n : Nat} {cell : Cell} {value : Bytes} {own : Multiset PageId}
    (htree : Subtree f n f.header.root cells nodes) (hkeyed : f.RootKeyed)
    (hrecords : Records f cells m.toList chains)
    (hvalue : ValueAt f cell.value value own) (hcell : cell.Short f.pageSize)
    (hb : Balanced f (nodes + (own + chains)))
    (hcount : f.header.recordCount.toNat = cells.length) :
    Does f (insertAt f.header.root cell) IsFull fun _ g => Stores g (m.insert cell.key value) := by
  refine .bind (htree.does_depthLimit hb) ?_
  rintro fuel g ⟨rfl, hfuel⟩
  refine .bind (does_insertFrom hcell htree hb hfuel) ?_
  rintro ⟨replaced, sibling⟩ k
    ⟨⟨lower, same, upper, pages, hp, rfl, hbranches, hb'⟩, hkeys, hk, hkeyed'⟩
  obtain ⟨r₁, r₂, r₃, p₁, p₂, p₃, rfl, h₁, h₂, h₃, hp', -⟩ := hrecords.parted hp
  rw [hp.eq] at hcount
  -- The new value and the records are on pages that no later step changes.
  have finish : ∀ {k' : Face} {nodes' : Multiset PageId} {root : PageId},
      Rooted k' (lower ++ cell :: upper) nodes' → k'.RootKeyed →
      Balanced k' (nodes' + (own + (p₁ + (p₂ + p₃)))) →
      Kept (own + (p₁ + (p₂ + p₃))) (g.withRoot root) k' →
      Does k' (match same.map Cell.value with
        | some old => releaseValue old
        | none => adjustRecordCount 1) IsFull fun _ g => Stores g (m.insert cell.key value) := by
    intro k' nodes' root hrooted hrootKeyed hb' hk'
    have hpages : ∀ p ∈ own + (p₁ + (p₂ + p₃)), k'.pages p = g.pages p := hk'.pages
    have hcount' : k'.header.recordCount = g.header.recordCount := hk'.records
    rw [← hcount'] at hcount
    refine does_replace hrooted hrootKeyed ?_ ?_ ?_ ?_ hb' hp' hcount
    -- The four that are left are the records before, at and behind the key, and the new value.
    · exact h₁.congr (fun p hp => hpages p (by simp [hp])) hk'.pageSize
    · exact h₂.congr (fun p hp => hpages p (by simp [hp])) hk'.pageSize
    · exact h₃.congr (fun p hp => hpages p (by simp [hp])) hk'.pageSize
    · exact hvalue.congr (fun p hp => hpages p (by simp [hp])) hk'.pageSize
  cases sibling with
  | none =>
      cases hbranches with
      | last hchild =>
          have hrootKeyed : k.RootKeyed := fun hsome => by
            rw [hk.root] at hsome ⊢
            exact hkeyed' rfl (hkeyed hsome)
          rw [← hk.root] at hchild
          exact @finish k _ g.header.root (.tree hchild) hrootKeyed hb' hk
  | some branch =>
      refine does_raise_bind hbranches hkeys hb' fun hrooted hrootKeyed hb'' hk' => ?_
      exact finish hrooted hrootKeyed hb'' ((hk.withRoot _).trans hk')

/-- The first record of a file goes into a leaf, which becomes the root. -/
theorem does_plant {cell : Cell} {value : Bytes} {own : Multiset PageId} (hm : m.toList = [])
    (hvalue : ValueAt f cell.value value own) (hcell : cell.Short f.pageSize)
    (hb : Balanced f (0 + (own + 0))) (hcount : f.header.recordCount.toNat = 0) :
    Does f (do
        setRoot (← create (.leaf [cell]))
        adjustRecordCount 1) IsFull fun _ g => Stores g (m.insert cell.key value) := by
  refine .of_sane fun hs => ?_
  have hp : Parted Prod.fst cell.key m.toList [] none [] := by
    rw [hm]
    exact .nil Prod.fst cell.key
  have hbody : Body f 0 (.leaf [cell]) [cell] 0 := by
    refine ⟨rfl, rfl, List.cons_ne_nil _ _, List.pairwise_singleton _ _, fun a ha => ?_⟩
    obtain rfl := List.mem_singleton.1 ha
    exact hcell
  refine .bind (does_create hbody (fits_leaf_singleton hs.bounds.1 hcell) hb) ?_
  rintro id g ⟨htree, hb', hk, hnode⟩
  refine .bind (Q := fun _ g' => g' = g.withRoot id) (.setRoot rfl) ?_
  rintro ⟨⟩ _ rfl
  have hrooted : Rooted (g.withRoot id) [cell] ({id} + 0) :=
    .tree (htree.congr (fun _ _ => rfl) rfl)
  have hkeyed : g.Keyed id := keyed_of_leaf hnode
  have hvalue' : ValueAt (g.withRoot id) cell.value value own :=
    hvalue.congr (fun p hp => hk.pages p (by simp [hp])) hk.pageSize
  have hrecords : Records (g.withRoot id) [cell] [(cell.key, value)] (own + 0) :=
    .cons hvalue' .nil
  have hcount' : ((g.withRoot id).header.recordCount.toNat : Int) + 1 = 1 := by
    show (g.header.recordCount.toNat : Int) + 1 = 1
    rw [hk.records, hcount]
    rfl
  have hroom : 1 < UInt64.size := by decide
  refine (does_adjustRecordCount hrooted (fun _ => hkeyed) hrecords (hb'.withRoot id) hcount'
    hroom).post ?_
  rintro ⟨⟩ k hk'
  refine ⟨[cell], {id} + 0, own + 0, ?_⟩
  rw [Contents.toList_insert hp]
  exact hk'

/-- **Inserting puts the record into the map.** -/
theorem does_insert [Codec.Lawful] (c : Compression) {key value : Bytes} (h : Stores f m)
    (hkey : key.length ≤ keyLimit f.pageSize) :
    Does f (insert c key value) Refused fun _ g => Stores g (m.insert key value) := by
  obtain ⟨cells, nodes, chains, hk⟩ := h
  refine .bind (does_makeValue c hkey hk.balanced) ?_
  rintro v g ⟨own, hvalue, hsize, hb, hkept⟩
  refine .of_sane fun hs => .self_bind fun p hh _ _ => ?_
  rw [hh]
  have hrooted : Rooted g cells nodes :=
    hk.rooted.kept hkept fun p hp => Multiset.mem_add.2 (.inl hp)
  have hrecords : Records g cells m.toList chains :=
    hk.records.kept hkept fun p hp => Multiset.mem_add.2 (.inr hp)
  have hkeyed : g.RootKeyed :=
    hk.rooted.keyed_kept hk.keyed hkept fun p hp => Multiset.mem_add.2 (.inl hp)
  have hcount : g.header.recordCount.toNat = cells.length := hkept.records ▸ hk.counted
  have hcell : (Cell.mk key v).Short g.pageSize := by
    constructor
    · rwa [hkept.pageSize]
    · rwa [hkept.pageSize]
  have hjoin : own + (nodes + chains) = nodes + (own + chains) := by ac_rfl
  rw [hjoin] at hb
  by_cases h0 : g.header.root = 0
  · rw [if_pos h0]
    obtain ⟨rfl, rfl⟩ := hrooted.eq_empty hs h0
    obtain ⟨hnil, rfl⟩ := hrecords.eq_nil
    exact (does_plant hnil hvalue hcell hb hcount).mono (fun _ he => .inl he) fun _ _ hq => hq
  · rw [if_neg h0]
    obtain ⟨n, htree⟩ := hrooted.exists_tree h0
    exact (does_insertAt htree hkeyed hrecords hvalue hcell hb hcount).mono (fun _ he => .inl he)
      fun _ _ hq => hq

/-! ## Removing -/

/-- The end of a removal that leaves some records: the chain of the value is given back, the record
is no longer counted, and the root may collapse. -/
theorem does_removed_left {key : Bytes} {n : Nat} {root : PageId} {lower upper : List Cell}
    {c : Cell} {pages : Multiset PageId} (hp : Parted Cell.key key cells lower (some c) upper)
    (htree : Subtree f n root (lower ++ upper) pages) (hroot : f.header.root = root)
    (hrecords : Records f cells m.toList chains) (hb : Balanced f (pages + chains))
    (hcount : f.header.recordCount.toNat = cells.length) :
    Does f (do
        releaseValue c.value
        adjustRecordCount (-1)
        collapse (← depthLimit) root
        return true) E fun r g => r = true ∧ Stores g (m.erase key) := by
  obtain ⟨r₁, r₂, r₃, p₁, p₂, p₃, rfl, h₁, h₂, h₃, hp', -⟩ := hrecords.parted hp
  obtain ⟨v, -, hvalue⟩ := h₂.eq_singleton
  have hjoin : pages + (p₁ + (p₂ + p₃)) = p₂ + (pages + (p₁ + p₃)) := by ac_rfl
  rw [hjoin] at hb
  refine .bind (hvalue.release hb) ?_
  rintro ⟨⟩ g ⟨hb', hk⟩
  refine .bind (Q := fun _ g' => g' = g.counting (-1)) (.adjustRecordCount rfl) ?_
  rintro ⟨⟩ _ rfl
  have htree' : Subtree (g.counting (-1)) n root (lower ++ upper) pages :=
    htree.congr (fun p hp => hk.pages p (Multiset.mem_add.2 (.inl hp))) hk.pageSize
  have hroot' : (g.counting (-1)).header.root = root := hk.root.trans hroot
  have hb'' := hb'.counting (-1)
  refine .bind (htree'.does_depthLimit hb'') ?_
  rintro fuel _ ⟨rfl, hfuel⟩
  refine .bind (does_collapse htree' hroot' hb'' hfuel) ?_
  rintro ⟨⟩ k ⟨n', nodes', hcollapsed, hbalanced, hk', hkeyed⟩
  -- What the other records are stored in is touched neither by the release nor by the collapse.
  have hpages : ∀ p ∈ p₁ + p₃, k.pages p = f.pages p := fun p hp =>
    (hk'.pages p hp).trans (hk.pages p (Multiset.mem_add.2 (.inr hp)))
  have hsize : k.pageSize = f.pageSize := hk'.pageSize.trans hk.pageSize
  refine .pure ⟨rfl, lower ++ upper, nodes', p₁ + p₃, .tree hcollapsed, ?_, hbalanced, ?_, hkeyed⟩
  · rw [Contents.toList_erase hp']
    exact (h₁.congr (fun p hp => hpages p (by simp [hp])) hsize).append
      (h₃.congr (fun p hp => hpages p (by simp [hp])) hsize)
  · have hlen : cells.length = (lower ++ upper).length + 1 := by
      rw [hp.eq]
      simp only [List.length_append, Option.toList_some, List.length_cons, List.length_nil]
      omega
    have hlt : f.header.recordCount.toNat < UInt64.size := f.header.recordCount.toNat_lt
    rw [hk'.records]
    show (addSaturating g.header.recordCount (-1)).toNat = _
    rw [hk.records]
    exact toNat_addSaturating (by omega) (by omega)

/-- The end of a removal that leaves nothing. -/
theorem does_removed_last {c : Cell} (hrecords : Records f [c] m.toList chains)
    (hb : Balanced f chains) (hcount : f.header.recordCount.toNat = 1) :
    Does f (do
        releaseValue c.value
        adjustRecordCount (-1)
        setRoot 0
        return true) E fun r g => r = true ∧ Stores g (m.erase c.key) := by
  obtain ⟨v, hlist, hvalue⟩ := hrecords.eq_singleton
  have hp : Parted Prod.fst c.key m.toList [] (some (c.key, v)) [] := by
    rw [hlist]
    exact .singleton rfl
  rw [← add_zero chains] at hb
  refine .bind (hvalue.release hb) ?_
  rintro ⟨⟩ g ⟨hb', hk⟩
  refine .bind (Q := fun _ g' => g' = g.counting (-1)) (.adjustRecordCount rfl) ?_
  rintro ⟨⟩ _ rfl
  refine .bind (Q := fun _ g' => g' = (g.counting (-1)).withRoot 0) (.setRoot rfl) ?_
  rintro ⟨⟩ _ rfl
  refine .pure ⟨rfl, [], 0, 0, .empty rfl, ?_, (hb'.counting (-1)).withRoot 0, ?_,
    fun hsome => absurd rfl hsome⟩
  · rw [Contents.toList_erase hp]
    exact .nil
  · show (addSaturating g.header.recordCount (-1)).toNat = 0
    rw [hk.records]
    exact toNat_addSaturating (by omega) (by decide)

/-- The map contains a key exactly if there is a cell with it. -/
theorem Records.contains_eq {key : Bytes} {lower upper : List Cell} {same : Option Cell}
    (h : Records f cells m.toList chains) (hp : Parted Cell.key key cells lower same upper) :
    m.contains key = same.isSome := by
  obtain ⟨r₁, r₂, r₃, p₁, p₂, p₃, -, -, -, -, hp', hsome⟩ := h.parted hp
  rw [Std.ExtTreeMap.contains_eq_isSome_getElem?, Contents.getElem?_of_parted hp',
    Option.isSome_map, hsome]

/-- Where there is no cell with the key there is nothing to erase. -/
theorem Keeps.erase_absent {key : Bytes} {lower upper : List Cell}
    (h : Keeps f cells m.toList nodes chains)
    (hp : Parted Cell.key key cells lower none upper) : Stores f (m.erase key) := by
  obtain ⟨r₁, r₂, r₃, p₁, p₂, p₃, rfl, -, -, -, hp', hsome⟩ := h.records.parted hp
  obtain rfl : r₂ = none := Option.isNone_iff_eq_none.1 (by simpa using hsome)
  have heq := hp'.eq
  rw [Option.toList_none, List.nil_append] at heq
  refine ⟨cells, nodes, _, h.rooted, ?_, h.balanced, h.counted, h.keyed⟩
  rw [Contents.toList_erase hp', ← heq]
  exact h.records

/-- **Removing erases the record from the map**, and tells whether there was one. -/
theorem does_remove (h : Stores f m) (key : Bytes) :
    Does f (remove key) E fun r g => r = m.contains key ∧ Stores g (m.erase key) := by
  obtain ⟨cells, nodes, chains, hk⟩ := h
  have habsent : ∀ {lower upper : List Cell}, Parted Cell.key key cells lower none upper →
      false = m.contains key ∧ Stores f (m.erase key) := fun hp =>
    ⟨(hk.records.contains_eq hp).symm, hk.erase_absent hp⟩
  refine .of_sane fun hs => .self_bind fun p hh _ _ => ?_
  rw [hh]
  by_cases h0 : f.header.root = 0
  · rw [if_pos h0]
    obtain ⟨rfl, rfl⟩ := hk.rooted.eq_empty hs h0
    exact .pure (habsent (.nil Cell.key key))
  rw [if_neg h0]
  obtain ⟨n, htree⟩ := hk.rooted.exists_tree h0
  refine .bind (htree.does_depthLimit hk.balanced) ?_
  rintro fuel g ⟨rfl, hfuel⟩
  refine .bind (does_removeFrom htree hk.balanced hfuel) ?_
  intro result g' hr
  cases hr with
  | absent hp => exact .pure (habsent hp)
  | @emptied c _ honly hkey hb hkept =>
      subst honly hkey
      have hrecords := hk.records.kept hkept fun p hp => hp
      have hcount : g'.header.recordCount.toNat = 1 := hkept.records ▸ hk.counted
      refine (does_removed_last hrecords hb hcount).post ?_
      rintro r k ⟨rfl, hstores⟩
      exact ⟨(hk.records.contains_eq (.singleton rfl)).symm, hstores⟩
  | @left lower upper c pages _ hp htree' hb hkept =>
      have hrecords := hk.records.kept hkept fun p hp => hp
      have hcount : g'.header.recordCount.toNat = cells.length := hkept.records ▸ hk.counted
      refine (does_removed_left hp htree' hkept.root hrecords hb hcount).post ?_
      rintro r k ⟨rfl, hstores⟩
      exact ⟨(hk.records.contains_eq hp).symm, hstores⟩

end

end PagedStore.Tree
