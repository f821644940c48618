import PagedStore.Proofs.CheckedInsertion
import PagedStore.Proofs.Closing

/-!
# Splits

A node that one cell or one branch has made too large is divided into two. Nothing is lost by that:
the cells of a leaf, or the keys and children of an interior node, are those of the two parts and
of the key between them. And both parts fit their pages again, so that a node is never divided
twice.

For leaves this rests on the length of cells alone. A cell that was made for a record is a quarter
of the page at most, whether its value stands in the leaf or not. For interior nodes it rests on
the length of all keys, not only of the one that came last: keys of records are an eighth of the
page at most, and up to three eighths would do. A key that nearly fills the page can leave a part
without keys (`long_key_leaves_no_keys`).
-/

set_option autoImplicit false

namespace PagedStore.Tree

open PagedStore.Action Pager

/-! ## Cells as they are made -/

/-- A cell with a key that a record may have and the value that was made for it. -/
def Cell.Made [Codec] (pageSize : Nat) (c : Cell) : Prop :=
  c.key.length ≤ keyLimit pageSize ∧ ∃ (compression : Compression) (value : Bytes) (p p' : Pager)
    (d d' : Disk), p.pageSize = pageSize ∧
      (makeValue compression c.key value).exec p d = (.ok c.value, p', d')

section

variable {pageSize : Nat} {c : Cell} {cells before : List Cell}

/-- **A cell as it is made is a quarter of the page at most**, even if its value is in a chain. -/
theorem Cell.Made.size_le [Codec] (hps : 512 ≤ pageSize) (h : c.Made pageSize) :
    c.size ≤ inlineLimit pageSize := by
  obtain ⟨key, v⟩ := c
  obtain ⟨hkey, compression, value, p, p', d, d', rfl, h⟩ := h
  rw [makeValue, exec_bind, exec_self] at h
  dsimp only at h hkey
  split at h
  · rename_i hshort
    obtain ⟨rfl, -, -⟩ := exec_ok_inj h
    exact hshort
  · split at h
    · cases h
    · obtain ⟨packed, q, e, -, h⟩ := of_exec_bind_ok h
      obtain ⟨head, q', e', -, h⟩ := of_exec_bind_ok h
      obtain ⟨rfl, -, -⟩ := exec_ok_inj h
      rw [keyLimit] at hkey
      rw [inlineLimit]
      show 2 + key.length + 9 ≤ _
      omega

/-- A short value stays in the leaf. -/
theorem Cell.made_inline [Codec] {p : Pager} {key value : Bytes}
    (hkey : key.length ≤ keyLimit p.pageSize)
    (hsize : (Cell.mk key (.inline value)).size ≤ inlineLimit p.pageSize) :
    (Cell.mk key (.inline value)).Made p.pageSize := by
  refine ⟨hkey, .off, value, p, p, .empty, .empty, rfl, ?_⟩
  rw [makeValue, exec_bind, exec_self]
  dsimp only
  rw [if_pos hsize]
  rfl

/-! ## One cell more, or another value -/

/-- A list of cells to which one was added, or of which one has another value. -/
inductive Changed (before : List Cell) : List Cell → Prop where
  | added {i : Nat} (hi : i ≤ before.length) (cell : Cell) :
      Changed before (before.insertIdx i cell)
  | replaced {i : Nat} (hi : i < before.length) (value : CellValue) :
      Changed before (before.set i ⟨before[i].key, value⟩)

/-- The list is longer by one cell at most. -/
theorem Changed.sum_le {m : Nat} (h : Changed before cells) (hm : ∀ c ∈ cells, c.size ≤ m) :
    (cells.map Cell.size).sum ≤ (before.map Cell.size).sum + m := by
  cases h with
  | @added i hi cell =>
      have hperm := List.perm_insertIdx cell before hi
      have hcell := hm cell (hperm.mem_iff.2 List.mem_cons_self)
      rw [(hperm.map Cell.size).sum_eq, List.map_cons, List.sum_cons]
      omega
  | @replaced i hi value =>
      generalize Cell.mk before[i].key value = cell at hm ⊢
      have hcell := hm cell (List.mem_set hi cell)
      have hparts : before = before.take i ++ before[i] :: before.drop (i + 1) := by
        rw [← List.drop_eq_getElem_cons hi, List.take_append_drop]
      have hsum := congrArg (fun cs => (cs.map Cell.size).sum) hparts
      rw [List.set_eq_take_append_cons_drop, if_pos hi]
      simp only [List.map_append, List.map_cons, List.sum_append, List.sum_cons] at hsum ⊢
      omega

/-- What insertion does to the cells of a leaf is one of the two, whether they are in order or
not. -/
theorem changed_putCell (cell : Cell) (before : List Cell) :
    Changed before (putCell cell before).1 := by
  rw [putCell]
  cases h : Node.findCell cell.key before with
  | mk i found =>
      obtain ⟨hfound, hmissing⟩ := of_bisect h
      cases found with
      | false => exact .added (hmissing rfl) cell
      | true =>
          obtain ⟨old, hold, hkey⟩ := hfound rfl
          obtain ⟨hi, hget⟩ := List.getElem?_eq_some_iff.1 hold
          have hcell : cell = ⟨before[i].key, cell.value⟩ := by
            rw [hget, compare_eq_eq.1 hkey]
          have hreplaced := Changed.replaced hi cell.value
          rw [← hcell] at hreplaced
          exact hreplaced

end

/-! ## Parts -/

/-- The two parts of a leaf. -/
structure LeafSplit (pageSize : Nat) (cells left right : List Cell) (separator : Bytes) : Prop where
  divided : divide (.leaf cells) = .ok (.leaf left, separator, .leaf right)
  together : left ++ right = cells
  left_ne : left ≠ []
  right_ne : right ≠ []
  separates : right.head?.map Cell.key = some separator
  left_fits : (Node.leaf left).fits pageSize = true
  right_fits : (Node.leaf right).fits pageSize = true

/-- The two parts of an interior node, and the key that moves up. -/
structure InteriorSplit (first : PageId) (rest left : List (Bytes × PageId)) (separator : Bytes)
    (child : PageId) (right : List (Bytes × PageId)) : Prop where
  divided : divide (.interior first rest) =
    .ok (.interior first left, separator, .interior child right)
  keys : left.map Prod.fst ++ separator :: right.map Prod.fst = rest.map Prod.fst
  children : Node.children first left ++ Node.children child right = Node.children first rest
  /-- On both sides there is one child more than there are keys. -/
  lefts : (Node.children first left).length = (left.map Prod.fst).length + 1
  rights : (Node.children child right).length = (right.map Prod.fst).length + 1
  left_ne : left ≠ []

/-- Parts that have keys and fit. -/
structure FittingSplit (pageSize : Nat) (first : PageId) (rest left : List (Bytes × PageId))
    (separator : Bytes) (child : PageId) (right : List (Bytes × PageId)) : Prop extends
    InteriorSplit first rest left separator child right where
  right_ne : right ≠ []
  left_fits : (Node.interior first left).fits pageSize = true
  right_fits : (Node.interior child right).fits pageSize = true

/-! ## Nodes that are too large -/

/-- A leaf that fitted its page before one of its cells, all of them made for records, was added or
had its value replaced, and does not fit any longer. -/
structure OverfullLeaf [Codec] (pageSize : Nat) (cells : List Cell) : Prop where
  fitted : ∃ before, (Node.leaf before).fits pageSize = true ∧ Changed before cells
  made : ∀ c ∈ cells, c.Made pageSize
  tooLarge : (Node.leaf cells).fits pageSize = false

/-- An interior node that fitted its page before a branch with the key of a record was added, and
does not fit any longer. The other keys may be of any length. -/
structure OverfullInterior (pageSize : Nat) (first : PageId) (rest : List (Bytes × PageId)) :
    Prop where
  fitted : ∃ before i branch, (Node.interior first before).fits pageSize = true ∧
    i ≤ before.length ∧ branch.1.length ≤ keyLimit pageSize ∧ rest = before.insertIdx i branch
  tooLarge : (Node.interior first rest).fits pageSize = false

/-- Storing a node fails no check, on whatever page of whatever file. -/
def PassesChecks (pageSize : Nat) (node : Node) : Prop :=
  ∀ id, Calm (OfPages pageSize) (storeDivided id node)

section

variable {pageSize : Nat} {cells : List Cell} {first : PageId} {rest : List (Bytes × PageId)}

section

variable [Codec]

theorem OverfullLeaf.swollen (hps : 512 ≤ pageSize) (h : OverfullLeaf pageSize cells) :
    (Node.leaf cells).Swollen pageSize := by
  obtain ⟨before, hfits, hchanged⟩ := h.fitted
  have hsum := hchanged.sum_le fun c hc => (h.made c hc).size_le hps
  have h5 : Page.frontLength = 5 := rfl
  rw [Node.fits_iff, Node.size_leaf] at hfits
  rw [Node.Swollen]
  omega

/-- **A leaf that is too large is divided into two that are not.** -/
theorem OverfullLeaf.split (hps : 512 ≤ pageSize) (h : OverfullLeaf pageSize cells) :
    ∃ left right separator, LeafSplit pageSize cells left right separator := by
  obtain ⟨left, c, right, hcells, hne, hdivide, hleft, hright⟩ := Node.divide_leaf hps
    (fun c hc => (h.made c hc).size_le hps) h.tooLarge (h.swollen hps)
  exact ⟨left, c :: right, c.key, hdivide, hcells.symm, hne, List.cons_ne_nil _ _, rfl, hleft,
    hright⟩

theorem OverfullLeaf.passesChecks (hps : 512 ≤ pageSize) (h : OverfullLeaf pageSize cells) :
    PassesChecks pageSize (.leaf cells) := by
  obtain ⟨left, right, separator, hsplit⟩ := h.split hps
  exact calm_storeDivided fun _ =>
    ⟨_, _, _, hsplit.divided, hsplit.left_fits, hsplit.right_fits⟩

end

theorem OverfullInterior.swollen (hps : 512 ≤ pageSize)
    (h : OverfullInterior pageSize first rest) : (Node.interior first rest).Swollen pageSize := by
  obtain ⟨before, i, branch, hfits, hi, hkey, rfl⟩ := h.fitted
  exact swollen_interior hps hi hfits hkey

/-- A single key would fit, so there are more. -/
theorem OverfullInterior.two_le (hps : 512 ≤ pageSize)
    (h : OverfullInterior pageSize first rest) : 2 ≤ rest.length := by
  obtain ⟨before, i, branch, -, hi, hkey, rfl⟩ := h.fitted
  rw [List.length_insertIdx_of_le_length hi]
  cases before with
  | nil =>
      obtain rfl := Nat.le_zero.1 hi
      have hbig := h.tooLarge
      rw [List.insertIdx_zero, fits_interior_singleton hps first hkey] at hbig
      cases hbig
  | cons b before => exact Nat.le_add_left _ _

/-- The parts of a node, whatever the lengths of its keys are. -/
theorem interiorSplit_of_eq {left right : List (Bytes × PageId)} {key : Bytes} {child : PageId}
    (hrest : rest = left ++ (key, child) :: right) (hne : left ≠ [])
    (hdivide : divide (.interior first rest) =
      .ok (.interior first left, key, .interior child right)) :
    InteriorSplit first rest left key child right := by
  refine ⟨hdivide, ?_, ?_, ?_, ?_, hne⟩
  · rw [hrest, List.map_append, List.map_cons]
  · rw [hrest, Branches.children_append]
  · rw [Node.children, List.length_cons, List.length_map, List.length_map]
  · rw [Node.children, List.length_cons, List.length_map, List.length_map]

/-- **An interior node that is too large is divided without loss**, and keeps a key on the left. -/
theorem OverfullInterior.split (hps : 512 ≤ pageSize)
    (h : OverfullInterior pageSize first rest) :
    ∃ left separator child right, InteriorSplit first rest left separator child right := by
  obtain ⟨left, key, child, right, hrest, hne, -, -, hdivide⟩ :=
    Node.divide_interior_eq (h.two_le hps) first
  exact ⟨left, key, child, right, interiorSplit_of_eq hrest hne hdivide⟩

/-- **If no key is too long, both parts have keys and fit.** -/
theorem OverfullInterior.fittingSplit (hps : 512 ≤ pageSize)
    (h : OverfullInterior pageSize first rest) (hm : ∀ b ∈ rest, 8 * b.1.length ≤ 3 * pageSize) :
    ∃ left separator child right, FittingSplit pageSize first rest left separator child right := by
  obtain ⟨left, key, child, right, hrest, hne, hne', hdivide, hleft, hright⟩ :=
    Node.divide_interior_of_le hps hm first h.tooLarge (h.swollen hps)
  exact ⟨left, key, child, right, interiorSplit_of_eq hrest hne hdivide, hne', hleft, hright⟩

theorem OverfullInterior.passesChecks (hps : 512 ≤ pageSize)
    (h : OverfullInterior pageSize first rest) (hm : ∀ b ∈ rest, 8 * b.1.length ≤ 3 * pageSize) :
    PassesChecks pageSize (.interior first rest) := by
  obtain ⟨left, separator, child, right, hsplit⟩ := h.fittingSplit hps hm
  exact calm_storeDivided fun _ =>
    ⟨_, _, _, hsplit.divided, hsplit.left_fits, hsplit.right_fits⟩

end

/-! ## The main result -/

/-- **Splits lose nothing, and what they store fits.** For every length of pages that options can
have:

* a leaf that one cell has made too large is divided into two that have cells and fit;
* an interior node that one branch has made too large is divided without loss at one of its keys,
  with keys on the left, whatever the lengths of the others are;
* if none of these is longer than three eighths of the page, there are keys on both sides, and both
  parts fit.

No such leaf and no such node with keys of that length fails a check when it is stored, and none
fails when a record is put into a tree of records. -/
theorem splits_lose_nothing [Codec] [Codec.Lawful] {o : Options} (hvalid : o.validate = .ok ()) :
    (∀ cells, OverfullLeaf o.pageSize cells → PassesChecks o.pageSize (.leaf cells) ∧
      ∃ left right separator, LeafSplit o.pageSize cells left right separator) ∧
    (∀ first rest, OverfullInterior o.pageSize first rest →
      2 ≤ rest.length ∧
        ∃ left separator child right, InteriorSplit first rest left separator child right) ∧
    (∀ first rest, OverfullInterior o.pageSize first rest →
      (∀ b ∈ rest, 8 * b.1.length ≤ 3 * o.pageSize) →
        PassesChecks o.pageSize (.interior first rest) ∧ ∃ left separator child right,
          FittingSplit o.pageSize first rest left separator child right) ∧
    ∀ (p : Pager) (d : Disk) (m : Contents) (c : Compression) (key value : Bytes),
      Ready p d → Stores (p.face d) m → key.length ≤ keyLimit p.pageSize →
        ((insert c key value).exec p d).1 ≠ .error .panicked := by
  have hps := (pageSize_bounds (pageSize_of_validate hvalid)).1
  refine ⟨fun cells h => ⟨h.passesChecks hps, h.split hps⟩,
    fun first rest h => ⟨h.two_le hps, h.split hps⟩,
    fun first rest h hm => ⟨h.passesChecks hps hm, h.fittingSplit hps hm⟩, ?_⟩
  intro p d m c key value hp hm hkey hpanicked
  have hinsert : Does (p.face d) (insert c key value) Refused fun _ g =>
      Stores g (m.insert key value) := does_insert c hm hkey
  obtain ⟨r, q, hexec, -, hr⟩ := hinsert p d hp rfl
  rw [hexec] at hpanicked
  cases hpanicked
  exact Refused.ne_panicked hr rfl

/-! ## Small pages -/

/-- Five cells, of which four fill a page of 512 bytes. -/
def fiveCells : List Cell :=
  (List.range 5).map fun i => ⟨[UInt8.ofNat i], .inline (List.replicate 118 0)⟩

/-- Eight branches with keys of an eighth of that page, of which seven fill it. -/
def eightBranches : List (Bytes × PageId) :=
  (List.range 8).map fun i => (List.replicate 64 (UInt8.ofNat i), UInt32.ofNat (i + 2))

theorem overfull_fiveCells : OverfullLeaf 512 fiveCells := by
  refine ⟨⟨fiveCells.take 4, by decide +kernel, ?_⟩, fun c hc => ?_, by decide +kernel⟩
  · have hadded : Changed (fiveCells.take 4) ((fiveCells.take 4).insertIdx 4 _) :=
      .added (Nat.le_refl 4) ⟨[4], .inline (List.replicate 118 0)⟩
    exact hadded
  · obtain ⟨i, -, rfl⟩ := List.mem_map.1 hc
    have hkey : 1 ≤ keyLimit 512 := by decide
    exact Cell.made_inline (p := Database.emptyPager none) hkey (Nat.le_add_left 126 2)

theorem overfull_eightBranches : OverfullInterior 512 1 eightBranches :=
  ⟨⟨eightBranches.take 7, 7, (List.replicate 64 7, 9), by decide +kernel, Nat.le_refl 7,
    Nat.le_refl 64, rfl⟩, by decide +kernel⟩

/-- Both are divided into parts that fit, and in an empty file no check fails. -/
theorem splits_lose_nothing_small_pages :
    (∃ left right separator, LeafSplit 512 fiveCells left right separator) ∧
      (∃ left separator child right, FittingSplit 512 1 eightBranches left separator child right) ∧
      ((insert .off [1] [2]).exec (Database.emptyPager none) (Database.openedFiles none)).1 ≠
        .error .panicked := by
  have hvalid : ({ pageSize := 512 } : Options).validate = .ok () := rfl
  have hserves := (Database.reached_onEmptyFile none).2
  obtain ⟨hleaf, -, hinterior, hinsert⟩ := splits_lose_nothing hvalid
  have hkeys : ∀ b ∈ eightBranches, 8 * b.1.length ≤ 3 * 512 := by
    intro b hb
    obtain ⟨i, -, rfl⟩ := List.mem_map.1 hb
    rw [List.length_replicate]
    decide
  exact ⟨(hleaf _ overfull_fiveCells).2, (hinterior _ _ overfull_eightBranches hkeys).2,
    hinsert _ _ ∅ .off [1] [2] hserves.ready hserves.current (by decide)⟩

/-! ## Keys that are too long for records -/

/-- A branch with a key that fills a page of 512 bytes. -/
def longBranch : Bytes × PageId := (List.replicate 495 109, 3)

/-- **A key that is too long for a record can leave a part without keys.** A node with nothing but
such a key fits its page. When a short key comes before it, only one of the two is left where one
moves up. -/
theorem long_key_leaves_no_keys :
    ({ pageSize := 512 } : Options).validate = .ok () ∧
      OverfullInterior 512 2 [([99], 4), longBranch] ∧
      ¬ ∃ left separator child right,
        FittingSplit 512 2 [([99], 4), longBranch] left separator child right := by
  have hdivide : divide (.interior 2 [([99], 4), longBranch]) =
      .ok (.interior 2 [([99], 4)], longBranch.1, .interior 3 []) := by decide +kernel
  refine ⟨rfl, ⟨⟨[longBranch], 0, ([99], 4), by decide +kernel, Nat.zero_le _, by decide, rfl⟩,
    by decide +kernel⟩, ?_⟩
  rintro ⟨left, separator, child, right, h⟩
  have hparts := h.divided.symm.trans hdivide
  simp only [Except.ok.injEq, Prod.mk.injEq, Node.interior.injEq] at hparts
  exact h.right_ne hparts.2.2.2

end PagedStore.Tree
