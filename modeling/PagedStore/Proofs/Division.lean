import Mathlib.Tactic.Linarith
import PagedStore.Tree.Insert
import PagedStore.Proofs.NodeCodec

/-!
# Dividing a node that is too large

A node that has grown too large by one cell or one branch is divided where the sum of the lengths
passes the half. No cell is longer than a quarter of the page and no branch much longer than an
eighth, so the part on the left exceeds the half by at most that much, the part on the right is at
most the other half, and both fit the page again. For branches three eighths would do.
-/

set_option autoImplicit false

namespace PagedStore.Tree.Node

/-! ## The middle of a list of lengths -/

section

variable {half left m : Nat} {sizes : List Nat}

/-- What stands before the middle is at least the half, and exceeds it by one length at most. -/
theorem middle?_eq_some {i : Nat} (hm : ∀ n ∈ sizes, n ≤ m)
    (h : middle? half left sizes = some i) :
    i < sizes.length ∧ half ≤ left + (sizes.take i).sum ∧
      left + (sizes.take i).sum ≤ max left (half + m) := by
  induction sizes generalizing left i with
  | nil => cases h
  | cons n sizes ih =>
      rw [middle?] at h
      split at h
      · rename_i hle
        obtain rfl := Option.some.inj h
        refine ⟨Nat.succ_pos _, ?_, ?_⟩
        · simpa using hle
        · simp
      · rename_i hlt
        obtain ⟨j, hj, rfl⟩ := Option.map_eq_some_iff.1 h
        obtain ⟨h₁, h₂, h₃⟩ := ih (fun k hk => hm k (List.mem_cons_of_mem _ hk)) hj
        have hn : n ≤ m := hm n List.mem_cons_self
        rw [List.take_succ_cons, List.sum_cons, List.length_cons]
        refine ⟨by omega, by omega, ?_⟩
        omega

/-- Without a middle the lengths before any of the elements stay below the half. -/
theorem middle?_eq_none {i : Nat} (h : middle? half left sizes = none) (hi : i < sizes.length) :
    left + (sizes.take i).sum < half := by
  induction sizes generalizing left i with
  | nil => cases hi
  | cons n sizes ih =>
      rw [middle?] at h
      split at h
      · cases h
      · rename_i hlt
        cases i with
        | zero => simpa using hlt
        | succ i =>
            rw [List.take_succ_cons, List.sum_cons]
            have := ih (Option.map_eq_none_iff.1 h) (Nat.lt_of_succ_lt_succ hi)
            omega

/-- So many lengths have a sum of at most so many times the greatest. -/
theorem sum_le_mul {k : Nat} (hm : ∀ n ∈ sizes, n ≤ m) (hk : sizes.length ≤ k) :
    sizes.sum ≤ k * m :=
  (List.sum_le_card_nsmul sizes m hm).trans (Nat.mul_le_mul_right m hk)

/-- A part of a list of lengths that is one length is bounded as they are. -/
theorem sum_drop_le {k : Nat} (hm : ∀ n ∈ sizes, n ≤ m) (hk : sizes.length ≤ k + 1) :
    (sizes.drop k).sum ≤ m := by
  have hlen : (sizes.drop k).length ≤ 1 := by
    rw [List.length_drop]
    omega
  calc (sizes.drop k).sum ≤ 1 * m := sum_le_mul (fun n hn => hm n (List.mem_of_mem_drop hn)) hlen
    _ = m := Nat.one_mul m

theorem sum_take_one_le (hm : ∀ n ∈ sizes, n ≤ m) : (sizes.take 1).sum ≤ m := by
  cases sizes with
  | nil => simp
  | cons n sizes => simpa using hm n List.mem_cons_self

theorem sum_take_le_sum_take (sizes : List Nat) {i j : Nat} (h : i ≤ j) :
    (sizes.take i).sum ≤ (sizes.take j).sum := by
  rw [show sizes.take i = (sizes.take j).take i by rw [List.take_take, Nat.min_eq_left h]]
  have := List.sum_take_add_sum_drop (sizes.take j) i
  omega

/-- A cut at the middle, or behind the first length, leaves little more than the half before it. -/
theorem sum_take_le_of_middle? {i k : Nat} (hm : ∀ n ∈ sizes, n ≤ m)
    (h : middle? half 0 sizes = some i) (hk : k ≤ max 1 i) : (sizes.take k).sum ≤ half + m := by
  obtain ⟨hi, hge, hle⟩ := middle?_eq_some hm h
  rcases Nat.lt_or_ge i k with hlt | hki
  · -- The cut is behind the middle only where the middle is at the front.
    have hone := sum_take_one_le hm
    have := sum_take_le_sum_take sizes (show k ≤ 1 by omega)
    omega
  · have := sum_take_le_sum_take sizes hki
    omega

/-- A cut behind the middle, or before the last length, leaves at most the other half or that
length behind it. -/
theorem sum_drop_le_of_middle? {i k : Nat} (hm : ∀ n ∈ sizes, n ≤ m)
    (h : middle? half 0 sizes = some i) (hk : i ≤ k ∨ sizes.length ≤ k + 1) :
    (sizes.drop k).sum ≤ max m (sizes.sum - half) := by
  obtain ⟨hi, hge, hle⟩ := middle?_eq_some hm h
  rcases hk with hik | hlast
  · have hmono := sum_take_le_sum_take sizes hik
    have := List.sum_take_add_sum_drop sizes k
    omega
  · have := sum_drop_le hm hlast
    omega

end

/-! ## Leaves -/

section

variable {pageSize : Nat} {cells : List Cell}

/-- Where a leaf is cut both sides have a cell, the left one is at most a cell longer than the
half, and the right one at most the other half or one cell. -/
theorem leafCut_spec {m : Nat} (hm : ∀ c ∈ cells, c.size ≤ m) (h2 : 2 ≤ cells.length) :
    0 < leafCut cells ∧ leafCut cells < cells.length ∧
      (((cells.take (leafCut cells)).map Cell.size).sum ≤ (cells.map Cell.size).sum / 2 + m) ∧
      (((cells.drop (leafCut cells)).map Cell.size).sum ≤
        max m ((cells.map Cell.size).sum - (cells.map Cell.size).sum / 2)) := by
  have hlen : (cells.map Cell.size).length = cells.length := List.length_map _
  have hm' : ∀ n ∈ cells.map Cell.size, n ≤ m := by
    intro n hn
    obtain ⟨c, hc, rfl⟩ := List.mem_map.1 hn
    exact hm c hc
  have hcut : leafCut cells = min (cells.length - 1) (max 1
      ((middle? ((cells.map Cell.size).sum / 2) 0 (cells.map Cell.size)).getD
        (cells.length - 1))) := rfl
  rw [List.map_take, List.map_drop, hcut]
  generalize cells.map Cell.size = sizes at *
  cases hmid : middle? (sizes.sum / 2) 0 sizes with
  | none =>
      -- Only the last cell takes the sum past the half, and it goes to the right.
      have hall := middle?_eq_none hmid (i := cells.length - 1) (by omega)
      rw [Option.getD_none, Nat.max_eq_right (by omega), Nat.min_self]
      have := sum_drop_le hm' (k := cells.length - 1) (by omega)
      omega
  | some i =>
      rw [Option.getD_some]
      refine ⟨by omega, by omega, ?_, ?_⟩
      · exact sum_take_le_of_middle? hm' hmid (Nat.min_le_right _ _)
      · exact sum_drop_le_of_middle? hm' hmid (by omega)

/-- A leaf with two cells or more is divided, and both parts have cells. -/
theorem divide_leaf_eq (h2 : 2 ≤ cells.length) :
    ∃ left c right, cells = left ++ c :: right ∧ left ≠ [] ∧
      left.length = leafCut cells ∧
      divide (leaf cells) = .ok (leaf left, c.key, leaf (c :: right)) := by
  obtain ⟨hpos, hlt, -, -⟩ := leafCut_spec
    (fun c hc => List.single_le_sum (fun _ _ => Nat.zero_le _) _ (List.mem_map_of_mem hc)) h2
  have hd : cells.drop (leafCut cells) =
      cells[leafCut cells] :: cells.drop (leafCut cells + 1) := List.drop_eq_getElem_cons hlt
  have hlen : (cells.take (leafCut cells)).length = leafCut cells :=
    List.length_take_of_le hlt.le
  refine ⟨cells.take (leafCut cells), cells[leafCut cells], cells.drop (leafCut cells + 1), ?_, ?_,
    hlen, ?_⟩
  · rw [← hd, List.take_append_drop]
  · rw [← List.length_pos_iff, hlen]
    exact hpos
  · simp only [divide, hd, if_pos hpos]

/-- **A leaf that one cell has made too large is divided into two that fit.** -/
theorem divide_leaf (hps : 512 ≤ pageSize) (hm : ∀ c ∈ cells, c.size ≤ inlineLimit pageSize)
    (hbig : (leaf cells).fits pageSize = false)
    (hsum : (cells.map Cell.size).sum ≤ pageSize - 7 + inlineLimit pageSize) :
    ∃ left c right, cells = left ++ c :: right ∧ left ≠ [] ∧
      divide (leaf cells) = .ok (leaf left, c.key, leaf (c :: right)) ∧
      (leaf left).fits pageSize = true ∧ (leaf (c :: right)).fits pageSize = true := by
  have hbig' : pageSize - 5 < 2 + (cells.map Cell.size).sum := by
    rw [fits, decide_eq_false_iff_not] at hbig
    exact Nat.lt_of_not_le hbig
  rw [inlineLimit] at hm hsum
  -- One cell is a quarter of the page at most, so there are several.
  have h2 : 2 ≤ cells.length := by
    by_contra hfew
    have hone : (cells.map Cell.size).length ≤ 1 := by
      rw [List.length_map]
      omega
    have hshort := sum_le_mul (List.forall_mem_map.2 hm) hone
    omega
  obtain ⟨-, -, hleft, hright⟩ := leafCut_spec hm h2
  obtain ⟨left, c, right, heq, hne, hlen, hdivide⟩ := divide_leaf_eq h2
  refine ⟨left, c, right, heq, hne, hdivide, ?_, ?_⟩
  · have htake : cells.take left.length = left := by rw [heq, List.take_left]
    rw [← hlen, htake] at hleft
    rw [fits_iff, size_leaf, Page.frontLength]
    omega
  · have hdrop : cells.drop left.length = c :: right := by rw [heq, List.drop_left]
    rw [← hlen, hdrop] at hright
    rw [fits_iff, size_leaf, Page.frontLength]
    omega

end

/-! ## Interior nodes -/

section

variable {pageSize : Nat} {rest : List (Bytes × PageId)}

/-- The key that moves up leaves one on each side, and on the left at most a branch more than the
half. -/
theorem interiorCut_spec {m : Nat} (hm : ∀ b ∈ rest, branchSize b ≤ m) (h3 : 3 ≤ rest.length) :
    0 < interiorCut rest ∧ interiorCut rest + 1 < rest.length ∧
      (((rest.take (interiorCut rest)).map branchSize).sum ≤
        (rest.map branchSize).sum / 2 + m) ∧
      (((rest.drop (interiorCut rest + 1)).map branchSize).sum ≤
        max (2 * m) ((rest.map branchSize).sum - (rest.map branchSize).sum / 2)) := by
  have hlen : (rest.map branchSize).length = rest.length := List.length_map _
  have hm' : ∀ n ∈ rest.map branchSize, n ≤ m := by
    intro n hn
    obtain ⟨c, hc, rfl⟩ := List.mem_map.1 hn
    exact hm c hc
  have hcut : interiorCut rest = min (max 1 (rest.length - 2)) (max 1
      ((middle? ((rest.map branchSize).sum / 2) 0 (rest.map branchSize)).getD
        (rest.length / 2))) := rfl
  rw [List.map_take, List.map_drop, hcut]
  generalize rest.map branchSize = sizes at *
  have hsplit := fun k => List.sum_take_add_sum_drop sizes k
  have hlast := sum_drop_le hm' (k := rest.length - 1) (by omega)
  cases hmid : middle? (sizes.sum / 2) 0 sizes with
  | none =>
      -- All but the last length stay below the half, so that one makes up for the rest.
      have hall := middle?_eq_none hmid (i := rest.length - 1) (by omega)
      have htot := hsplit (rest.length - 1)
      rw [Option.getD_none]
      refine ⟨by omega, by omega, ?_, ?_⟩
      · have := sum_take_le_sum_take sizes
          (show min (max 1 (rest.length - 2)) (max 1 (rest.length / 2)) ≤ rest.length - 1 by omega)
        omega
      · have := hsplit (min (max 1 (rest.length - 2)) (max 1 (rest.length / 2)) + 1)
        omega
  | some i =>
      rw [Option.getD_some]
      refine ⟨by omega, by omega, ?_, ?_⟩
      · exact sum_take_le_of_middle? hm' hmid (Nat.min_le_right _ _)
      · have := sum_drop_le_of_middle? (k := min (max 1 (rest.length - 2)) (max 1 i) + 1) hm' hmid
          (by omega)
        omega

/-- A node with two keys or more is divided: one key moves up, the branches part there, and a key
is left before it. None is left behind it only where there were two. -/
theorem divide_interior_eq (h2 : 2 ≤ rest.length) (first : PageId) :
    ∃ left key child right, rest = left ++ (key, child) :: right ∧ left ≠ [] ∧
      (right = [] ↔ rest.length = 2) ∧ left.length = interiorCut rest ∧
      divide (interior first rest) = .ok (interior first left, key, interior child right) := by
  have hcut : interiorCut rest = min (max 1 (rest.length - 2)) (max 1
      ((middle? ((rest.map branchSize).sum / 2) 0 (rest.map branchSize)).getD
        (rest.length / 2))) := rfl
  have hlt : interiorCut rest < rest.length := by omega
  have hd : rest.drop (interiorCut rest) =
      rest[interiorCut rest] :: rest.drop (interiorCut rest + 1) := List.drop_eq_getElem_cons _
  have hlen : (rest.take (interiorCut rest)).length = interiorCut rest :=
    List.length_take_of_le hlt.le
  refine ⟨rest.take (interiorCut rest), rest[interiorCut rest].1, rest[interiorCut rest].2,
    rest.drop (interiorCut rest + 1), ?_, ?_, ?_, hlen, ?_⟩
  · rw [Prod.mk.eta, ← hd, List.take_append_drop]
  · rw [← List.length_pos_iff, hlen]
    omega
  · rw [List.drop_eq_nil_iff]
    omega
  · simp only [divide, hd]

/-- **An interior node that one branch has made too large is divided into two that fit**, as long as
no key is longer than three eighths of the page. -/
theorem divide_interior_of_le (hps : 512 ≤ pageSize)
    (hm : ∀ b ∈ rest, 8 * b.1.length ≤ 3 * pageSize) (first : PageId)
    (hbig : (interior first rest).fits pageSize = false)
    (hsum : (rest.map branchSize).sum ≤ pageSize - 11 + (keyLimit pageSize + 6)) :
    ∃ left key child right, rest = left ++ (key, child) :: right ∧ left ≠ [] ∧ right ≠ [] ∧
      divide (interior first rest) = .ok (interior first left, key, interior child right) ∧
      (interior first left).fits pageSize = true ∧
      (interior child right).fits pageSize = true := by
  have hbig' : pageSize - 5 < 6 + (rest.map branchSize).sum := by
    rw [fits, decide_eq_false_iff_not] at hbig
    exact Nat.lt_of_not_le hbig
  rw [keyLimit] at hsum
  have hm' : ∀ b ∈ rest, branchSize b ≤ 3 * pageSize / 8 + 6 := by
    intro b hb
    have := hm b hb
    rw [branchSize]
    omega
  -- Two branches do not fill the page.
  have h3 : 3 ≤ rest.length := by
    by_contra hfew
    have htwo : (rest.map branchSize).length ≤ 2 := by
      rw [List.length_map]
      omega
    have hshort := sum_le_mul (List.forall_mem_map.2 hm') htwo
    omega
  obtain ⟨-, -, hleft, hright⟩ := interiorCut_spec hm' h3
  have h2 : 2 ≤ rest.length := Nat.le_of_succ_le h3
  obtain ⟨left, key, child, right, hrest, hne, hnil, hcut, hdivide⟩ := divide_interior_eq h2 first
  have hleft' : left = rest.take (interiorCut rest) := by
    rw [← hcut, hrest, List.take_left]
  have hright' : right = rest.drop (interiorCut rest + 1) := by
    rw [← hcut, hrest, List.drop_length_add_append, List.drop_succ_cons, List.drop_zero]
  refine ⟨left, key, child, right, hrest, hne, fun hempty => ?_, hdivide, ?_, ?_⟩
  · have := hnil.1 hempty
    omega
  · rw [fits_iff, size_interior, Page.frontLength, hleft']
    omega
  · rw [fits_iff, size_interior, Page.frontLength, hright']
    omega

/-- The keys of records are short enough for that. -/
theorem divide_interior (hps : 512 ≤ pageSize)
    (hm : ∀ b ∈ rest, b.1.length ≤ keyLimit pageSize) (first : PageId)
    (hbig : (interior first rest).fits pageSize = false)
    (hsum : (rest.map branchSize).sum ≤ pageSize - 11 + (keyLimit pageSize + 6)) :
    ∃ left key child right, rest = left ++ (key, child) :: right ∧ left ≠ [] ∧ right ≠ [] ∧
      divide (interior first rest) = .ok (interior first left, key, interior child right) ∧
      (interior first left).fits pageSize = true ∧
      (interior child right).fits pageSize = true := by
  refine divide_interior_of_le hps (fun b hb => ?_) first hbig hsum
  have hshort := hm b hb
  rw [keyLimit] at hshort
  omega

end

end PagedStore.Tree.Node
