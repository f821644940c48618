import Mathlib.Algebra.Order.BigOperators.Group.List
import Mathlib.Algebra.Order.Group.Nat
import PagedStore.Tree.Value
import PagedStore.Proofs.PageImages

/-!
# Nodes on pages

A node that fits its page is read back from it. Fitting is all that is asked: on a page of at most
64 KiB it bounds every count and every length of the written form, so none of them loses a digit.
-/

set_option autoImplicit false

namespace PagedStore.Tree

open Bytes

/-! ## Lengths -/

theorem CellValue.length_encode (v : CellValue) : v.encode.length = v.size := by
  cases v with
  | inline bs => simp [encode, size]; omega
  | chained length head compressed => simp [encode, size]

theorem length_encodeKey (key : Bytes) : (encodeKey key).length = 2 + key.length := by
  simp [encodeKey]

theorem Cell.length_encode (c : Cell) : c.encode.length = c.size := by
  rw [encode, List.length_append, length_encodeKey, CellValue.length_encode, size]

theorem CellValue.five_le_size (v : CellValue) : 5 ≤ v.size := by
  cases v with
  | inline bs => simp [size]
  | chained => simp [size]

theorem Cell.seven_le_size (c : Cell) : 7 ≤ c.size := by
  have := c.value.five_le_size
  rw [size]
  omega

namespace Node

theorem size_leaf (cells : List Cell) : (leaf cells).size = 2 + (cells.map Cell.size).sum := rfl

theorem size_interior (first : PageId) (rest : List (Bytes × PageId)) :
    (interior first rest).size = 6 + (rest.map branchSize).sum := rfl

theorem length_flatMap_encode (cells : List Cell) :
    (cells.flatMap Cell.encode).length = (cells.map Cell.size).sum := by
  rw [List.length_flatMap]
  exact congrArg List.sum (List.map_congr_left fun c _ => c.length_encode)

theorem length_encodeBranch (b : Bytes × PageId) : (encodeBranch b).length = branchSize b := by
  rw [encodeBranch, List.length_append, length_encodeKey, length_ofU32, branchSize]
  omega

theorem length_encode (n : Node) : n.encode.length = n.size := by
  cases n with
  | leaf cells =>
      rw [encode, List.length_append, length_ofU16, length_flatMap_encode, size_leaf]
  | interior first rest =>
      rw [encode, List.length_append, List.length_append, length_ofU16, length_ofU32,
        List.length_flatMap, size_interior]
      exact congrArg (2 + 4 + List.sum ·) (List.map_congr_left fun b _ => length_encodeBranch b)

/-- A list whose parts are none shorter than `k` has at most a `k`th of its length of them. -/
theorem mul_length_le_sum {α : Type} {f : α → Nat} {k : Nat} {xs : List α}
    (h : ∀ x ∈ xs, k ≤ f x) : k * xs.length ≤ (xs.map f).sum := by
  induction xs with
  | nil => simp
  | cons x xs ih =>
      have := h x (by simp)
      have := ih fun y hy => h y (by simp [hy])
      rw [List.map_cons, List.sum_cons, List.length_cons, Nat.mul_add]
      omega

theorem le_sum_of_mem {α : Type} {f : α → Nat} {x : α} {xs : List α} (h : x ∈ xs) :
    f x ≤ (xs.map f).sum :=
  List.single_le_sum (fun _ _ => Nat.zero_le _) _ (List.mem_map_of_mem h)

/-! ## Reading what was written -/

theorem readKey?_encodeKey {key : Bytes} (h : key.length < 65536) (rest : Bytes) :
    readKey? (encodeKey key ++ rest) = some (key, rest) := by
  rw [encodeKey, List.append_assoc, readKey?, u16?_ofU16 h]
  exact take?_append key rest

theorem readValue_encode (page : PageId) {v : CellValue} (h : v.size < 65536) (rest : Bytes) :
    readValue page (v.encode ++ rest) = .ok (v, rest) := by
  cases v with
  | inline bs =>
      have hlen : (UInt32.ofNat bs.length).toNat = bs.length := by
        refine UInt32.toNat_ofNat_of_lt' ?_
        simp only [CellValue.size] at h
        show bs.length < 2 ^ 32
        omega
      have htake := take?_append bs rest
      rw [← hlen] at htake
      simp only [CellValue.encode, List.cons_append, List.append_assoc, readValue, u8?_cons,
        u32?_ofU32, orTruncated, bind, Except.bind, htake, if_true, pure, Except.pure]
  | chained length head compressed =>
      cases compressed with
      | false =>
          simp only [CellValue.encode, List.cons_append, List.append_assoc, readValue, u8?_cons,
            u32?_ofU32, orTruncated, bind, Except.bind, pure, Except.pure]
          rfl
      | true =>
          simp only [CellValue.encode, List.cons_append, List.append_assoc, readValue, u8?_cons,
            u32?_ofU32, orTruncated, bind, Except.bind, pure, Except.pure]
          rfl

theorem readCells_encode (page : PageId) {cells : List Cell} (h : ∀ c ∈ cells, c.size < 65536)
    (rest : Bytes) :
    readCells page cells.length (cells.flatMap Cell.encode ++ rest) = .ok cells := by
  induction cells with
  | nil => rfl
  | cons c cells ih =>
      have hc := h c (by simp)
      rw [Cell.size] at hc
      rw [List.flatMap_cons, List.append_assoc, Cell.encode, List.append_assoc, List.length_cons,
        readCells, readKey?_encodeKey (by omega)]
      show (readValue page _ >>= _) = _
      rw [readValue_encode page (by omega)]
      show (readCells page _ _ >>= _) = _
      rw [ih fun d hd => h d (by simp [hd])]
      rfl

theorem readBranches_encode {rest : List (Bytes × PageId)}
    (h : ∀ b ∈ rest, branchSize b < 65536) (more : Bytes) :
    readBranches rest.length (rest.flatMap encodeBranch ++ more) = .ok rest := by
  induction rest with
  | nil => rfl
  | cons b rest ih =>
      have hb := h b (by simp)
      rw [branchSize] at hb
      rw [List.flatMap_cons, List.append_assoc, encodeBranch, List.append_assoc, List.length_cons,
        readBranches, readKey?_encodeKey (by omega)]
      simp only [orTruncated, bind, Except.bind, u32?_ofU32]
      rw [ih fun d hd => h d (by simp [hd])]
      rfl

theorem fits_iff {pageSize : Nat} {n : Node} :
    n.fits pageSize = true ↔ n.size ≤ pageSize - Page.frontLength := by
  rw [fits, decide_eq_true_iff]

/-- A node that fits is written to a page, and no other is. -/
theorem toPage_of_fits {pageSize : Nat} {n : Node} (h : n.fits pageSize = true) (id : PageId) :
    n.toPage id pageSize = .ok (.make id pageSize n.kind n.encode) := by
  rw [fits_iff, ← length_encode] at h
  rw [toPage, Page.fill, if_pos h]

theorem toPage_of_not_fits {pageSize : Nat} {n : Node} (h : n.fits pageSize = false) (id : PageId) :
    n.toPage id pageSize = .error .panicked := by
  have hlong : ¬ n.encode.length ≤ pageSize - Page.frontLength := by
    rw [length_encode, ← fits_iff, h]
    exact Bool.false_ne_true
  rw [toPage, Page.fill, if_neg hlong]

/-- The page on which a node is stored. -/
def page (n : Node) (id : PageId) (pageSize : Nat) : Page := .blank id pageSize n.kind n.encode

/-- A payload of a page of at most 64 KiB that begins with the written form of a node is read as
that node, whatever stands behind it. -/
theorem ofPage_of_isPrefix {p : Page} {n : Node} (hkind : p.kind = .ok n.kind)
    (hpay : n.encode <+: p.payload) (hsize : p.payload.length < 65536) : ofPage p = .ok n := by
  have hfit := hpay.length_le
  rw [n.length_encode] at hfit
  obtain ⟨more, hmore⟩ := hpay
  rw [ofPage, hkind, ← hmore]
  cases n with
  | leaf cells =>
      -- Cells of seven bytes and more are so few on a page that two bytes hold their number.
      have hcount := @mul_length_le_sum _ Cell.size 7 cells
        fun c _ => c.seven_le_size
      rw [size_leaf] at hfit
      simp only [kind, encode, List.append_assoc, bind, Except.bind]
      rw [u16?_ofU16 (by omega)]
      show (readCells _ _ _ >>= _) = _
      rw [readCells_encode _ fun c hc => by
        have := le_sum_of_mem (f := Cell.size) hc
        omega]
      rfl
  | interior first rest =>
      have hcount := @mul_length_le_sum _ branchSize 6 rest
        fun b _ => Nat.le_add_left 6 _
      rw [size_interior] at hfit
      simp only [kind, encode, List.append_assoc, bind, Except.bind]
      rw [u16?_ofU16 (by omega)]
      simp only [orTruncated, u32?_ofU32]
      rw [readBranches_encode fun b hb => by
        have := le_sum_of_mem (f := branchSize) hb
        omega]
      rfl

/-- **A node that fits its page is read back from it.** -/
theorem ofPage_page {n : Node} {pageSize : Nat} (hfit : n.fits pageSize = true)
    (hsize : pageSize ≤ 65536) (id : PageId) : ofPage (n.page id pageSize) = .ok n := by
  rw [fits_iff] at hfit
  have hpay := @Page.payload_blank_of_fits id pageSize n.kind n.encode
    (n.length_encode.trans_le hfit)
  have hfront : Page.frontLength = 5 := rfl
  refine ofPage_of_isPrefix Page.kind_blank ⟨_, hpay.symm⟩ ?_
  rw [page, Page.payload_blank, length_resize]
  omega

end Node

end PagedStore.Tree
