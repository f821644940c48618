import Mathlib.Data.List.TakeWhile
import PagedStore.Tree.Bisect

/-!
# Bisection finds the place

A list is cut by a predicate when no element of which it holds stands behind one of which it does
not. On such a list bisection counts the elements before the cut, and on a list in which `f` goes
from `lt` over at most one `eq` to `gt` it finds the `eq`. On other lists it may overlook an
element, but what it finds is there.
-/

set_option autoImplicit false

namespace PagedStore

variable {α : Type}

/-- **Where bisection ends.** Started with the place of the cut `k` within `size` elements from
`base` on, it ends on the last element that is not beyond, or on `base` itself. -/
theorem bisectFrom_eq {f : α → Ordering} {xs : List α} {k : Nat}
    (below : ∀ i, i < k → ∃ x, xs[i]? = some x ∧ f x ≠ .gt)
    (beyond : ∀ i x, k ≤ i → xs[i]? = some x → f x = .gt) (size base : Nat)
    (hsize : 0 < size) (hlo : base = 0 ∨ base < k) (hhi : k ≤ base + size) :
    bisectFrom f xs size base = k - 1 := by
  -- The cut stays within the part that is left, whichever half of it goes.
  fun_induction bisectFrom f xs size base with
  | case1 size base hs => omega
  | case2 size base hs middle isBeyond ih =>
      have hm : isBeyond = decide (k ≤ middle) := by
        by_cases hk : k ≤ middle
        · cases hx : xs[middle]? with
          | none => simp [isBeyond, hx, hk]
          | some x => simp [isBeyond, hx, hk, beyond middle x hk hx]
        · obtain ⟨x, hx, hf⟩ := below middle (by omega)
          simp [isBeyond, hx, hk, hf]
      by_cases hk : k ≤ middle
      · have hb : isBeyond = true := by rw [hm, decide_eq_true hk]
        rw [dif_pos hb] at ih
        rw [if_pos hb]
        exact ih (by omega) hlo (by omega)
      · have hb : ¬ isBeyond = true := by rw [hm, decide_eq_false hk]; exact Bool.false_ne_true
        rw [dif_neg hb] at ih
        rw [if_neg hb]
        exact ih (by omega) (Or.inr (by omega)) (by omega)

theorem bisect_nil (f : α → Ordering) : bisect f [] = (0, false) := by
  have h : bisectFrom f [] 0 0 = 0 := by rw [bisectFrom, if_pos (Nat.zero_le 1)]
  unfold bisect
  simp only [List.length_nil, h, List.getElem?_nil]

/-- Bisection finds the element that is neither before nor behind the place. -/
theorem bisect_found {f : α → Ordering} {pre post : List α} {x : α}
    (hpre : ∀ y ∈ pre, f y = .lt) (hx : f x = .eq) (hpost : ∀ y ∈ post, f y = .gt) :
    bisect f (pre ++ x :: post) = (pre.length, true) := by
  have hbase : bisectFrom f (pre ++ x :: post) (pre ++ x :: post).length 0 = pre.length := by
    rw [bisectFrom_eq (k := pre.length + 1)]
    · rfl
    · intro i hi
      rcases Nat.lt_succ_iff_lt_or_eq.1 hi with h | rfl
      · refine ⟨pre[i], by rw [List.getElem?_append_left h, List.getElem?_eq_getElem h], ?_⟩
        rw [hpre _ (List.getElem_mem h)]
        decide
      · exact ⟨x, by simp, by rw [hx]; decide⟩
    · intro i y hi hy
      rw [List.getElem?_append_right (by omega), List.getElem?_cons,
        if_neg (by omega)] at hy
      exact hpost y (List.mem_of_getElem? hy)
    · rw [List.length_append, List.length_cons]
      omega
    · exact Or.inl rfl
    · simp
  simp only [bisect, hbase]
  simp [hx]

/-- Bisection finds where an element that is not there would have to stand. -/
theorem bisect_missing {f : α → Ordering} {pre post : List α}
    (hpre : ∀ y ∈ pre, f y = .lt) (hpost : ∀ y ∈ post, f y = .gt) :
    bisect f (pre ++ post) = (pre.length, false) := by
  rcases Nat.eq_zero_or_pos (pre ++ post).length with h0 | hpos
  · obtain ⟨rfl, rfl⟩ := List.append_eq_nil_iff.1 (List.length_eq_zero_iff.1 h0)
    exact bisect_nil f
  have hbase : bisectFrom f (pre ++ post) (pre ++ post).length 0 = pre.length - 1 := by
    apply bisectFrom_eq (k := pre.length)
    · intro i hi
      refine ⟨pre[i], by rw [List.getElem?_append_left hi, List.getElem?_eq_getElem hi], ?_⟩
      rw [hpre _ (List.getElem_mem hi)]
      decide
    · intro i y hi hy
      rw [List.getElem?_append_right hi] at hy
      exact hpost y (List.mem_of_getElem? hy)
    · exact hpos
    · exact Or.inl rfl
    · simp
  rcases Nat.eq_zero_or_pos pre.length with hp | hp
  · -- Nothing stands before the place: the search ends on the first element behind it.
    obtain rfl := List.length_eq_zero_iff.1 hp
    cases post with
    | nil => simp at hpos
    | cons y post =>
        have hy : f y = .gt := hpost y (by simp)
        simp only [List.nil_append, List.length_nil, Nat.zero_sub] at hbase
        simp only [bisect, List.nil_append, hbase]
        simp [hy]
  · -- The search ends on the last element before the place.
    have hlt : pre.length - 1 < pre.length := by omega
    have hx : (pre ++ post)[pre.length - 1]? = some pre[pre.length - 1] := by
      rw [List.getElem?_append_left hlt, List.getElem?_eq_getElem hlt]
    have hf : f pre[pre.length - 1] = .lt := hpre _ (List.getElem_mem hlt)
    simp only [bisect, hbase, hx, hf, Prod.mk.injEq, and_true]
    omega

/-- Bisection by a predicate counts the elements before the cut. -/
theorem partitionPoint_append {p : α → Bool} {pre post : List α}
    (hpre : ∀ y ∈ pre, p y = true) (hpost : ∀ y ∈ post, p y = false) :
    partitionPoint p (pre ++ post) = pre.length := by
  rw [partitionPoint, bisect_missing]
  · intro y hy
    simp [hpre y hy]
  · intro y hy
    simp [hpost y hy]

/-! ## Lists in any order -/

theorem bisectFrom_le (f : α → Ordering) (xs : List α) (size base : Nat) :
    bisectFrom f xs size base ≤ base + size := by
  fun_induction bisectFrom f xs size base with
  | case1 size base hsize => exact Nat.le_add_right _ _
  | case2 size base hsize middle beyond ih =>
      refine ih.trans ?_
      split <;> omega

/-- What bisection says to have found is there, and where it found nothing an element could be
put. -/
theorem of_bisect {f : α → Ordering} {xs : List α} {i : Nat} {found : Bool}
    (h : bisect f xs = (i, found)) :
    (found = true → ∃ x, xs[i]? = some x ∧ f x = .eq) ∧ (found = false → i ≤ xs.length) := by
  have hle := bisectFrom_le f xs xs.length 0
  rw [bisect] at h
  generalize bisectFrom f xs xs.length 0 = base at h hle
  cases hx : xs[base]? with
  | none =>
      simp only [hx] at h
      obtain ⟨rfl, rfl⟩ := Prod.mk.inj h
      exact ⟨nofun, fun _ => by omega⟩
  | some x =>
      have hbase := (List.getElem?_eq_some_iff.1 hx).1
      simp only [hx] at h
      cases hf : f x with
      | lt =>
          simp only [hf] at h
          obtain ⟨rfl, rfl⟩ := Prod.mk.inj h
          exact ⟨nofun, fun _ => hbase⟩
      | eq =>
          simp only [hf] at h
          obtain ⟨rfl, rfl⟩ := Prod.mk.inj h
          exact ⟨fun _ => ⟨x, hx, hf⟩, nofun⟩
      | gt =>
          simp only [hf] at h
          obtain ⟨rfl, rfl⟩ := Prod.mk.inj h
          exact ⟨nofun, fun _ => hbase.le⟩

end PagedStore
