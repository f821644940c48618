/-!
# Searching an ordered list

Bisection halves the part of a list in which a place is looked for until one element is left. On
a list in order it finds the one place there is; on any other list it still finds some place, the
same one every time, without looking at more elements than the halving takes.
-/

set_option autoImplicit false

namespace PagedStore

/-- Halves the `size` elements from `base` on: the upper half is kept unless its first element is
beyond the place. -/
def bisectFrom {α : Type} (f : α → Ordering) (xs : List α) (size base : Nat) : Nat :=
  if size ≤ 1 then base
  else
    let middle := base + size / 2
    let beyond : Bool := match xs[middle]? with
      | some x => f x == .gt
      | none => true
    bisectFrom f xs (size - size / 2) (if beyond then base else middle)
termination_by size
decreasing_by omega

/-- The place of an element for which `f` is `eq`, or where one would have to stand: `f` says of
an element on which side of that place it lies. -/
def bisect {α : Type} (f : α → Ordering) (xs : List α) : Nat × Bool :=
  let base := bisectFrom f xs xs.length 0
  match xs[base]? with
  | none => (base, false)
  | some x =>
      match f x with
      | .eq => (base, true)
      | .lt => (base + 1, false)
      | .gt => (base, false)

/-- How many elements stand before the first one of which `p` does not hold. -/
def partitionPoint {α : Type} (p : α → Bool) (xs : List α) : Nat :=
  (bisect (fun x => if p x then .lt else .gt) xs).1

end PagedStore
