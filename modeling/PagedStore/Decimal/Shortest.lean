import PagedStore.Decimal.Binary

/-!
# Shortest decimals

Of all decimals that read back to a given double, the one with the fewest digits is written, and
of those with equally few the nearest to the exact value; of two equally near the greater.

The reals that read back to a double form an interval: half of the gap to the next double on
either side, the ends included when the mantissa is even. For one digit, two digits and so on the
search asks whether one of the two neighbours of the exact value on the grid of that many digits
lies in the interval. If any point of the grid does, so does one of these two.
-/

set_option autoImplicit false

namespace PagedStore.Decimal

/-- A decimal `digits * 10 ^ exponent`. -/
structure Dec where
  digits : Nat
  exponent : Int
  deriving DecidableEq, Repr

/-- Compares a decimal with `n * 2 ^ e`, exactly. -/
def Dec.compareBinary (d : Dec) (n : Nat) (e : Int) : Ordering :=
  compare ((d.digits * Nat.pow 10 d.exponent.toNat) <<< (-e).toNat)
    (n <<< e.toNat * Nat.pow 10 (-d.exponent).toNat)

namespace Binary

/-- Whether a decimal reads back to this double. -/
def readsBack (x : Binary) (d : Dec) : Bool :=
  let low := if x.narrowBelow then 4 * x.mantissa - 1 else 4 * x.mantissa - 2
  let high := 4 * x.mantissa + 2
  let endsIn := x.mantissa % 2 == 0
  let atLow := d.compareBinary low (x.exponent - 2)
  let atHigh := d.compareBinary high (x.exponent - 2)
  (atLow == .gt || (endsIn && atLow == .eq)) && (atHigh == .lt || (endsIn && atHigh == .eq))

/-- The decimal of `n` digits next to the value that reads back, if there is one. -/
def withDigits? (x : Binary) (n : Nat) : Option Dec :=
  let (num, den) := x.ratio
  -- On this grid the value has `n` digits before the point.
  let exponent := magnitude num den - n
  let grid := den * Nat.pow 10 exponent.toNat
  let scaled := num * Nat.pow 10 (-exponent).toNat
  let below : Dec := ⟨scaled / grid, exponent⟩
  let above : Dec := ⟨scaled / grid + 1, exponent⟩
  match x.readsBack below, x.readsBack above with
  | true, true => if 2 * (scaled % grid) < grid then some below else some above
  | true, false => some below
  | false, true => some above
  | false, false => none

/-- The shortest decimal of at least `n` digits, `fuel` lengths being tried. -/
def shortestFrom (x : Binary) : (fuel n : Nat) → Dec
  | 0, n => (x.withDigits? n).getD ⟨0, 0⟩
  | fuel + 1, n => (x.withDigits? n).getD (shortestFrom x fuel (n + 1))

/-- The shortest decimal that reads back to a positive double; seventeen digits always do. -/
def shortest (x : Binary) : Dec := x.shortestFrom 16 1

end Binary

end PagedStore.Decimal
