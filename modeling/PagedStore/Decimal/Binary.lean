/-!
# Binary fractions

A double-precision number is a sign and a natural number times a power of two. Everything that
is written or rounded in decimal starts from these exact values, so that no rounding happens but
the one that is asked for.
-/

set_option autoImplicit false

namespace PagedStore.Decimal

/-- A finite number without its sign: `mantissa * 2 ^ exponent`. -/
structure Binary where
  mantissa : Nat
  exponent : Int
  /-- The number is the least of its binade, so that the gap below it is half the gap above. -/
  narrowBelow : Bool
  deriving DecidableEq, Repr

namespace Binary

/-- The value in the low 63 bits of a double that is neither infinite nor a non-number. -/
def ofBits (bits : UInt64) : Binary :=
  let e := ((bits >>> 52) &&& 0x7FF).toNat
  let f := (bits &&& 0xFFFFFFFFFFFFF).toNat
  if e = 0 then ⟨f, -1074, false⟩
  else ⟨1 <<< 52 + f, (e : Int) - 1075, f == 0 && e > 1⟩

/-- `n * 2 ^ e` as a numerator and a denominator. -/
def ratioOf (n : Nat) (e : Int) : Nat × Nat := (n <<< e.toNat, 1 <<< (-e).toNat)

/-- The exact value as a numerator and a denominator. -/
def ratio (x : Binary) : Nat × Nat := ratioOf x.mantissa x.exponent

end Binary

/-- Whether a double has its sign bit set. -/
def isNegative (x : Float) : Bool := x.toBits >>> 63 == 1

/-- What is left of `x` after `y` has been taken away as often as it fits, both without sign. It
needs no more digits than the one of the two that has the lower last digit, so it is exact. -/
def remainderBelow (x y : Binary) : Float :=
  let e := min x.exponent y.exponent
  let units (b : Binary) : Nat := b.mantissa <<< (b.exponent - e).toNat
  (Float.ofNat (units x % units y)).scaleB e

/-- The remainder of the quotient that is cut off toward zero; it has the sign of `x`. -/
def remainder (x y : Float) : Float :=
  if x.isNaN || y.isNaN || x.isInf || y == 0.0 then 0.0 / 0.0
  else if y.isInf then x
  else
    let r := remainderBelow (Binary.ofBits x.toBits) (Binary.ofBits y.toBits)
    if isNegative x then -r else r

/-- The quotient rounded to the nearest natural number, a tie to the even one. -/
def roundToEven (num den : Nat) : Nat :=
  let q := num / den
  match compare (2 * (num % den)) den with
  | .lt => q
  | .gt => q + 1
  | .eq => if q % 2 = 0 then q else q + 1

/-- How many decimal places the whole part of `num / den` has: the least `k` with
`num / den < 10 ^ k`, searched upward from `k` for at most `fuel` steps. -/
def wholePlaces (num den : Nat) : (fuel k : Nat) → Nat
  | 0, k => k
  | fuel + 1, k => if num < den * Nat.pow 10 k then k else wholePlaces num den fuel (k + 1)

/-- How many zeros follow the point of `num / den < 1`: the greatest `k` with
`num / den < 10 ^ (-k)`, searched upward from `k` for at most `fuel` steps. -/
def leadingZeros (num den : Nat) : (fuel k : Nat) → Nat
  | 0, k => k
  | fuel + 1, k => if num * Nat.pow 10 (k + 1) < den then leadingZeros num den fuel (k + 1) else k

/-- The magnitude of a positive quotient: the `k` with `10 ^ (k - 1) ≤ num / den < 10 ^ k`. A
double lies between `10 ^ (-324)` and `10 ^ 309`. -/
def magnitude (num den : Nat) : Int :=
  if num < den then -(leadingZeros num den 400 0 : Int) else wholePlaces num den 400 0

end PagedStore.Decimal
