import PagedStore.Decimal.Shortest

/-!
# Numbers as text

Three layouts of a double. `plain` writes the shortest decimal with a point and never an exponent.
`general` writes a given number of significant digits, without closing zeros, with an exponent
only when the number is very large or very small. `fixed` writes a given number of places after
the point. The last two round the exact value, a tie to the even digit.
-/

set_option autoImplicit false

namespace PagedStore.Decimal

/-- The decimal digits of a natural number. -/
def digitsOf (n : Nat) : List Char := Nat.toDigits 10 n

/-- `n` zeros. -/
def zeros (n : Nat) : List Char := List.replicate n '0'

/-- Digits whose last one stands at the place `10 ^ exponent`, with a point where it is needed. -/
def positional (digits : List Char) (exponent : Int) : List Char :=
  if 0 ≤ exponent then digits ++ zeros exponent.toNat
  else
    let places := (-exponent).toNat
    if places < digits.length then
      digits.take (digits.length - places) ++ '.' :: digits.drop (digits.length - places)
    else '0' :: '.' :: zeros (places - digits.length) ++ digits

/-- The text without the zeros that close it. -/
def dropClosingZeros (cs : List Char) : List Char := (cs.reverse.dropWhile (· == '0')).reverse

/-- A text with its sign in front. -/
def withSign (negative : Bool) (cs : List Char) : String :=
  String.ofList (if negative then '-' :: cs else cs)

/-- The texts of the values that are not finite. -/
structure Unbounded where
  infinity : String
  notANumber : String

/-- The layout of a double, given the texts of what is not finite and the layout of the rest. -/
def layout (special : Unbounded) (finite : Binary → List Char) (x : Float) : String :=
  let negative := isNegative x
  if x.isNaN then special.notANumber
  else if x.isInf then withSign negative special.infinity.toList
  else withSign negative (finite (Binary.ofBits x.toBits))

/-- The shortest decimal, never with an exponent; whole numbers have no point. -/
def plain : Float → String :=
  layout ⟨"inf", "NaN"⟩ fun x =>
    if x.mantissa = 0 then ['0']
    else
      let d := x.shortest
      let ds := dropClosingZeros (digitsOf d.digits)
      positional ds (d.exponent + ((digitsOf d.digits).length - ds.length : Nat))

/-- The value rounded to `n` significant digits, and the exponent of its first digit. -/
def significant (x : Binary) (n : Nat) : Nat × Int :=
  let (num, den) := x.ratio
  let k := magnitude num den
  let shift := k - n
  let d := roundToEven (num * Nat.pow 10 (-shift).toNat) (den * Nat.pow 10 shift.toNat)
  if d = Nat.pow 10 n then (Nat.pow 10 (n - 1), k) else (d, k - 1)

/-- The exponent part: a sign and at least two digits. -/
def exponentPart (e : Int) : List Char :=
  let ds := digitsOf e.natAbs
  'e' :: (if e < 0 then '-' else '+') :: (if ds.length < 2 then '0' :: ds else ds)

/-- `n` significant digits, the closing zeros left out. The exponent form is taken when the first
digit stands below `10 ^ (-4)` or at `10 ^ n` or above. -/
def general (n : Nat) : Float → String :=
  layout ⟨"inf", "-nan"⟩ fun x =>
    if x.mantissa = 0 then ['0']
    else
      let (d, e) := significant x n
      let ds := dropClosingZeros (digitsOf d)
      if -4 ≤ e ∧ e < n then positional ds (e + 1 - ds.length)
      else
        match ds with
        | [] => []
        | first :: more => (if more = [] then [first] else first :: '.' :: more) ++ exponentPart e

/-- Exactly `places` digits after the point. -/
def fixed (places : Nat) : Float → String :=
  layout ⟨"inf", "-nan"⟩ fun x =>
    let (num, den) := x.ratio
    let ds := digitsOf (roundToEven (num * Nat.pow 10 places) den)
    let padded := zeros (places + 1 - ds.length) ++ ds
    if places = 0 then padded else positional padded (-(places : Int))

end PagedStore.Decimal
