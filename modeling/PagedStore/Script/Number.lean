import PagedStore.Decimal.Layout
import PagedStore.Decimal.Numeral

/-!
# Numbers of scripts

A number of a script is an integer of 64 bits or a double. Integers wrap around. An operation on
two integers gives an integer where that is exact in the arithmetic of 64 bits; division and
powers always give doubles, and so does any operation with a double in it. Division and remainder
of integers round toward the floor.

Comparison is that of the exact values, whatever the kinds.
-/

set_option autoImplicit false

namespace PagedStore.Script

/-- A number of either kind. -/
inductive Number where
  | int (i : Int64)
  | float (x : Float)

/-- Whether an integer fits 64 bits. -/
def fitsInt64 (n : Int) : Bool := Int64.minValue.toInt ≤ n && n ≤ Int64.maxValue.toInt

namespace Number

/-! ## Conversions -/

/-- The double nearest to a number. -/
def toFloat : Number → Float
  | int i => i.toFloat
  | float x => x

/-- The integer that a double is equal to, if there is one of 64 bits. -/
def wholeOf? (x : Float) : Option Int64 :=
  if x.floor == x && -9223372036854775808.0 ≤ x && x < 9223372036854775808.0 then some x.toInt64
  else none

/-- The integer that a number is equal to, if there is one of 64 bits. -/
def toInt? : Number → Option Int64
  | int i => some i
  | float x => wholeOf? x

/-- A whole number as an integer where it fits, and as a double where it does not. -/
def ofWhole (x : Float) : Number :=
  match wholeOf? x with
  | some i => int i
  | none => float x

/-- The text of a number. A double has fourteen significant digits, and one that would read as an
integer is given a place after the point. -/
def text : Number → String
  | int i => toString i.toInt
  | float x =>
      let s := Decimal.general 14 x
      if s.toList.all fun c => c.isDigit || c == '-' then s ++ ".0" else s

/-! ## Reading -/

/-- Whether a byte may stand around a number: a blank of any sort. -/
def isSpace (b : UInt8) : Bool := b == 32 || (9 ≤ b && b ≤ 13)

/-- A byte string without the blanks around it. -/
def trim (bs : Bytes) : Bytes :=
  ((bs.dropWhile isSpace).reverse.dropWhile isSpace).reverse

/-- The value of a digit in a base up to thirty-six. -/
def digitValue? (b : UInt8) : Option Nat :=
  if Decimal.isDigit b then some (b.toNat - 48)
  else if 97 ≤ b && b ≤ 122 then some (b.toNat - 87)
  else if 65 ≤ b && b ≤ 90 then some (b.toNat - 55)
  else none

/-- Whether a byte is a digit of a base. -/
def isDigitOf (base : Nat) (b : UInt8) : Bool := (digitValue? b).any (· < base)

/-- The number that digits spell in a base. -/
def ofDigits (base : Nat) (ds : Bytes) : Nat :=
  ds.foldl (fun n d => base * n + (digitValue? d).getD 0) 0

/-- The double with the value `n * 2 ^ e`. -/
def scaled (n : Nat) (e : Int) : Float := (Float.ofNat n).scaleB e

/-- The binary exponent at the end of a hexadecimal number. -/
def binaryExponent? : Bytes → Option Int
  | [] => some 0
  | mark :: bs =>
      let (sign, digits) := Decimal.readSign bs
      if (mark == 112 || mark == 80) && digits != [] && digits.all Decimal.isDigit then
        let n : Int := Decimal.ofDigits digits
        some (if Decimal.isMinus sign then -n else n)
      else none

/-- A hexadecimal number, after its mark. Without a point and an exponent it is an integer, of
which only the low 64 bits count. -/
def ofHexadecimal? (bs : Bytes) : Option Number :=
  let whole := bs.takeWhile (isDigitOf 16)
  match bs.dropWhile (isDigitOf 16) with
  | [] => if whole = [] then none else some (int (UInt64.ofNat (ofDigits 16 whole)).toInt64)
  | b :: rest =>
      let fraction := if b = 46 then rest.takeWhile (isDigitOf 16) else []
      let rest := if b = 46 then rest.dropWhile (isDigitOf 16) else b :: rest
      if whole = [] ∧ fraction = [] then none
      else
        (binaryExponent? rest).map fun e =>
          float (scaled (ofDigits 16 (whole ++ fraction)) (e - 4 * fraction.length))

/-- A decimal number: an integer when it is written as one and fits. -/
def ofDecimal? (bs : Bytes) : Option Number :=
  match Decimal.Numeral.read? bs with
  | some (x, []) =>
      some (if x.isWhole && fitsInt64 x.toInt then int (Int64.ofInt x.toInt) else float x.toFloat)
  | _ => none

/-- A number with the other sign. -/
def negate : Number → Number
  | int i => int (-i)
  | float x => float (-x)

/-- The number that a text spells, blanks around it aside. -/
def ofText? (bs : Bytes) : Option Number :=
  let bs := trim bs
  let (sign, digits) := Decimal.readSign bs
  match digits with
  | 48 :: mark :: rest =>
      if mark == 120 || mark == 88 then
        (ofHexadecimal? rest).map fun n => if Decimal.isMinus sign then negate n else n
      else ofDecimal? bs
  | _ => ofDecimal? bs

/-- The integer that a text spells in a base, blanks around it aside. -/
def ofTextIn? (base : Nat) (bs : Bytes) : Option Int64 :=
  let (sign, digits) := Decimal.readSign (trim bs)
  if digits != [] && digits.all (isDigitOf base) then
    let n : Int := ofDigits base digits
    some (Int64.ofInt (if Decimal.isMinus sign then -n else n))
  else none

/-! ## Arithmetic -/

/-- An operation that keeps integers among themselves. -/
def lift₂ (onInts : Int64 → Int64 → Int64) (onFloats : Float → Float → Float) :
    Number → Number → Number
  | int i, int j => int (onInts i j)
  | a, b => float (onFloats a.toFloat b.toFloat)

/-- The sum. -/
def add : Number → Number → Number := lift₂ (· + ·) (· + ·)

/-- The difference. -/
def sub : Number → Number → Number := lift₂ (· - ·) (· - ·)

/-- The product. -/
def mul : Number → Number → Number := lift₂ (· * ·) (· * ·)

/-- The quotient. -/
def div (a b : Number) : Number := float (a.toFloat / b.toFloat)

/-- The power. -/
def pow (a b : Number) : Number := float (a.toFloat ^ b.toFloat)

/-- The quotient rounded to the floor; none for integers when the divisor is zero. -/
def floorDiv? : Number → Number → Option Number
  | int i, int j => if j = 0 then none else some (int (Int64.ofInt (Int.fdiv i.toInt j.toInt)))
  | a, b => some (float (a.toFloat / b.toFloat).floor)

/-- The remainder that has the sign of the divisor. -/
def floorRemainder (x y : Float) : Float :=
  let r := Decimal.remainder x y
  if (0.0 < r && y < 0.0) || (r < 0.0 && 0.0 < y) then r + y else r

/-- The remainder of the quotient rounded to the floor; none for integers when the divisor is
zero. -/
def floorMod? : Number → Number → Option Number
  | int i, int j => if j = 0 then none else some (int (Int64.ofInt (Int.fmod i.toInt j.toInt)))
  | a, b => some (float (floorRemainder a.toFloat b.toFloat))

/-! ## Bits -/

/-- The bits of an integer moved up, or down when `n` is negative; zeros come in. -/
def shiftLeft (i n : Int64) : Int64 :=
  let d := n.toInt
  if 64 ≤ d.natAbs then 0
  else if 0 ≤ d then (i.toUInt64 <<< UInt64.ofNat d.natAbs).toInt64
  else (i.toUInt64 >>> UInt64.ofNat d.natAbs).toInt64

/-- The bits of an integer moved down, or up when `n` is negative; zeros come in. -/
def shiftRight (i n : Int64) : Int64 :=
  if n = Int64.minValue then 0 else shiftLeft i (-n)

/-! ## Comparison -/

/-- How an integer compares with a double, which may be no number at all. -/
def compareMixed? (i : Int64) (y : Float) : Option Ordering :=
  if y.isNaN then none
  else if y.isInf then some (if Decimal.isNegative y then .gt else .lt)
  else
    let (num, den) := (Decimal.Binary.ofBits y.toBits).ratio
    let value : Int := if Decimal.isNegative y then -num else num
    some (compare (i.toInt * den) value)

/-- How two numbers compare; not at all if one of them is no number. -/
def compare? : Number → Number → Option Ordering
  | int i, int j => some (compare i.toInt j.toInt)
  | int i, float y => compareMixed? i y
  | float x, int j => (compareMixed? j x).map Ordering.swap
  | float x, float y =>
      if x < y then some .lt else if x == y then some .eq else if y < x then some .gt else none

end Number

end PagedStore.Script
