import PagedStore.Bytes

/-!
# Reading numbers

A written number is a sign, whole digits, perhaps a point with more digits, perhaps an exponent.
`Numeral` holds the parts as they were written, so that together they are the text again; its
value is the double nearest to what they say.
-/

set_option autoImplicit false

namespace PagedStore.Decimal

/-- Whether a byte is a decimal digit. -/
def isDigit (b : UInt8) : Bool := 48 ≤ b && b ≤ 57

/-- The number that decimal digits spell. -/
def ofDigits (ds : Bytes) : Nat := ds.foldl (fun n d => 10 * n + (d.toNat - 48)) 0

/-- The double nearest to `n * 10 ^ e`. Beyond three hundred and fifty places on either side of
the point only infinity and zero are left. -/
def nearest (n : Nat) (e : Int) : Float :=
  if n = 0 then 0.0
  else
    let places := (Nat.toDigits 10 n).length
    if 350 < places + e then Float.ofScientific 1 false 400
    else if places + e < -350 then 0.0
    else Float.ofScientific n (e < 0) e.natAbs

/-- A written exponent. -/
structure Exponent where
  mark : UInt8
  sign : Bytes
  digits : Bytes
  deriving DecidableEq, Repr

/-- A written number. -/
structure Numeral where
  sign : Bytes
  whole : Bytes
  /-- The digits after the point, if there is a point. -/
  fraction : Option Bytes
  exponent : Option Exponent
  deriving DecidableEq, Repr

/-- Whether a written sign is a minus. -/
def isMinus (sign : Bytes) : Bool := sign == [45]

/-- The sign in front, if there is one, and the rest. -/
def readSign : Bytes → Bytes × Bytes
  | [] => ([], [])
  | b :: bs => if b = 43 ∨ b = 45 then ([b], bs) else ([], b :: bs)

namespace Exponent

/-- The text of an exponent. -/
def text (e : Exponent) : Bytes := e.mark :: e.sign ++ e.digits

/-- The value of an exponent. -/
def value (e : Exponent) : Int :=
  if isMinus e.sign then -(ofDigits e.digits : Int) else ofDigits e.digits

/-- The exponent in front, if there is one with digits, and the rest. -/
def read : Bytes → Option Exponent × Bytes
  | [] => (none, [])
  | b :: bs =>
      if b = 101 ∨ b = 69 then
        let (sign, more) := readSign bs
        let digits := more.takeWhile isDigit
        if digits = [] then (none, b :: bs)
        else (some ⟨b, sign, digits⟩, more.dropWhile isDigit)
      else (none, b :: bs)

end Exponent

namespace Numeral

/-- The text of a number. -/
def text (x : Numeral) : Bytes :=
  x.sign ++ x.whole ++ (x.fraction.map (46 :: ·)).getD [] ++ (x.exponent.map (·.text)).getD []

/-- Whether the number is written with a sign and digits alone. -/
def isWhole (x : Numeral) : Bool := x.fraction.isNone && x.exponent.isNone

/-- The number that the whole digits and the sign spell. -/
def toInt (x : Numeral) : Int :=
  if isMinus x.sign then -(ofDigits x.whole : Int) else ofDigits x.whole

/-- The double nearest to the number. -/
def toFloat (x : Numeral) : Float :=
  let fraction := x.fraction.getD []
  let exponent := (x.exponent.map (·.value)).getD 0
  let m := nearest (ofDigits (x.whole ++ fraction)) (exponent - fraction.length)
  if isMinus x.sign then -m else m

/-- The fraction in front, if there is a point that belongs to a number: one with digits before
it or after it. -/
def readFraction (whole : Bytes) : Bytes → Option Bytes × Bytes
  | [] => (none, [])
  | b :: bs =>
      let digits := bs.takeWhile isDigit
      if b = 46 ∧ (whole ≠ [] ∨ digits ≠ []) then (some digits, bs.dropWhile isDigit)
      else (none, b :: bs)

/-- The longest number in front and the rest. -/
def read? (bs : Bytes) : Option (Numeral × Bytes) :=
  let (sign, bs) := readSign bs
  let whole := bs.takeWhile isDigit
  let (fraction, bs) := readFraction whole (bs.dropWhile isDigit)
  if whole = [] ∧ fraction = none then none
  else
    let (exponent, bs) := Exponent.read bs
    some (⟨sign, whole, fraction, exponent⟩, bs)

end Numeral

end PagedStore.Decimal
