import PagedStore.Script.Value

/-!
# Formats

A format is a text in which conversions stand for the values that are to be put there. A
conversion begins with a percent sign, goes on with flags, a width and a precision, and ends with
a letter that says how the value is written. Two percent signs stand for one.

A format is taken apart from left to right. A conversion that is not well formed is the last piece
of it, so that what is wrong with a value before it is found first.
-/

set_option autoImplicit false

namespace PagedStore.Script

/-- How a value is to be written. -/
structure Conversion where
  flags : Bytes
  width : Nat
  precision : Option Nat
  /-- The letter at the end. -/
  letter : Char

/-- A piece of a format. -/
inductive Piece where
  | text (bs : Bytes)
  | conversion (c : Conversion)
  /-- Something that is no conversion, and the report of that. -/
  | malformed (report : String)

namespace Conversion

/-! ## Reading a format -/

/-- The flags that a letter allows, and whether it allows a precision. -/
def allowed? (letter : Char) : Option (String × Bool) :=
  [('d', "-+0 ", true), ('i', "-+0 ", true), ('u', "-0", true), ('o', "-#0", true),
    ('x', "-#0", true), ('X', "-#0", true), ('c', "-", false), ('s', "-", true),
    ('e', "-+ #0", true), ('E', "-+ #0", true), ('f', "-+ #0", true), ('g', "-+ #0", true),
    ('G', "-+ #0", true)].lookup letter

/-- The number that at most two digits spell at the front, and what follows them. -/
def upToTwoDigits (bs : Bytes) : Nat × Bytes :=
  let ds := (bs.take 2).takeWhile Decimal.isDigit
  (Decimal.ofDigits ds, bs.drop ds.length)

/-- The conversion that a specification stands for: what stands between the percent sign and the
letter. -/
def ofSpecification? (flags : String) (precise : Bool) (spec : Bytes) (letter : Char) :
    Option Conversion :=
  let isFlag (b : UInt8) : Bool := (Bytes.ofString flags).contains b
  let rest := spec.dropWhile isFlag
  let (width, rest) := if rest.head? = some 48 then (0, rest) else upToTwoDigits rest
  let (precision, rest) := match rest with
    | 46 :: more =>
        if precise then
          let (n, rest) := upToTwoDigits more
          (some n, rest)
        else (none, rest)
    | _ => (none, rest)
  if rest = [] then some ⟨spec.takeWhile isFlag, width, precision, letter⟩ else none

/-- The longest specification that is looked at. -/
def maxSpecification : Nat := 20

/-- The piece that a percent sign begins, and what follows it. -/
def piece (bs : Bytes) : Piece × Bytes :=
  let spec := bs.takeWhile fun b => (Bytes.ofString "-+ #0123456789.").contains b
  let rest := bs.drop spec.length
  let shown := Text.decode (37 :: spec ++ rest.take 1)
  if maxSpecification < spec.length then
    (.malformed "invalid format string to 'format'", [])
  else
    let letter := (rest.head?.map fun b => Char.ofNat b.toNat).getD '%'
    match allowed? letter with
    | none => (.malformed ("invalid conversion '" ++ shown ++ "' to 'format'"), [])
    | some (flags, precise) =>
        match ofSpecification? flags precise spec letter with
        | some c => (.conversion c, rest.drop 1)
        | none => (.malformed ("invalid conversion specification: '" ++ shown ++ "'"), [])

/-- The pieces of a format. -/
def pieces : (fuel : Nat) → Bytes → List Piece
  | 0, _ => []
  | _, [] => []
  | fuel + 1, 37 :: 37 :: bs => .text [37] :: pieces fuel bs
  | fuel + 1, 37 :: bs =>
      let (p, rest) := piece bs
      p :: pieces fuel rest
  | fuel + 1, b :: bs =>
      let more := bs.takeWhile (· != 37)
      .text (b :: more) :: pieces fuel (bs.drop more.length)

/-! ## Writing values -/

/-- Whether a flag is set. -/
def has (c : Conversion) (flag : Char) : Bool := c.flags.contains (UInt8.ofNat flag.toNat)

/-- A text brought to the width, with blanks on one side or with zeros after the sign. -/
def fill (c : Conversion) (zeros : Bool) (sign body : Bytes) : Bytes :=
  let missing := c.width - (sign.length + body.length)
  if c.has '-' then sign ++ body ++ List.replicate missing 32
  else if zeros && c.has '0' then sign ++ List.replicate missing 48 ++ body
  else List.replicate missing 32 ++ sign ++ body

/-- The sign of a number. -/
def sign (c : Conversion) (negative : Bool) : String :=
  if negative then "-" else if c.has '+' then "+" else if c.has ' ' then " " else ""

/-- The sign or mark in front of an integer, and its digits. -/
def digitsOf (c : Conversion) (i : Int64) : String × List Char :=
  let n := i.toUInt64.toNat
  let mark (s : String) : String := if c.has '#' && n != 0 then s else ""
  match c.letter with
  | 'u' => ("", Nat.toDigits 10 n)
  | 'o' => (mark "0", Nat.toDigits 8 n)
  | 'x' => (mark "0x", Nat.toDigits 16 n)
  | 'X' => (mark "0X", (Nat.toDigits 16 n).map Char.toUpper)
  | _ => (c.sign (i < 0), Nat.toDigits 10 i.toInt.natAbs)

/-- An integer; the precision is the least number of digits. -/
def ofInt (c : Conversion) (i : Int64) : Bytes :=
  let (sign, digits) := c.digitsOf i
  let digits := if c.precision = some 0 ∧ i = 0 then [] else digits
  let digits := Decimal.zeros ((c.precision.getD 1) - digits.length) ++ digits
  c.fill c.precision.isNone (Bytes.ofString sign) (Bytes.ofString (String.ofList digits))

/-- One digit before the point, `places` after it, and an exponent. -/
def exponential (places : Nat) (x : Decimal.Binary) : List Char :=
  let (d, e) := if x.mantissa = 0 then (0, 0) else Decimal.significant x (places + 1)
  let ds := Decimal.digitsOf d
  let ds := Decimal.zeros (places + 1 - ds.length) ++ ds
  (if places = 0 then ds else Decimal.positional ds (-(places : Int))) ++ Decimal.exponentPart e

/-- A number that is not negative, without its sign; six places are written unless a precision
says otherwise. -/
def magnitude (c : Conversion) (x : Float) : String :=
  let places := c.precision.getD 6
  match c.letter with
  | 'f' => Decimal.fixed places x
  | 'g' => Decimal.general (max 1 places) x
  | 'G' => (Decimal.general (max 1 places) x).map Char.toUpper
  | 'E' => (String.ofList (exponential places (.ofBits x.toBits))).map Char.toUpper
  | _ => String.ofList (exponential places (.ofBits x.toBits))

/-- A double. -/
def ofFloat (c : Conversion) (x : Float) : Bytes :=
  if x.isNaN then c.fill false [] (Bytes.ofString "-nan")
  else
    let sign := Bytes.ofString (c.sign (Decimal.isNegative x))
    if x.isInf then c.fill false sign (Bytes.ofString "inf")
    else c.fill true sign (Bytes.ofString (c.magnitude x.abs))

/-- A text; the precision is the greatest number of its bytes. -/
def ofText (c : Conversion) (bs : Bytes) : Bytes :=
  c.fill false [] (match c.precision with
    | some n => bs.take n
    | none => bs)

/-- One byte. -/
def ofByte (c : Conversion) (b : UInt8) : Bytes := c.fill false [] [b]

end Conversion

end PagedStore.Script
