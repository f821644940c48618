import PagedStore.Script.Number
import PagedStore.Text.Lossy

/-!
# Values taken out of a script

A `Datum` is a copy of what a variable of a script held when it was asked for. Every conversion
of a datum succeeds, one of the wrong type by a fixed rule:

* nothing is zero, false and the empty text;
* a truth value is one or zero, and its name;
* a number is cut off toward zero and held within the bounds of the integer type that is asked
  for, true unless it is zero, and its shortest decimal;
* a string is the number that it begins with after blanks, or zero, and true unless it is empty;
* anything else is zero, true, and the name of its type.
-/

set_option autoImplicit false

namespace PagedStore.Script

/-- A copy of a value of a script. -/
inductive Datum where
  | nil
  | bool (b : Bool)
  | int (i : Int64)
  | float (x : Float)
  | string (bs : Bytes)
  | table
  | function
  /-- A value of a type that is only known by its name. -/
  | other (typeName : String)

/-- Whether a byte is a blank: space, tab, line feed, form feed or carriage return. -/
def isBlank (b : UInt8) : Bool := b == 32 || b == 9 || b == 10 || b == 12 || b == 13

/-- The number that a string begins with after blanks. It is an integer when it is written as one
and fits. -/
def leadingNumber? (bs : Bytes) : Option Number :=
  (Decimal.Numeral.read? (bs.dropWhile isBlank)).map fun (x, _) =>
    if x.isWhole && fitsInt64 x.toInt then .int (Int64.ofInt x.toInt) else .float x.toFloat

/-- The integer nearest to a float on the side of zero, within the bounds of 64 bits. -/
def truncate (x : Float) : Int64 := x.toInt64

namespace Datum

/-- The name of the type of a datum. -/
def typeName : Datum → String
  | nil => "nil"
  | bool _ => "boolean"
  | int _ => "integer"
  | float _ => "number"
  | string _ => "string"
  | table => "table"
  | function => "function"
  | other name => name

/-- A datum as an integer of 64 bits. -/
def toInt64 : Datum → Int64
  | int i => i
  | float x => truncate x
  | bool b => if b then 1 else 0
  | string bs =>
      match leadingNumber? bs with
      | some (.int i) => i
      | some (.float x) => truncate x
      | none => 0
  | _ => 0

/-- A datum as an integer of 32 bits. -/
def toInt32 (d : Datum) : Int := max Int32.minValue.toInt (min Int32.maxValue.toInt d.toInt64.toInt)

/-- A datum as a float. -/
def toFloat : Datum → Float
  | int i => i.toFloat
  | float x => x
  | bool b => if b then 1.0 else 0.0
  | string bs =>
      match leadingNumber? bs with
      | some (.int i) => i.toFloat
      | some (.float x) => x
      | none => 0.0
  | _ => 0.0

/-- A datum as a truth value. -/
def toBool : Datum → Bool
  | nil => false
  | bool b => b
  | int i => i != 0
  | float x => x != 0.0
  | string bs => bs != []
  | _ => true

/-- A datum as a text. -/
def toText : Datum → String
  | nil => ""
  | bool b => if b then "true" else "false"
  | int i => toString i.toInt
  | float x => Decimal.plain x
  | string bs => Text.decode bs
  | d => d.typeName

end Datum

end PagedStore.Script
