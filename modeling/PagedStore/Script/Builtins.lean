import PagedStore.Script.Format
import PagedStore.Script.Invocation

/-!
# The functions that a script finds

What the functions do that are there before a script begins, those aside that call functions
themselves. Positions in strings and tables count from one, and in strings also from the end, with
a minus.
-/

set_option autoImplicit false

namespace PagedStore.Script

namespace Invocation

open Eval

/-! ## Failures on purpose -/

/-- Fails with a value; a string is preceded by the line of the function that is `level` calls
away. -/
def raise (x : Invocation) (v : Value) (level : Int64) : Eval (List Value) :=
  match v with
  | .string bs =>
      let line := if 0 < level then x.callers.line? level.toInt.toNat else none
      throw (.fault (.string (Bytes.ofString (position line) ++ bs)))
  | v => throw (.fault v)

/-- Fails with a value. -/
def raiseArgument (x : Invocation) : Eval (List Value) := do
  x.raise (x.arg 1) (← x.integerOr 2 1)

/-- Gives its arguments back, or fails if the first of them is not true. -/
def insist (x : Invocation) : Eval (List Value) := do
  if (← x.any 1).isTrue then return x.args
  x.raise ((x.arg? 2).getD (.text "assertion failed!")) 1

/-! ## Values -/

/-- Prints the arguments on a line, with tabs between them. -/
def printArguments (x : Invocation) : Eval (List Value) := do
  printLine ("\t".intercalate (x.args.map fun v => Text.decode v.display))
  return []

/-- The number that an argument spells, in a base if one is given. -/
def readNumber (x : Invocation) : Eval (List Value) := do
  if (x.arg 2).isNil then
    return [((← x.any 1).toNumber?.map Value.number).getD .nil]
  let base ← x.integer 2
  match x.arg 1 with
  | .string bs =>
      if base < 2 ∨ 36 < base then x.refuse 2 "base out of range"
      return [((Number.ofTextIn? base.toInt.toNat bs).map Value.int).getD .nil]
  | _ => x.mismatch 1 "string"

/-- The arguments from a place on, or how many there are. -/
def selectArguments (x : Invocation) : Eval (List Value) := do
  let others := x.args.drop 1
  match x.arg 1 with
  | .string (35 :: _) => return [.int (Int64.ofNat others.length)]
  | _ =>
      let i ← x.integer 1
      let first : Int := if i < 0 then i.toInt + x.args.length else i.toInt
      if first < 1 then x.refuse 1 "index out of range"
      return others.drop (first.toNat - 1)

/-- The iterator over the positions of a table, the table and the position before the first. -/
def iterate (x : Invocation) : Eval (List Value) := do
  return [.builtin .nextItem, ← x.any 1, .int 0]

/-- Sets what happens where a table has no value. -/
def setBehaviour (x : Invocation) : Eval (List Value) := do
  let id ← x.table 1
  match x.arg? 2 with
  | some .nil => changeTable id fun t => { t with behaviour := none }
  | some (.table m) => changeTable id fun t => { t with behaviour := some m }
  | _ => x.mismatch 2 "nil or table"
  return [.table id]

/-- Makes a coroutine of a function. -/
def makeThread (x : Invocation) : Eval (List Value) := do
  match x.arg 1 with
  | .closure _ | .builtin _ =>
      let id ← modifyGet fun m => (m.threads, { m with threads := m.threads + 1 })
      return [.thread id]
  | _ => x.mismatch 1 "function"

/-! ## Strings -/

/-- The position of a first byte, from one on. -/
def firstPosition (i : Int64) (length : Nat) : Nat :=
  if 0 ≤ i then max 1 i.toInt.toNat else (max 1 (length + i.toInt + 1)).toNat

/-- The position of a last byte, up to the length. -/
def lastPosition (i : Int64) (length : Nat) : Nat :=
  if 0 ≤ i then min length i.toInt.toNat else (length + i.toInt + 1).toNat

/-- The bytes between two positions. -/
def between (bs : Bytes) (i j : Int64) : Bytes :=
  let first := firstPosition i bs.length
  (bs.take (lastPosition j bs.length)).drop (first - 1)

/-- A byte of the Latin letters as a capital one. -/
def capital (b : UInt8) : UInt8 := if 97 ≤ b ∧ b ≤ 122 then b - 32 else b

/-- A byte of the Latin letters as a small one. -/
def small (b : UInt8) : UInt8 := if 65 ≤ b ∧ b ≤ 90 then b + 32 else b

/-- The greatest length of a string that is made by repetition. -/
def maxRepetition : Nat := 0x80000000

/-- A string a number of times, with another one between. -/
def repetition (x : Invocation) : Eval (List Value) := do
  let bs ← x.string 1
  let n := (← x.integer 2).toInt.toNat
  let separator ← x.stringOr 3 []
  if bs = [] ∧ separator = [] then return [.string []]
  if maxRepetition < n * (bs.length + separator.length) then x.fail "resulting string too large"
  return [.string ((List.replicate n bs).intersperse separator).flatten]

/-- A part of a string. -/
def part (x : Invocation) : Eval (List Value) := do
  let bs ← x.string 1
  let i ← x.integer 2
  return [.string (between bs i (← x.integerOr 3 (-1)))]

/-- The numbers of some bytes. -/
def codes (x : Invocation) : Eval (List Value) := do
  let bs ← x.string 1
  let i ← x.integerOr 2 1
  let j ← x.integerOr 3 i
  return (between bs i j).map fun b => .int (Int64.ofNat b.toNat)

/-- The string of the bytes with the numbers from the argument at a place on. -/
def bytesFrom (x : Invocation) : (place : Nat) → List Value → Eval Bytes
  | _, [] => return []
  | place, _ :: more => do
      let i ← x.integer place
      if i < 0 ∨ 255 < i then x.refuse place "value out of range"
      return UInt8.ofNat i.toInt.toNat :: (← x.bytesFrom (place + 1) more)

/-- The text of an argument in a format. -/
def converted (x : Invocation) (c : Conversion) (place : Nat) : Eval Bytes := do
  match c.letter with
  | 'c' => return c.ofByte (UInt8.ofNat ((← x.integer place).toUInt64.toNat % 256))
  | 's' => return c.ofText (← x.any place).display
  | 'e' | 'E' | 'f' | 'g' | 'G' => return c.ofFloat (← x.number place).toFloat
  | _ => return c.ofInt (← x.integer place)

/-- The pieces of a format with the arguments from a place on put in. -/
def fillIn (x : Invocation) : (place : Nat) → List Piece → Eval Bytes
  | _, [] => return []
  | place, .text bs :: more => return bs ++ (← x.fillIn place more)
  | place, .conversion c :: more => do
      let bs ← x.converted c place
      return bs ++ (← x.fillIn (place + 1) more)
  | _, .malformed report :: _ => x.fail report

/-- A format with the arguments put in. -/
def formatted (x : Invocation) : Eval (List Value) := do
  let format ← x.string 1
  return [.string (← x.fillIn 2 (Conversion.pieces (format.length + 1) format))]

/-! ## Numbers -/

/-- The whole number next to a number. -/
def rounded (x : Invocation) (round : Float → Float) : Eval (List Value) := do
  match x.arg 1 with
  | .number (.int i) => return [.int i]
  | _ => return [.number (.ofWhole (round (← x.number 1).toFloat))]

/-- Of the arguments from a place on and `best`, the one that is better than all others. -/
def bestFrom (x : Invocation) (better : Ordering) (best : Number) :
    (place : Nat) → List Value → Eval Number
  | _, [] => return best
  | place, _ :: more => do
      let n ← x.number place
      x.bestFrom better (if n.compare? best = some better then n else best) (place + 1) more

/-- The best of all arguments. -/
def best (x : Invocation) (better : Ordering) : Eval (List Value) := do
  let first ← x.number 1
  return [.number (← x.bestFrom better first 2 (x.args.drop 1))]

/-- A number without its sign. -/
def absolute (x : Invocation) : Eval (List Value) := do
  match x.arg 1 with
  | .number (.int i) => return [.int (if i < 0 then -i else i)]
  | _ => return [.number (.float (← x.number 1).toFloat.abs)]

/-- The name of the kind of a number. -/
def numberKind (x : Invocation) : Eval (List Value) := do
  match ← x.any 1 with
  | .number (.int _) => return [.text "integer"]
  | .number (.float _) => return [.text "float"]
  | _ => return [.nil]

/-- The integer that a value is equal to. -/
def wholeNumber (x : Invocation) : Eval (List Value) := do
  return [(((← x.any 1).toNumber?.bind Number.toInt?).map Value.int).getD .nil]

/-- The remainder of the quotient that is cut off toward zero. -/
def truncatedRemainder (x : Invocation) : Eval (List Value) := do
  match x.arg 1, x.arg 2 with
  | .number (.int i), .number (.int j) =>
      if j = 0 then x.refuse 2 "zero"
      return [.int (Int64.ofInt (Int.tmod i.toInt j.toInt))]
  | _, _ =>
      let a ← x.number 1
      return [.number (.float (Decimal.remainder a.toFloat (← x.number 2).toFloat))]

/-! ## Tables -/

/-- The items from position `i` on, with a separator between them. -/
def joinFrom (x : Invocation) (t : Table) (separator : Bytes) :
    (items : Nat) → (i : Int64) → Eval Bytes
  | 0, _ => return []
  | items + 1, i => do
      match (t.get (.int i)).toText? with
      | none =>
          x.fail ("invalid value (at index " ++ toString i.toInt ++ ") in table for 'concat'")
      | some bs =>
          if items = 0 then return bs
          return bs ++ separator ++ (← x.joinFrom t separator items (i + 1))

/-- The items of a table in a row. -/
def join (x : Invocation) : Eval (List Value) := do
  let t ← readTable (← x.table 1)
  let separator ← x.stringOr 2 []
  let i ← x.integerOr 3 1
  let j ← x.integerOr 4 (Int64.ofNat t.length)
  return [.string (← x.joinFrom t separator (j.toInt - i.toInt + 1).toNat i)]

/-- A table with the items from `i` on, the last of them first, moved by one. -/
def shiftUp (t : Table) : (items : Nat) → (i : Int64) → Table
  | 0, _ => t
  | items + 1, i =>
      let last := i + Int64.ofNat items
      shiftUp (t.set (.int (last + 1)) (t.get (.int last))) items i

/-- A table with the items after `i` moved to the place before. -/
def shiftDown (t : Table) : (items : Nat) → (i : Int64) → Table
  | 0, _ => t
  | items + 1, i => shiftDown (t.set (.int i) (t.get (.int (i + 1)))) items (i + 1)

/-- Puts an item into a table, at the end or at a position. -/
def insertItem (x : Invocation) : Eval (List Value) := do
  let id ← x.table 1
  let size := Int64.ofNat (← readTable id).length
  match x.args with
  | [_, v] => changeTable id fun t => t.set (.int (size + 1)) v
  | [_, _, v] =>
      let i ← x.integer 2
      if i < 1 ∨ size + 1 < i then x.refuse 2 "position out of bounds"
      changeTable id fun t =>
        (shiftUp t (size - i + 1).toInt.toNat i).set (.int i) v
  | _ => x.fail "wrong number of arguments to 'insert'"
  return []

/-- Takes an item out of a table, at the end or at a position. -/
def removeItem (x : Invocation) : Eval (List Value) := do
  let id ← x.table 1
  let t ← readTable id
  let size := Int64.ofNat t.length
  let i ← x.integerOr 2 size
  if i ≠ size ∧ (i < 1 ∨ size + 1 < i) then x.refuse 2 "position out of bounds"
  let last := max i size
  changeTable id fun t => (shiftDown t (size - i).toInt.toNat i).set (.int last) .nil
  return [t.get (.int i)]

/-! ## The database -/

/-- Asks something of the database; a failure of it is a failure of the script. -/
def askHost (c : HostCall) : Eval (List Value) := do
  match ← ask c with
  | .done => return []
  | .truth b => return [.bool b]
  | .value none => return [.nil]
  | .value (some bs) => return [.string bs]
  | .count n => return [.int (Int64.ofNat n)]
  | .failed e => throw (.fault (.failure e.message))

/-- Asks something about a key. -/
def askKey (x : Invocation) (c : Bytes → HostCall) : Eval (List Value) := do
  askHost (c (← x.hostText 1))

/-- Asks for a change of a record. -/
def askChange (x : Invocation) (c : Bytes → Bytes → HostCall) : Eval (List Value) := do
  let key ← x.hostText 1
  askHost (c key (← x.hostText 2))

/-! ## All together -/

/-- Carries out a call. The two functions that call others have no results here. -/
def run (x : Invocation) : Eval (List Value) := do
  match x.builtin with
  | .print => x.printArguments
  | .tostring => return [.string (← x.any 1).display]
  | .tonumber => x.readNumber
  | .type => return [.text (← x.any 1).typeName]
  | .error => x.raiseArgument
  | .assert => x.insist
  | .select => x.selectArguments
  | .ipairs => x.iterate
  | .setmetatable => x.setBehaviour
  | .rep => x.repetition
  | .upper => return [.string ((← x.string 1).map capital)]
  | .lower => return [.string ((← x.string 1).map small)]
  | .sub => x.part
  | .len => return [.int (Int64.ofNat (← x.string 1).length)]
  | .reverse => return [.string (← x.string 1).reverse]
  | .byte => x.codes
  | .char => return [.string (← x.bytesFrom 1 x.args)]
  | .format => x.formatted
  | .floor => x.rounded Float.floor
  | .ceil => x.rounded Float.ceil
  | .max => x.best .gt
  | .min => x.best .lt
  | .abs => x.absolute
  | .mathType => x.numberKind
  | .tointeger => x.wholeNumber
  | .sqrt => return [.number (.float (← x.number 1).toFloat.sqrt)]
  | .fmod => x.truncatedRemainder
  | .concat => x.join
  | .insert => x.insertItem
  | .remove => x.removeItem
  | .create => x.makeThread
  | .dbStore => x.askChange .store
  | .dbAppend => x.askChange .append
  | .dbFetch => x.askKey .fetch
  | .dbDelete => x.askKey .delete
  | .dbExists => x.askKey .contains
  | .dbCount => askHost .size
  | .pcall | .nextItem => return []

end Invocation

end PagedStore.Script
