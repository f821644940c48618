import PagedStore.Script.Datum
import PagedStore.Script.Program

/-!
# Values of scripts

The values that a running script works with. Tables and functions are known by number: two of them
are the same only if they came into being at once.

A table maps keys to values. The keys from one up to some number are a sequence of their own, whose
length is the length of the table; it may have holes in it, but the last of its keys maps to
something. A key that is a whole number is the same key in either form, and a key that maps to
nothing is as good as one that is not there.
-/

set_option autoImplicit false

namespace PagedStore.Script

/-- The functions that are there before a script begins. -/
inductive Builtin where
  | print | tostring | tonumber | type | error | assert | pcall | select | ipairs | nextItem
  | setmetatable
  | rep | upper | lower | sub | len | reverse | byte | char | format
  | floor | ceil | max | min | abs | mathType | tointeger | sqrt | fmod
  | concat | insert | remove
  | create
  | dbStore | dbAppend | dbFetch | dbDelete | dbExists | dbCount
  deriving DecidableEq, Repr

namespace Builtin

/-- The name of a function, as reports about its arguments give it. -/
def name : Builtin → String
  | print => "print" | tostring => "tostring" | tonumber => "tonumber" | type => "type"
  | error => "error" | assert => "assert" | pcall => "pcall" | select => "select"
  | ipairs => "ipairs" | nextItem => "for iterator" | setmetatable => "setmetatable"
  | rep => "rep" | upper => "upper" | lower => "lower" | sub => "sub" | len => "len"
  | reverse => "reverse" | byte => "byte" | char => "char" | format => "format"
  | floor => "floor" | ceil => "ceil" | max => "max" | min => "min" | abs => "abs"
  | mathType => "type" | tointeger => "tointeger" | sqrt => "sqrt" | fmod => "fmod"
  | concat => "concat" | insert => "insert" | remove => "remove" | create => "create"
  | dbStore => "store" | dbAppend => "append" | dbFetch => "fetch" | dbDelete => "delete"
  | dbExists => "exists" | dbCount => "count"

end Builtin

/-- The number of a table. -/
abbrev TableId := Nat

/-- A value. -/
inductive Value where
  | nil
  | bool (b : Bool)
  | number (n : Number)
  | string (bs : Bytes)
  | table (id : TableId)
  | closure (id : Nat)
  | builtin (b : Builtin)
  /-- A coroutine. -/
  | thread (id : Nat)
  /-- The standard output as an object. -/
  | stream
  /-- What the caller of the script, and not the script, reports as having failed. -/
  | failure (report : String)

namespace Value

/-- An integer as a value. -/
def int (i : Int64) : Value := .number (.int i)

/-- A text as a value. -/
def text (s : String) : Value := .string (Bytes.ofString s)

/-- Whether a value counts as true. -/
def isTrue : Value → Bool
  | nil => false
  | bool b => b
  | _ => true

/-- Whether a value is nothing. -/
def isNil : Value → Bool
  | nil => true
  | _ => false

/-- The name of the type of a value. -/
def typeName : Value → String
  | nil => "nil"
  | bool _ => "boolean"
  | number _ => "number"
  | string _ => "string"
  | table _ => "table"
  | closure _ => "function"
  | builtin _ => "function"
  | thread _ => "thread"
  | stream => "userdata"
  | failure _ => "userdata"

/-- Whether two values are the same. -/
def same : Value → Value → Bool
  | nil, nil => true
  | bool a, bool b => a == b
  | number a, number b => a.compare? b == some .eq
  | string a, string b => a == b
  | table a, table b => a == b
  | closure a, closure b => a == b
  | builtin a, builtin b => a == b
  | thread a, thread b => a == b
  | stream, stream => true
  | failure a, failure b => a == b
  | _, _ => false

/-- The number that a value is or spells. -/
def toNumber? : Value → Option Number
  | number n => some n
  | string bs => Number.ofText? bs
  | _ => none

/-- The text that a value is or has as a number. -/
def toText? : Value → Option Bytes
  | string bs => some bs
  | number n => some (Bytes.ofString n.text)
  | _ => none

/-- The place of an object in memory, which nothing is known of but that no other one has it. -/
def address (id : Nat) : String :=
  let digits := Nat.toDigits 16 (64 * (id + 1))
  "0x" ++ String.ofList (List.replicate (14 - digits.length) '0' ++ digits)

/-- The text that a value is shown as. -/
def display : Value → Bytes
  | string bs => bs
  | v => Bytes.ofString (match v with
    | nil => "nil"
    | bool b => if b then "true" else "false"
    | number n => n.text
    | string _ => ""
    | table id => "table: " ++ address id
    | closure id => "function: " ++ address id
    | builtin b => "function: builtin: " ++ b.name
    | thread id => "thread: " ++ address id
    | stream => "file (" ++ address 0 ++ ")"
    | failure report => report)

/-- A value as it is handed out of a script. -/
def toDatum : Value → Datum
  | nil => .nil
  | bool b => .bool b
  | number (.int i) => .int i
  | number (.float x) => .float x
  | string bs => .string bs
  | table _ => .table
  | closure _ => .function
  | builtin _ => .function
  | thread _ => .other "thread"
  | stream => .other "userdata"
  | failure _ => .other "error"

end Value

/-- A table. -/
structure Table where
  /-- The values of the keys from one on; the last one is not nothing. -/
  sequence : Array Value := #[]
  /-- The other keys and their values. -/
  others : List (Value × Value) := []
  /-- The table that says what happens where this one has no value. -/
  behaviour : Option TableId := none

namespace Table

/-- The value of a key among pairs. -/
def lookup (k : Value) (pairs : List (Value × Value)) : Value :=
  ((pairs.find? fun p => p.1.same k).map (·.2)).getD .nil

/-- Pairs without a key. -/
def without (k : Value) (pairs : List (Value × Value)) : List (Value × Value) :=
  pairs.filter fun p => !p.1.same k

/-- The place of a key in a sequence, counted from zero. -/
def position? : Value → Option Nat
  | .number n =>
      match n.toInt? with
      | some i => if 0 < i then some (i.toInt.toNat - 1) else none
      | none => none
  | _ => none

/-- The value of a key. -/
def get (t : Table) (k : Value) : Value :=
  match (position? k).bind (t.sequence[·]?) with
  | some v => v
  | none => lookup k t.others

/-- A sequence without the nothing at its end. -/
def trim (vs : Array Value) : Array Value := vs.popWhile Value.isNil

/-- Moves the keys that continue the sequence into it; there are no more of them than pairs. -/
def absorb : (fuel : Nat) → Table → Table
  | 0, t => t
  | fuel + 1, t =>
      let k := Value.int (Int64.ofNat (t.sequence.size + 1))
      match lookup k t.others with
      | .nil => t
      | v => absorb fuel { t with
          sequence := t.sequence.push v, others := without k t.others }

/-- Gives a key a value; nothing takes the key away. -/
def set (t : Table) (k v : Value) : Table :=
  let place := position? k
  if place.any (· < t.sequence.size) then
    { t with sequence := trim (t.sequence.modify (place.getD 0) fun _ => v) }
  else if place == some t.sequence.size && !v.isNil then
    absorb (t.others.length + 1)
      { t with sequence := t.sequence.push v, others := without k t.others }
  else if v.isNil then { t with others := without k t.others }
  else { t with others := (k, v) :: without k t.others }

/-- The length of the sequence. -/
def length (t : Table) : Nat := t.sequence.size

/-- The table of items that were written one after the other and of pairs; the items stand at the
keys from one on, and a pair with one of these keys does not count. -/
def ofItems (items : List Value) (pairs : List (Value × Value)) : Table :=
  pairs.foldl (fun t (k, v) => if (position? k).any (· < items.length) then t else t.set k v)
    { sequence := trim items.toArray }

/-- The table that maps names to values. -/
def ofNames (pairs : List (String × Value)) : Table :=
  { others := pairs.map fun (name, v) => (.text name, v) }

end Table

end PagedStore.Script
