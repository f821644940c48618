import PagedStore.Script.Machine

/-!
# Invocations

A function that was there before the script takes its arguments one by one, and fails at the first
that will not do. A number may stand for a string and a string for the number that it spells.
-/

set_option autoImplicit false

namespace PagedStore.Script

/-- A call of a function that was there before the script. -/
structure Invocation where
  callers : Callers
  builtin : Builtin
  args : List Value

namespace Invocation

open Eval

variable {α : Type}

/-- The argument at a place counted from one. -/
def arg? (x : Invocation) (n : Nat) : Option Value := x.args[n - 1]?

/-- The argument at a place, nothing if there is none. -/
def arg (x : Invocation) (n : Nat) : Value := (x.arg? n).getD .nil

/-- Fails at the line of the caller. -/
def fail (x : Invocation) (report : String) : Eval α := fault x.callers report

/-- Fails because of an argument. -/
def refuse (x : Invocation) (n : Nat) (why : String) : Eval α :=
  argumentFault x.callers x.builtin n why

/-- Fails because an argument has another type. -/
def mismatch (x : Invocation) (n : Nat) (expected : String) : Eval α :=
  x.refuse n (expected ++ " expected, got " ++
    ((x.arg? n).map (·.typeName)).getD "no value")

/-- An argument of any type. -/
def any (x : Invocation) (n : Nat) : Eval Value := do
  match x.arg? n with
  | some v => return v
  | none => x.refuse n "value expected"

/-- A number. -/
def number (x : Invocation) (n : Nat) : Eval Number := do
  match (x.arg n).toNumber? with
  | some a => return a
  | none => x.mismatch n "number"

/-- An integer. -/
def integer (x : Invocation) (n : Nat) : Eval Int64 := do
  match (← x.number n).toInt? with
  | some i => return i
  | none => x.refuse n "number has no integer representation"

/-- An integer that may be left out. -/
def integerOr (x : Invocation) (n : Nat) (default : Int64) : Eval Int64 :=
  if (x.arg n).isNil then return default else x.integer n

/-- A string. -/
def string (x : Invocation) (n : Nat) : Eval Bytes := do
  match (x.arg n).toText? with
  | some bs => return bs
  | none => x.mismatch n "string"

/-- A string that may be left out. -/
def stringOr (x : Invocation) (n : Nat) (default : Bytes) : Eval Bytes :=
  if (x.arg n).isNil then return default else x.string n

/-- A table. -/
def table (x : Invocation) (n : Nat) : Eval TableId := do
  match x.arg n with
  | .table id => return id
  | _ => x.mismatch n "table"

/-! ## Arguments of calls to the database -/

/-- The name of the type of a value in reports about calls to the database. -/
def hostTypeName : Value → String
  | .failure _ => "error"
  | v => v.typeName

/-- A key or value for the database. -/
def hostText (x : Invocation) (n : Nat) : Eval Bytes := do
  match (x.arg n).toText? with
  | some bs => return bs
  | none =>
      throw (.fault (.failure ("bad argument #" ++ toString n ++ ": error converting Lua " ++
        hostTypeName (x.arg n) ++ " to string (expected string or number)")))

end Invocation

end PagedStore.Script
