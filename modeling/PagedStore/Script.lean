import PagedStore.Script.Evaluation
import PagedStore.Script.Grammar

/-!
# Scripts

A script is compiled once and executed once; it can be executed again after it was reset. What it
prints is kept, and so are copies of the variables that it gave values to.

Unless a transaction is open already, the run of a script is one: it is committed when the script
comes to its end and rolled back when it fails. A transaction that was open before stays open
either way, and the writes of the script belong to it. That is so whatever a script says to the
database (`run`); what it says is found by evaluating its program (`conversation`).
-/

set_option autoImplicit false

namespace PagedStore

/-- A script that is well formed. -/
structure Script where
  source : String
  program : Script.Function
  executed : Bool := false
  /-- What was printed. -/
  output : String := ""
  /-- The variables that were given values. -/
  assigned : List (Bytes × Script.Datum) := []

namespace Script

open PagedStore.Action

variable [Codec]

/-! ## Compiling -/

/-- The byte that begins a script that is not a text. -/
def binaryMark : UInt8 := 27

/-- A script with a source. -/
def compile (source : String) : Except Error Script :=
  let bs := Bytes.ofString source
  if bs.head? = some binaryMark then
    .error (.compile "[string \"script\"]: bad binary format (truncated chunk)" none)
  else
    match Function.ofSource bs with
    | .ok f => .ok { source := source, program := f }
    | .error n => .error (.compile (Eval.position (some n) ++ "syntax error") (some n))

/-- A script as it was after compilation. -/
def reset (s : Script) : Script := { source := s.source, program := s.program }

/-- What a compiled script begins with. -/
def magic : Bytes := 27 :: Bytes.ofString "Lua"

/-- A script as reports show it. -/
def debug (s : Script) : String :=
  "Vm \x7b state: " ++ (if s.executed then "Executed" else "Compiled") ++
    ", source_len: " ++ toString s.source.utf8ByteSize ++
    ", output_len: " ++ toString s.output.utf8ByteSize ++ " \x7d"

/-! ## Running -/

/-- How many milliseconds of a limit count. -/
def maxMillis : Nat := 200

/-- The step that fails when time is limited: a thousand steps are always free, and a thousand
more for every millisecond. -/
def deadline (timeout : Option Duration) : Option Nat :=
  timeout.map fun t => 1000 + 1000 * min maxMillis t.toMillis

/-- The fuel of a run: more than could be used up in a lifetime. -/
def fuel : Nat := 1 <<< 60

/-- The report of a failure. A value that is not a report is shown as far as its first zero
byte. -/
def reportOf : Stop → String
  | .fault (.failure report) => report
  | .fault v => "runtime error: " ++ Text.decode (v.display.takeWhile (· != 0))
  | .exhausted => Eval.timeUp

/-- The variables that a script gave values to. -/
def assignedBy (m : Machine) : List (Bytes × Datum) :=
  ((m.tables[Machine.ownNames]?).getD {}).others.filterMap fun
    | (.string name, v) => some (name, v.toDatum)
    | _ => none

/-- What is found when a run has come to its end. -/
structure Ending where
  /-- Why the script failed, if it did. -/
  result : Except String Unit
  /-- Why the names `db` and `print` could not be given back, if that failed. -/
  givenBack : Except String Unit := .ok ()
  output : String
  assigned : List (Bytes × Datum)

/-- What a run comes to. That names could not be given back counts before what the script did. -/
def Ending.outcome (e : Ending) : Except String Unit := e.givenBack >>= fun _ => e.result

/-- What a script says to its database. -/
def conversation (s : Script) (timeout : Option Duration) : Conversation Ending := do
  let run : Eval (List Value) := do
    let main ← Eval.newClosure ⟨s.program, []⟩
    Eval.call {} main [] fuel
  let (result, m) ← run.run.run (.initial (deadline timeout))
  return {
    result := match result with
      | .ok _ => .ok ()
      | .error stop => .error (reportOf stop)
    output := m.output
    assigned := assignedBy m }

/-- An operation of the database of a script. -/
def onDatabase {α : Type} (a : Action Database α) : Action (Script × Database) α :=
  zoom (·.2) (fun db s => (s.1, db)) a

/-- Has a script say what it says to the database, and keeps what is found at the end. -/
def attend (talk : Conversation Ending) : Action (Script × Database) (Except String Unit) := do
  update fun (s, db) => ({ s with executed := true }, db)
  let ending ← onDatabase talk.perform
  update fun (s, db) =>
    ({ s with output := s.output ++ ending.output, assigned := ending.assigned }, db)
  return ending.outcome

/-- The end of a run, which ends the transaction that was begun for it. -/
def conclude (caller : Caller) (own : Bool) : Except String Unit → Action (Script × Database) Unit
  | .ok () => do if own then onDatabase (Database.commit caller)
  | .error report => do
      if own then onDatabase (Database.rollback caller)
      throw (.vm report)

/-- Runs a script that belongs to a caller, whatever it says to the database. -/
def run (caller : Caller) (talk : Conversation Ending) : Action (Script × Database) Unit := do
  let (s, _) ← self
  if s.executed then throw (.invalidState "script already executed; reset it first")
  let own ← onDatabase (Database.beginImplicit caller)
  let outcome ← attend talk
  conclude caller own outcome

/-- Runs a script that belongs to a caller. -/
def execute (caller : Caller) : Action (Script × Database) Unit := do
  let (s, db) ← self
  run caller (s.conversation db.scriptTimeout)

/-- A variable that the script gave a value to. -/
def extract (s : Script) (name : String) : Option Datum :=
  s.assigned.lookup (Bytes.ofString name)

end Script

end PagedStore
