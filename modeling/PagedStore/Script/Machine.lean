import PagedStore.Script.Conversation
import PagedStore.Script.Value

/-!
# The state of a running script

The local variables, tables and functions that have come into being, what has been printed, and
how many steps were taken. Time is counted in steps, so that what a script does follows from its
text and from the answers of the database alone. When the time is up a step fails; a script that
catches this failure is given a thousand steps more.
-/

set_option autoImplicit false

namespace PagedStore.Script

/-- Local variables: their names, the newest first, and the cells that hold their values. -/
abbrev Locals := List (Bytes × Nat)

/-- A function together with the variables around it. -/
structure Closure where
  function : Function
  locals : Locals

/-- The state of a running script. -/
structure Machine where
  cells : Array Value := #[]
  tables : Array Table := #[]
  closures : Array Closure := #[]
  threads : Nat := 0
  output : String := ""
  steps : Nat := 0
  /-- The step that fails, if time is limited. -/
  deadline : Option Nat := none

/-- Why a script stops before its end. -/
inductive Stop where
  /-- A failure that the script may catch; the value says what failed. -/
  | fault (v : Value)
  /-- The evaluation was not given enough fuel. -/
  | exhausted

/-- An evaluation of a part of a script. -/
abbrev Eval := ExceptT Stop (StateT Machine Conversation)

/-- The callers of what is being evaluated. -/
structure Callers where
  /-- For each, the nearest first, the line that it is at, if it is a function of the script. -/
  lines : List (Option Nat) := []
  /-- How many there are. -/
  depth : Nat := 0

namespace Callers

/-- One more caller, which is the nearest. -/
def push (line : Option Nat) (c : Callers) : Callers := ⟨line :: c.lines, c.depth + 1⟩

/-- The line of the caller that is `level` calls away. -/
def line? (c : Callers) (level : Nat) : Option Nat := (c.lines[level - 1]?).getD none

end Callers

namespace Eval

variable {α : Type}

/-! ## Failing -/

/-- The place of a line in reports. -/
def position : Option Nat → String
  | some n => "[string \"script\"]:" ++ toString n ++ ": "
  | none => ""

/-- Fails with a report that names a line. -/
def faultAt (line : Option Nat) (report : String) : Eval α :=
  throw (.fault (.text (position line ++ report)))

/-- Fails within a function that was there before the script, at the line of its caller. -/
def fault (callers : Callers) (report : String) : Eval α := faultAt (callers.line? 1) report

/-- Fails because of an argument. -/
def argumentFault (callers : Callers) (b : Builtin) (n : Nat) (why : String) : Eval α :=
  fault callers ("bad argument #" ++ toString n ++ " to '" ++ b.name ++ "' (" ++ why ++ ")")

/-! ## Time -/

/-- How many steps a script may take once more after its time was up. -/
def grace : Nat := 1000

/-- The report that the time is up. -/
def timeUp : String := "runtime error: script execution timeout"

/-- Takes one step. -/
def tick : Eval Unit := do
  let m ← get
  let steps := m.steps + 1
  match m.deadline with
  | none => set { m with steps := steps }
  | some n =>
      if n ≤ steps then
        set { m with steps := steps, deadline := some (steps + grace) }
        throw (.fault (.failure timeUp))
      else set { m with steps := steps }

/-! ## The database -/

/-- Asks something of the database. -/
def ask (c : HostCall) : Eval HostReply :=
  ExceptT.mk fun m => .ask c fun reply => .done (.ok reply, m)

/-! ## Variables and tables -/

/-- Makes a cell. -/
def newCell (v : Value) : Eval Nat :=
  modifyGet fun m => (m.cells.size, { m with cells := m.cells.push v })

/-- The value of a cell. -/
def readCell (i : Nat) : Eval Value := return ((← get).cells[i]?).getD .nil

/-- Changes a cell. -/
def writeCell (i : Nat) (v : Value) : Eval Unit :=
  modify fun m => { m with cells := m.cells.modify i fun _ => v }

/-- Makes a table. -/
def newTable (t : Table) : Eval TableId :=
  modifyGet fun m => (m.tables.size, { m with tables := m.tables.push t })

/-- A table. -/
def readTable (id : TableId) : Eval Table := return ((← get).tables[id]?).getD {}

/-- Changes a table. -/
def changeTable (id : TableId) (f : Table → Table) : Eval Unit :=
  modify fun m => { m with tables := m.tables.modify id f }

/-- Makes a function. -/
def newClosure (c : Closure) : Eval Value :=
  modifyGet fun m => (.closure m.closures.size, { m with closures := m.closures.push c })

/-- Gives values to new variables, nothing to those for which there is no value. -/
def bindAll : List Bytes → List Value → Locals → Eval Locals
  | [], _, locals => return locals
  | n :: ns, vs, locals => do
      let cell ← newCell (vs.headD .nil)
      bindAll ns vs.tail ((n, cell) :: locals)

/-- Prints a line. -/
def printLine (line : String) : Eval Unit :=
  modify fun m => { m with output := m.output ++ line ++ "\n" }

end Eval

/-! ## The beginning -/

namespace Machine

/-- The table of the names that are there before a script begins. -/
def sharedNames : TableId := 0

/-- The table of the names that a script gives values to. -/
def ownNames : TableId := 1

/-- The table of the operations on strings. -/
def stringNames : TableId := 3

/-- The names that are there before a script begins. -/
def shared : Table :=
  .ofNames [("print", .builtin .print), ("tostring", .builtin .tostring),
    ("tonumber", .builtin .tonumber), ("type", .builtin .type), ("error", .builtin .error),
    ("assert", .builtin .assert), ("pcall", .builtin .pcall), ("select", .builtin .select),
    ("ipairs", .builtin .ipairs), ("setmetatable", .builtin .setmetatable),
    ("_G", .table sharedNames), ("_VERSION", .text "Lua 5.4"), ("string", .table stringNames),
    ("math", .table 4), ("table", .table 5), ("coroutine", .table 6), ("io", .table 7),
    ("db", .table 8)]

/-- The operations on strings. -/
def strings : Table :=
  .ofNames [("rep", .builtin .rep), ("upper", .builtin .upper), ("lower", .builtin .lower),
    ("sub", .builtin .sub), ("len", .builtin .len), ("reverse", .builtin .reverse),
    ("byte", .builtin .byte), ("char", .builtin .char), ("format", .builtin .format)]

/-- The operations on numbers. -/
def mathematics : Table :=
  .ofNames [("floor", .builtin .floor), ("ceil", .builtin .ceil), ("max", .builtin .max),
    ("min", .builtin .min), ("abs", .builtin .abs), ("type", .builtin .mathType),
    ("tointeger", .builtin .tointeger), ("sqrt", .builtin .sqrt), ("fmod", .builtin .fmod),
    ("huge", .number (.float (1.0 / 0.0))), ("pi", .number (.float 3.141592653589793)),
    ("maxinteger", .int Int64.maxValue), ("mininteger", .int Int64.minValue)]

/-- The operations on the database. -/
def database : Table :=
  .ofNames [("store", .builtin .dbStore), ("append", .builtin .dbAppend),
    ("fetch", .builtin .dbFetch), ("delete", .builtin .dbDelete), ("exists", .builtin .dbExists),
    ("count", .builtin .dbCount)]

/-- The state in which a script begins. A name that the script has given no value to is looked up
among those that were there before. -/
def initial (deadline : Option Nat) : Machine where
  tables := #[shared, { behaviour := some 2 }, .ofNames [("__index", .table sharedNames)],
    strings, mathematics,
    .ofNames [("concat", .builtin .concat), ("insert", .builtin .insert),
      ("remove", .builtin .remove)],
    .ofNames [("create", .builtin .create)], .ofNames [("stdout", .stream)], database]
  deadline := deadline

end Machine

end PagedStore.Script
