/-!
# Status codes

Every outcome of an operation has a small integer and a fixed text. Zero and the code of `done`
are successes; all others are failures.
-/

set_option autoImplicit false

namespace PagedStore

/-- The catalog of outcomes. -/
inductive Status where
  | ok | outOfMemory | ioError | empty | locked | notFound | limitReached | invalidParam | aborted
  | alreadyExists | unknownConfig | busy | notImplemented | endOfInput | permission | noOp | corrupt
  | done | compileError | vmError | full | cannotOpen | readOnly | lockError
  deriving DecidableEq, Repr

namespace Status

/-- The catalog in the order of its numbers, from zero down. -/
def all : List Status :=
  [.ok, .outOfMemory, .ioError, .empty, .locked, .notFound, .limitReached, .invalidParam,
    .aborted, .alreadyExists, .unknownConfig, .busy, .notImplemented, .endOfInput, .permission, .noOp,
    .corrupt, .done, .compileError, .vmError, .full, .cannotOpen, .readOnly, .lockError]

/-- The number of a status. -/
def value : Status → Int
  | ok => 0
  | outOfMemory => -1
  | ioError => -2
  | empty => -3
  | locked => -4
  | notFound => -6
  | limitReached => -7
  | invalidParam => -9
  | aborted => -10
  | alreadyExists => -11
  | unknownConfig => -13
  | busy => -14
  | notImplemented => -17
  | endOfInput => -18
  | permission => -19
  | noOp => -20
  | corrupt => -24
  | done => -28
  | compileError => -70
  | vmError => -71
  | full => -73
  | cannotOpen => -74
  | readOnly => -75
  | lockError => -76

/-- The text of a status. -/
def message : Status → String
  | ok => "OK"
  | outOfMemory => "Out of memory"
  | ioError => "IO error"
  | empty => "Empty record"
  | locked => "Forbidden Operation"
  | notFound => "No such record"
  | limitReached => "Database limit reached"
  | invalidParam => "Invalid parameter"
  | aborted => "Another thread have released this instance"
  | alreadyExists => "Record exists"
  | unknownConfig => "Unknown configuration option"
  | busy => "The database file is locked"
  | notImplemented => "Method not implemented by the underlying Key/Value storage engine"
  | endOfInput => "End Of Input"
  | permission => "Permission error"
  | noOp => "No such method"
  | corrupt => "Corrupt pointer"
  | done => "Operation done"
  | compileError => "Compilation error"
  | vmError => "Virtual machine error"
  | full => "Full database"
  | cannotOpen => "Unable to open the database file"
  | readOnly => "Read only Key/Value storage engine"
  | lockError => "Locking protocol error"

/-- The name of a status in the catalog. -/
def name : Status → String
  | ok => "Ok"
  | outOfMemory => "OutOfMemory"
  | ioError => "IoError"
  | empty => "Empty"
  | locked => "Locked"
  | notFound => "NotFound"
  | limitReached => "LimitReached"
  | invalidParam => "InvalidParam"
  | aborted => "Aborted"
  | alreadyExists => "Exists"
  | unknownConfig => "UnknownConfig"
  | busy => "Busy"
  | notImplemented => "NotImplemented"
  | endOfInput => "EndOfInput"
  | permission => "Permission"
  | noOp => "NoOp"
  | corrupt => "Corrupt"
  | done => "Done"
  | compileError => "CompileError"
  | vmError => "VmError"
  | full => "Full"
  | cannotOpen => "CannotOpen"
  | readOnly => "ReadOnly"
  | lockError => "LockError"

/-- The status with a given number. -/
def ofValue? (n : Int) : Option Status := all.find? fun s => s.value == n

/-- Whether a status signals success. -/
def isSuccess (s : Status) : Bool := s == ok || s == done

/-- The text for any number; one outside the catalog is named by itself. -/
def messageFor (n : Int) : String :=
  match ofValue? n with
  | some s => s.message
  | none => "err: " ++ toString n

end Status

end PagedStore
