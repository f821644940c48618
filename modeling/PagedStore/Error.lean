import PagedStore.Bytes
import PagedStore.Status

/-!
# Failures

What can go wrong in an operation, the text that reports it and the status it maps to. Most kinds
carry the part of the report that only the place of failure knows; the fixed part belongs to the
kind.
-/

set_option autoImplicit false

namespace PagedStore

/-- Why the file system refused a request. -/
inductive IoCause where
  | notFound | permissionDenied | outOfMemory | unexpectedEof | other
  deriving DecidableEq, Repr

/-- A failed operation. -/
inductive Error where
  /-- The file system refused. -/
  | io (cause : IoCause) (text : String)
  /-- The database file cannot be opened or made. -/
  | cannotOpen (text : String)
  /-- Stored bytes are not what they must be. -/
  | corrupt (text : String)
  /-- A stored checksum differs from the one of the contents. -/
  | checksumMismatch (expected actual : UInt32)
  /-- There is no such record. -/
  | notFound (text : String)
  /-- A cursor ran off the records. -/
  | eof
  /-- There is such a database already. -/
  | alreadyExists (text : String)
  /-- An argument or option is out of range. -/
  | invalidParam (text : String)
  /-- The handle is in no state for the request. -/
  | invalidState (text : String)
  /-- The database may only be read. -/
  | readOnly
  /-- The file may not grow any further. -/
  | full (text : String)
  /-- A hard limit of the format is exceeded. -/
  | limitReached (text : String)
  /-- The order of begin, commit and rollback is broken. -/
  | lockError (text : String)
  /-- Another handle holds the file. -/
  | busy (text : String)
  /-- The library as a whole does not allow the request now. -/
  | locked (text : String)
  /-- The operation stopped half way. -/
  | aborted (text : String)
  /-- The engine offers no such operation. -/
  | notImplemented (text : String)
  /-- A script is not well formed. -/
  | compile (text : String) (line : Option Nat)
  /-- A script failed while it ran. -/
  | vm (text : String)
  /-- Stored bytes are no encoding of a value. -/
  | serialization (text : String)
  /-- The pages of a damaged file lead back to themselves, so that a walk over them would never
  come to an end: no answer exists. -/
  | endless
  /-- A check that the program makes on itself failed: it stopped there, and no answer exists. -/
  | panicked
  deriving DecidableEq, Repr

namespace Error

/-- The name of the kind of a failure. -/
def kindName : Error → String
  | io .. => "Io"
  | cannotOpen _ => "CannotOpen"
  | corrupt _ => "Corrupt"
  | checksumMismatch .. => "ChecksumMismatch"
  | notFound _ => "NotFound"
  | eof => "Eof"
  | alreadyExists _ => "Exists"
  | invalidParam _ => "InvalidParam"
  | invalidState _ => "InvalidState"
  | readOnly => "ReadOnly"
  | full _ => "Full"
  | limitReached _ => "LimitReached"
  | lockError _ => "LockError"
  | busy _ => "Busy"
  | locked _ => "Locked"
  | aborted _ => "Aborted"
  | notImplemented _ => "NotImplemented"
  | compile .. => "Compile"
  | vm _ => "Vm"
  | serialization _ => "Serialization"
  | endless => "Endless"
  | panicked => "Panic"

/-- The report of a failure. -/
def message : Error → String
  | io _ text => "IO error: " ++ text
  | cannotOpen text => "Unable to open the database file: " ++ text
  | corrupt text => "Data corruption: " ++ text
  | checksumMismatch expected actual =>
      "Checksum mismatch: expected " ++ hexNumeral expected.toNat ++ ", got " ++
        hexNumeral actual.toNat
  | notFound text => "Not found: " ++ text
  | eof => "End of input"
  | alreadyExists text => "Already exists: " ++ text
  | invalidParam text => "Invalid parameter: " ++ text
  | invalidState text => "Invalid state: " ++ text
  | readOnly => "Read only key/value storage engine"
  | full text => "Full database: " ++ text
  | limitReached text => "Database limit reached: " ++ text
  | lockError text => "Locking protocol error: " ++ text
  | busy text => "The database file is locked: " ++ text
  | locked text => "Forbidden operation: " ++ text
  | aborted text => "Operation aborted: " ++ text
  | notImplemented text => "Not implemented: " ++ text
  | compile text none => "Compilation error: " ++ text
  | compile text (some line) => "Compilation error at line " ++ toString line ++ ": " ++ text
  | vm text => "Virtual machine error: " ++ text
  | serialization text => "Serialization error: " ++ text
  | endless => "The pages of the file lead back to themselves"
  | panicked => "The program stopped at a check of its own"

/-- The status of a failure. -/
def status : Error → Status
  | io .permissionDenied _ => .permission
  | io .outOfMemory _ => .outOfMemory
  | io .unexpectedEof _ => .endOfInput
  | io _ _ => .ioError
  | cannotOpen _ => .cannotOpen
  | corrupt _ => .corrupt
  | checksumMismatch .. => .corrupt
  | notFound _ => .notFound
  | eof => .endOfInput
  | alreadyExists _ => .alreadyExists
  | invalidParam _ => .invalidParam
  | invalidState _ => .invalidParam
  | readOnly => .readOnly
  | full _ => .full
  | limitReached _ => .limitReached
  | lockError _ => .lockError
  | busy _ => .busy
  | locked _ => .locked
  | aborted _ => .aborted
  | notImplemented _ => .notImplemented
  | compile .. => .compileError
  | vm _ => .vmError
  | serialization _ => .corrupt
  | endless => .corrupt
  | panicked => .corrupt

/-- Whether the failure is that a record is missing. -/
def isNotFound : Error → Bool
  | notFound _ => true
  | _ => false

/-- Whether the failure is that a cursor ran off the records. -/
def isEof : Error → Bool
  | eof => true
  | _ => false

end Error

end PagedStore
