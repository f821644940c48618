import PagedStore.Compression
import PagedStore.Error

/-!
# Options

How a database is opened. Every option has a default, and `validate` says which combinations are
refused and, where several are, which complaint comes first.
-/

set_option autoImplicit false

namespace PagedStore

/-- A span of time: whole seconds and nanoseconds below one second. -/
structure Duration where
  seconds : UInt64
  nanos : UInt32
  deriving DecidableEq, Repr

namespace Duration

/-- The span of a number of milliseconds. -/
def ofMillis (n : Nat) : Duration :=
  ⟨UInt64.ofNat (n / 1000), UInt32.ofNat (n % 1000 * 1000000)⟩

/-- The span as whole milliseconds. -/
def toMillis (d : Duration) : Nat := d.seconds.toNat * 1000 + d.nanos.toNat / 1000000

/-- The span of so many seconds and nanoseconds, a thousand million or more nanoseconds carried
over; nothing if the seconds do not fit. -/
def ofParts? (seconds nanos : Nat) : Option Duration :=
  let carried := seconds + nanos / 1000000000
  if carried < UInt64.size then
    some ⟨UInt64.ofNat carried, UInt32.ofNat (nanos % 1000000000)⟩
  else none

end Duration

/-- A place in a commit at which it can be made to stop, leaving the files as a crash would. -/
inductive CrashPoint where
  /-- The log holds everything but the commit mark. -/
  | beforeLogCommit
  /-- The log is complete and the main file untouched. -/
  | afterLogSync
  /-- The main file holds half of the changed pages. -/
  | duringPageApply
  deriving DecidableEq, Repr

namespace CrashPoint

/-- The name of a place, as reports give it. -/
def name : CrashPoint → String
  | beforeLogCommit => "BeforeLogCommit"
  | afterLogSync => "AfterLogSync"
  | duringPageApply => "DuringPageApply"

end CrashPoint

/-- The page sizes of the format: the powers of two from 512 to 65536. -/
def pageSizes : List Nat := [512, 1024, 2048, 4096, 8192, 16384, 32768, 65536]

/-- How a database is opened. -/
structure Options where
  /-- Make the file if there is none. -/
  createIfMissing : Bool := true
  /-- Refuse a file that is there already. -/
  errorIfExists : Bool := false
  /-- Refuse all changes. -/
  readOnly : Bool := false
  /-- The page size of a new file; an old one keeps its own. -/
  pageSize : Nat := 4096
  /-- How many clean pages are kept in memory. -/
  pageCacheSize : Nat := 256
  /-- How many pages the file may have. -/
  maxPages : UInt32 := 0xFFFFFFFF
  /-- Force commits to the disk. -/
  sync : Bool := true
  /-- Commit every change that is made outside a transaction. -/
  autoCommit : Bool := true
  /-- How large values are stored. -/
  compression : Compression := .snappy
  /-- How long a script may run. -/
  scriptTimeout : Option Duration := none
  /-- Stop commits half way. -/
  crashPoint : Option CrashPoint := none
  deriving DecidableEq, Repr

namespace Options

/-- The first complaint about a combination of options, if there is any. -/
def validate (o : Options) : Except Error Unit :=
  if o.pageSize ∉ pageSizes then
    .error (.invalidParam "page_size must be a power of two between 512 and 65536")
  else if o.pageCacheSize = 0 then .error (.invalidParam "page_cache_size must be > 0")
  else if o.maxPages < 2 then .error (.invalidParam "max_pages must be >= 2")
  else if o.readOnly && o.errorIfExists then
    .error (.invalidParam "error_if_exists cannot be combined with read_only")
  else .ok ()

end Options

end PagedStore
