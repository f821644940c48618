import PagedStore.Json
import PagedStore.Options
import PagedStore.Text.Lossy

/-!
# Options written down

Options may be given as a JSON document: an object with a member for each option that differs
from its default, or an array with the values of the first so many options in the order of their
declaration. An unknown member of the object is passed over whatever it holds; a known one may
not be repeated.
-/

set_option autoImplicit false

namespace PagedStore.Options

/-- A truth value. -/
def boolOf? : Json → Option Bool
  | .bool b => some b
  | _ => none

/-- A natural number below a bound. -/
def natOf? (bound : Nat) : Json → Option Nat
  | .number (some n) => if n < bound then some n else none
  | _ => none

/-- The compression with a given name. -/
def compressionNamed? (name : String) : Option Compression :=
  if name = "None" then some .off else if name = "Snappy" then some .snappy else none

/-- A compression: its name, alone or as the one member, null, of an object. -/
def compressionOf? : Json → Option Compression
  | .string (some name) => compressionNamed? name
  | .object [(some name, .null)] => compressionNamed? name
  | _ => none

/-- A span of time: seconds and nanoseconds, as the two members of an object or the two items of
an array. -/
def durationOf? (x : Json) : Option Duration := do
  let (seconds, nanos) ← match x with
    | .array [s, n] => some (s, n)
    | .object [(some a, x), (some b, y)] =>
        if a = "secs" ∧ b = "nanos" then some (x, y)
        else if a = "nanos" ∧ b = "secs" then some (y, x)
        else none
    | _ => none
  Duration.ofParts? (← natOf? UInt64.size seconds) (← natOf? UInt32.size nanos)

/-- A span of time or null. -/
def timeoutOf? : Json → Option (Option Duration)
  | .null => some none
  | x => (durationOf? x).map some

/-- The options that a document may give, in their order, each with its effect. -/
def fields : List (String × (Json → Options → Option Options)) :=
  [("create_if_missing", fun x o => do return { o with createIfMissing := ← boolOf? x }),
    ("error_if_exists", fun x o => do return { o with errorIfExists := ← boolOf? x }),
    ("read_only", fun x o => do return { o with readOnly := ← boolOf? x }),
    ("page_size", fun x o => do return { o with pageSize := ← natOf? UInt64.size x }),
    ("page_cache_size", fun x o => do return { o with pageCacheSize := ← natOf? UInt64.size x }),
    ("max_pages", fun x o => do
      return { o with maxPages := UInt32.ofNat (← natOf? UInt32.size x) }),
    ("sync", fun x o => do return { o with sync := ← boolOf? x }),
    ("auto_commit", fun x o => do return { o with autoCommit := ← boolOf? x }),
    ("compression", fun x o => do return { o with compression := ← compressionOf? x }),
    ("script_timeout", fun x o => do return { o with scriptTimeout := ← timeoutOf? x })]

/-- Applies the members of an object one after the other; `seen` are the options given so far. -/
def ofMembers? : (seen : List String) → List (Option String × Json) → Options → Option Options
  | _, [], o => some o
  | _, (none, _) :: _, _ => none
  | seen, (some name, x) :: rest, o =>
      match fields.lookup name with
      | none => ofMembers? seen rest o
      | some apply =>
          if seen.contains name then none
          else (apply x o).bind (ofMembers? (name :: seen) rest)

/-- Applies the items of an array to the options in their order. -/
def ofItems? : List (String × (Json → Options → Option Options)) → List Json → Options →
    Option Options
  | _, [], o => some o
  | [], _ :: _, _ => none
  | (_, apply) :: fields, x :: rest, o => (apply x o).bind (ofItems? fields rest)

/-- The options that a document gives. -/
def ofJson? : Json → Option Options
  | .object members => ofMembers? [] members {}
  | .array items => ofItems? fields items {}
  | _ => none

/-- The options that a text gives, if they are in order. -/
def ofText (text : String) : Except Error Options :=
  match (Json.parse? text).bind ofJson? with
  | none => .error (.invalidParam "malformed configuration")
  | some o => o.validate.map fun _ => o

/-- The options that the contents of a file give. -/
def ofContents (contents : Bytes) : Except Error Options :=
  match Text.decodeStrict? contents with
  | none => .error (.io .other "stream did not contain valid UTF-8")
  | some text => ofText text

end PagedStore.Options
