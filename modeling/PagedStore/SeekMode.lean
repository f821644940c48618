/-!
# Seeking

A record can be looked for by its key or, where records are in the order of their keys, as the
nearest one on a side of a key.
-/

set_option autoImplicit false

namespace PagedStore

/-- Which record is meant by a key. -/
inductive SeekMode where
  /-- The one with this key. -/
  | exact
  /-- The one with the greatest key that is not greater. -/
  | atMost
  /-- The one with the least key that is not less. -/
  | atLeast
  deriving DecidableEq, Repr

/-- The name of a mode. -/
def SeekMode.name : SeekMode → String
  | exact => "Exact"
  | atMost => "Le"
  | atLeast => "Ge"

end PagedStore
