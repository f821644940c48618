import PagedStore.Bytes

/-!
# Choice of compression

Values that do not fit a leaf may be compressed before they are spread over pages. The tree works
with any compressor and what undoes it (`Codec`).
-/

set_option autoImplicit false

namespace PagedStore

/-- How large values are stored. -/
inductive Compression where
  | off
  | snappy
  deriving DecidableEq, Repr

namespace Compression

/-- The number of a choice. -/
def tag : Compression → UInt8
  | off => 0
  | snappy => 1

/-- The choice with a given number. -/
def ofTag? (n : UInt8) : Option Compression :=
  if n = 0 then some off else if n = 1 then some snappy else none

/-- The name of a choice. -/
def name : Compression → String
  | off => "None"
  | snappy => "Snappy"

end Compression

/-- A compressor and what undoes it. Either may refuse its input, and says why. -/
class Codec where
  /-- The compressed form of an input. -/
  compress : Bytes → Except String Bytes
  /-- The input with a compressed form. -/
  decompress : Bytes → Except String Bytes

/-- What was compressed is decompressed to what it was. -/
class Codec.Lawful [Codec] : Prop where
  decompress_compress {value packed : Bytes} :
    compress value = .ok packed → decompress packed = .ok value

end PagedStore
