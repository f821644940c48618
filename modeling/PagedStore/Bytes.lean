/-!
# Byte strings

Keys, values, page images and log records are all finite strings of bytes, and every layout on
disk is described by what its bytes are in order. So a byte string is a list: a layout is then an
`++` of its fields, and reading a layout is a function from a list to a field and the rest.

Numbers are stored little end first. `ofNatLE` writes the low `width` base-256 digits of a number
and `toNatLE` reads digits back; the fixed widths of the formats (`ofU16`, `ofU32`, `ofU64`) and
their readers (`u16?`, `u32?`, `u64?`) are instances of the two.
-/

set_option autoImplicit false

namespace PagedStore

/-- A finite string of bytes. -/
abbrev Bytes := List UInt8

namespace Bytes

/-! ## Little-endian numbers -/

/-- The low `width` base-256 digits of `n`, least significant first. -/
def ofNatLE : (width : Nat) → (n : Nat) → Bytes
  | 0, _ => []
  | width + 1, n => UInt8.ofNat n :: ofNatLE width (n / 256)

/-- The number whose base-256 digits are the given bytes, least significant first. -/
def toNatLE : Bytes → Nat
  | [] => 0
  | b :: bs => b.toNat + 256 * toNatLE bs

/-- Two bytes; a larger number loses its high digits. -/
def ofU16 (n : Nat) : Bytes := ofNatLE 2 n

/-- Four bytes. -/
def ofU32 (n : UInt32) : Bytes := ofNatLE 4 n.toNat

/-- Eight bytes. -/
def ofU64 (n : UInt64) : Bytes := ofNatLE 8 n.toNat

/-! ## Reading fields

A reader takes a field off the front and gives it with what follows, or nothing when the string
is too short. -/

/-- The first `n` bytes and the rest. -/
def take? (n : Nat) (bs : Bytes) : Option (Bytes × Bytes) :=
  let field := bs.take n
  if field.length = n then some (field, bs.drop n) else none

/-- One byte. -/
def u8? : Bytes → Option (UInt8 × Bytes)
  | [] => none
  | b :: bs => some (b, bs)

/-- A two-byte number. -/
def u16? : Bytes → Option (Nat × Bytes)
  | a :: b :: bs => some (toNatLE [a, b], bs)
  | _ => none

/-- A four-byte number. -/
def u32? : Bytes → Option (UInt32 × Bytes)
  | a :: b :: c :: d :: bs => some (UInt32.ofNat (toNatLE [a, b, c, d]), bs)
  | _ => none

/-- An eight-byte number. -/
def u64? : Bytes → Option (UInt64 × Bytes)
  | a :: b :: c :: d :: e :: f :: g :: h :: bs =>
      some (UInt64.ofNat (toNatLE [a, b, c, d, e, f, g, h]), bs)
  | _ => none

theorem take?_append (xs rest : Bytes) : take? xs.length (xs ++ rest) = some (xs, rest) := by
  simp [take?]

/-! ## Padding and text -/

/-- The string cut or filled up with zeros to exactly `n` bytes. -/
def resize (n : Nat) (bs : Bytes) : Bytes := bs.take n ++ List.replicate (n - bs.length) 0

theorem length_resize (n : Nat) (bs : Bytes) : (resize n bs).length = n := by
  simp [resize]; omega

/-- The bytes of a text in UTF-8. -/
def ofString (s : String) : Bytes := s.toUTF8.data.toList

/-- The hexadecimal digit of a number below 16. -/
def hexDigit (n : Nat) : Char :=
  if n < 10 then Char.ofNat (48 + n) else Char.ofNat (87 + n)

/-- Two lower-case hexadecimal digits a byte. -/
def toHex (bs : Bytes) : String :=
  String.ofList (bs.flatMap fun b => [hexDigit (b.toNat / 16), hexDigit (b.toNat % 16)])

end Bytes

/-- A number in hexadecimal with its `0x` mark and no leading zeros. -/
def hexNumeral (n : Nat) : String :=
  "0x" ++ String.ofList (Nat.toDigits 16 n)

end PagedStore
