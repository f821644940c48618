import PagedStore.Bytes

/-!
# CRC-32

The checksum of every page, file header and log fragment: the cyclic redundancy check of IEEE
802.3 with reflected bits, register and result inverted. One byte is `xor`ed into the low end of
the register, which is then shifted out eight times; each shift that drops a one adds the
polynomial. Every such step can be undone when the byte is known, so two inputs that differ in
one byte never meet again in the same register.
-/

set_option autoImplicit false

namespace PagedStore.Checksum

/-- The generator polynomial, lowest power in the highest bit. -/
def polynomial : UInt32 := 0xEDB88320

/-- Shifts one bit out of the register. -/
@[inline] def shiftOut (r : UInt32) : UInt32 :=
  if r &&& 1 = 1 then (r >>> 1) ^^^ polynomial else r >>> 1

/-- Takes one byte into the register. -/
def feed (r : UInt32) (b : UInt8) : UInt32 :=
  let r := r ^^^ b.toUInt32
  let r := shiftOut (shiftOut (shiftOut (shiftOut r)))
  shiftOut (shiftOut (shiftOut (shiftOut r)))

/-- The checksum of a byte string. -/
def crc32 (bs : Bytes) : UInt32 := bs.foldl feed 0xFFFFFFFF ^^^ 0xFFFFFFFF

end PagedStore.Checksum
