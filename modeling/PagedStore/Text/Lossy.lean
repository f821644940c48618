import PagedStore.Bytes

/-!
# Reading bytes as text

Byte strings are shown as text by reading them as UTF-8. Where they are not UTF-8, the longest
run of bytes that begins some character but does not finish it is shown as one replacement
character, and a byte that begins no character as one by itself; so the reading loses its place
by at most one character and goes on.

`step` reads one character off the front, good or not. `decode` repeats it, and `decodeStrict?`
repeats it as long as every character is good.
-/

set_option autoImplicit false

namespace PagedStore.Text

/-- The mark for bytes that are no character. -/
def replacement : Char := Char.ofNat 0xFFFD

/-- Whether a byte continues a character, in the range that its place in it allows. -/
def continues (low high b : UInt8) : Bool := low ≤ b && b ≤ high

/-- The range of the second byte of a character, by its first byte. -/
def secondRange (first : UInt8) : UInt8 × UInt8 :=
  if first = 0xE0 then (0xA0, 0xBF)
  else if first = 0xED then (0x80, 0x9F)
  else if first = 0xF0 then (0x90, 0xBF)
  else if first = 0xF4 then (0x80, 0x8F)
  else (0x80, 0xBF)

/-- How many bytes a character takes that begins with this byte; zero when none does. -/
def lengthByFirst (first : UInt8) : Nat :=
  if first < 0x80 then 1
  else if 0xC2 ≤ first && first ≤ 0xDF then 2
  else if 0xE0 ≤ first && first ≤ 0xEF then 3
  else if 0xF0 ≤ first && first ≤ 0xF4 then 4
  else 0

/-- The six low bits of a byte that continues a character. -/
def low6 (b : UInt8) : Nat := b.toNat % 64

/-- What the front of a byte string holds: a character or nothing of the kind, and the number of
bytes beyond the first that belong to it. -/
def step (first : UInt8) (rest : Bytes) : Option Char × Nat :=
  let (low, high) := secondRange first
  match lengthByFirst first, rest with
  | 1, _ => (some (Char.ofNat first.toNat), 0)
  | 2, b :: _ =>
      if continues low high b then
        (some (Char.ofNat (first.toNat % 32 * 64 + low6 b)), 1)
      else (none, 0)
  | 3, b :: more =>
      if continues low high b then
        match more with
        | c :: _ =>
            if continues 0x80 0xBF c then
              (some (Char.ofNat (first.toNat % 16 * 4096 + low6 b * 64 + low6 c)), 2)
            else (none, 1)
        | [] => (none, 1)
      else (none, 0)
  | 4, b :: more =>
      if continues low high b then
        match more with
        | c :: more =>
            if continues 0x80 0xBF c then
              match more with
              | d :: _ =>
                  if continues 0x80 0xBF d then
                    (some (Char.ofNat
                      (first.toNat % 8 * 262144 + low6 b * 4096 + low6 c * 64 + low6 d)), 3)
                  else (none, 2)
              | [] => (none, 2)
            else (none, 1)
        | [] => (none, 1)
      else (none, 0)
  | _, _ => (none, 0)

/-- The characters of a byte string; what is no character becomes `replacement`. -/
def decodeChars : Bytes → List Char
  | [] => []
  | first :: rest =>
      match step first rest with
      | (c, extra) => c.getD replacement :: decodeChars (rest.drop extra)
termination_by bs => bs.length
decreasing_by simp only [List.length_drop, List.length_cons]; omega

/-- The text of a byte string. -/
def decode (bs : Bytes) : String := String.ofList (decodeChars bs)

/-- The characters of a byte string that is UTF-8 throughout. -/
def decodeStrictChars? : Bytes → Option (List Char)
  | [] => some []
  | first :: rest =>
      match step first rest with
      | (some c, extra) => (decodeStrictChars? (rest.drop extra)).map (c :: ·)
      | (none, _) => none
termination_by bs => bs.length
decreasing_by simp only [List.length_drop, List.length_cons]; omega

/-- The text of a byte string that is UTF-8 throughout. -/
def decodeStrict? (bs : Bytes) : Option String := (decodeStrictChars? bs).map String.ofList

end PagedStore.Text
