import PagedStore.Checksum
import PagedStore.Error

/-!
# Fragments of log records

A record of the log is stored in one piece if it is short and otherwise in pieces of 32 KiB and a
rest. Each piece is framed as a fragment: the checksum of its kind and its data, the length of the
data in two bytes, the kind in one, and the data. The kind says where in its record a fragment
stands, so that a reader can tell whether it holds the whole of a record.
-/

set_option autoImplicit false

namespace PagedStore.Log

/-- The longest piece into which a record is divided. -/
def maxFragment : Nat := 32768

/-- The length of what stands before the data of a fragment. -/
def frameLength : Nat := 7

/-- The place of a fragment in its record. -/
inductive FragmentKind where
  | full | first | middle | last
  deriving DecidableEq, Repr

namespace FragmentKind

/-- The number of a kind. -/
def tag : FragmentKind → UInt8
  | full => 1
  | first => 2
  | middle => 3
  | last => 4

/-- The name of a kind. -/
def name : FragmentKind → String
  | full => "Full"
  | first => "First"
  | middle => "Middle"
  | last => "Last"

/-- The kind with a given number. -/
def ofTag (n : UInt8) : Except Error FragmentKind :=
  if n = 1 then .ok full
  else if n = 2 then .ok first
  else if n = 3 then .ok middle
  else if n = 4 then .ok last
  else .error (.corrupt s!"invalid fragment kind: {n}")

/-- The kind of the piece of `length` bytes that begins `offset` bytes into a record of `total`
bytes. -/
def ofPlace (offset length total : Nat) : FragmentKind :=
  if total ≤ maxFragment then full
  else if offset = 0 then first
  else if total ≤ offset + length then last
  else middle

theorem ofTag_tag (k : FragmentKind) : ofTag k.tag = .ok k := by cases k <;> rfl

end FragmentKind

/-- How the program was built: with the assertions that its tests run with, or for release. -/
inductive Build where
  | checked | release
  deriving DecidableEq, Repr

/-- One piece of a record. -/
structure Fragment where
  kind : FragmentKind
  data : Bytes
  deriving DecidableEq, Repr

namespace Fragment

/-- The checksum of a fragment. -/
def checksum (f : Fragment) : UInt32 := Checksum.crc32 (f.kind.tag :: f.data)

/-- The framed form. -/
def encode (f : Fragment) : Bytes :=
  Bytes.ofU32 f.checksum ++ Bytes.ofU16 f.data.length ++ f.kind.tag :: f.data

/-- The framed form as a build of the program gives it. A build that keeps the assertions stops
where the data is longer than a piece of a record can be; a release makes the frame all the same. -/
def encodeIn (build : Build) (f : Fragment) : Except Error Bytes :=
  if build = .checked ∧ maxFragment < f.data.length then .error .panicked else .ok f.encode

/-- The length of the data that a frame announces. -/
def announced (frame : Bytes) : Nat := Bytes.toNatLE ((frame.drop 4).take 2)

/-- The fragment at the front of a byte string. -/
def decode (bs : Bytes) : Except Error Fragment := do
  if bs.length < frameLength then .error (.corrupt s!"fragment too short: {bs.length} bytes")
  else
    let stored := UInt32.ofNat (Bytes.toNatLE (bs.take 4))
    let length := announced bs
    let kind ← FragmentKind.ofTag ((bs.drop 6).headD 0)
    let rest := bs.drop frameLength
    let f : Fragment := ⟨kind, rest.take length⟩
    if rest.length < length then
      .error (.corrupt s!"incomplete fragment: expected {length} bytes, got {rest.length}")
    else if stored ≠ f.checksum then
      .error (.corrupt ("fragment checksum mismatch: expected " ++ hexNumeral f.checksum.toNat ++
        ", got " ++ hexNumeral stored.toNat))
    else .ok f

end Fragment

/-- The pieces of what is left of a record of `total` bytes from `offset` on. -/
def fragmentsFrom (total offset : Nat) (bs : Bytes) : List Fragment :=
  if _ : bs = [] then []
  else
    let piece := bs.take maxFragment
    ⟨.ofPlace offset piece.length total, piece⟩ ::
      fragmentsFrom total (offset + piece.length) (bs.drop maxFragment)
termination_by bs.length
decreasing_by
  have : 0 < bs.length := List.length_pos_iff.2 ‹_›
  simp [maxFragment]; omega

/-- The fragments of a record; an empty record has none. -/
def fragments (record : Bytes) : List Fragment := fragmentsFrom record.length 0 record

/-- What the log stores for a record. Its fragments are short enough for every build to encode
them (`encodeIn_of_mem_fragments`). -/
def frame (record : Bytes) : Bytes := (fragments record).flatMap Fragment.encode

end PagedStore.Log
