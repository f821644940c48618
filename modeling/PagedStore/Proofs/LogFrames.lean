import Mathlib.Data.List.TakeWhile
import PagedStore.Log.Recovery
import PagedStore.Proofs.Encoding

/-!
# What is read back from a log

A log that was written record by record and cut off anywhere reads as the records that are in it
as a whole. The cut falls into some fragment; that fragment is too short for the length which its
frame announces, or for the frame, so the reader fails there and has given every record before.
No checksum is needed for this: a front of the log differs from the log in nothing but its length.
-/

set_option autoImplicit false

namespace PagedStore.Log

open Bytes

/-! ## Fragments -/

theorem FragmentKind.tag_of_ofTag {n : UInt8} {k : FragmentKind} (h : ofTag n = .ok k) :
    k.tag = n := by
  unfold ofTag at h
  split_ifs at h with h1 h2 h3 h4 <;> cases h
  exacts [h1.symm, h2.symm, h3.symm, h4.symm]

namespace Fragment

variable {f : Fragment}

theorem length_encode (f : Fragment) : f.encode.length = frameLength + f.data.length := by
  simp [encode, frameLength]
  omega

theorem announced_encode (h : f.data.length < 65536) (rest : Bytes) :
    announced (f.encode ++ rest) = f.data.length := by
  show toNatLE (ofU16 f.data.length) = _
  exact toNatLE_ofU16 h

theorem drop_frame_encode (f : Fragment) (rest : Bytes) :
    (f.encode ++ rest).drop frameLength = f.data ++ rest := rfl

theorem decode_encode (h : f.data.length < 65536) (rest : Bytes) :
    decode (f.encode ++ rest) = .ok f := by
  have hlen : ¬ (f.encode ++ rest).length < frameLength := by
    rw [List.length_append, length_encode]
    omega
  have hkind : FragmentKind.ofTag (((f.encode ++ rest).drop 6).headD 0) = .ok f.kind :=
    FragmentKind.ofTag_tag f.kind
  have hsum : UInt32.ofNat (toNatLE ((f.encode ++ rest).take 4)) = f.checksum := by
    rw [encode, List.append_assoc, List.append_assoc]
    exact take_four_ofU32 _ _
  have hdata : ((f.data ++ rest).take f.data.length) = f.data := List.take_left' rfl
  rw [decode, if_neg hlen, hkind, announced_encode h, drop_frame_encode, hsum]
  simp only [bind, Except.bind, hdata]
  rw [if_neg (by rw [List.length_append]; omega)]
  exact if_neg fun hne => hne rfl

end Fragment

namespace Reader

variable {f : Fragment} {rest : Bytes} {pos : Nat}

/-- A whole fragment is taken off the front. -/
theorem fragment_encode (h : f.data.length < 65536) :
    fragment ⟨f.encode ++ rest, pos⟩ =
      (.ok (some f), ⟨rest, pos + (frameLength + f.data.length)⟩) := by
  have hframe : (f.encode ++ rest).take frameLength = f.encode.take frameLength :=
    List.take_append_of_le_length (by rw [Fragment.length_encode]; omega)
  have hlen : (f.encode.take frameLength).length = frameLength := by
    rw [List.length_take, Fragment.length_encode]
    omega
  have hann : Fragment.announced (f.encode.take frameLength) = f.data.length :=
    toNatLE_ofU16 h
  have hwhole : (f.encode ++ rest).take (frameLength + f.data.length) = f.encode :=
    List.take_left' f.length_encode
  have hdecode := Fragment.decode_encode h ([] : Bytes)
  rw [List.append_nil] at hdecode
  rw [fragment]
  simp only [hframe]
  rw [if_neg (List.ne_nil_of_length_pos (by rw [hlen]; decide)), if_neg (by omega)]
  simp only [hann, hwhole, f.length_encode, lt_irrefl, if_false, hdecode,
    List.drop_left' f.length_encode]
  rfl

/-- A fragment that was cut off is no fragment. -/
theorem fragment_torn (h : f.data.length < 65536) {k : Nat} (hk : k < f.encode.length) :
    (fragment ⟨f.encode.take k, pos⟩).1 = .ok none ∨
      ∃ e, (fragment ⟨f.encode.take k, pos⟩).1 = .error e := by
  rw [Fragment.length_encode] at hk
  have hlen : (f.encode.take k).length = k := by
    rw [List.length_take, Fragment.length_encode]
    omega
  rw [fragment]
  dsimp only
  split
  · exact .inl rfl
  · rename_i hne
    split
    · exact .inr ⟨_, rfl⟩
    · rename_i hfull
      -- The frame is there, so the length that it announces is the true one.
      have hle : frameLength ≤ k := by
        rw [List.length_take, hlen] at hfull
        omega
      have hann : Fragment.announced ((f.encode.take k).take frameLength) = f.data.length := by
        rw [List.take_take, Nat.min_eq_left hle]
        exact toNatLE_ofU16 h
      rw [if_pos]
      · exact .inr ⟨_, rfl⟩
      · rw [List.length_take, hlen, hann]
        omega

/-! ## Records -/

/-- A pass of the reader that gives no record. -/
def Ends (r : Except Error (Option Bytes) × Reader) : Prop := ∀ bs, r.1 ≠ .ok (some bs)

theorem assemble_of_fragment {sofar : Option Bytes} {r s : Reader}
    (h : r.fragment = (.ok (some f), s)) :
    r.assemble sofar =
      match f.kind, sofar with
      | .full, none => (.ok (some f.data), s)
      | .first, none => assemble (some f.data) s
      | .middle, some bs => assemble (some (bs ++ f.data)) s
      | .last, some bs => (.ok (some (bs ++ f.data)), s)
      | kind, _ =>
          (.error (.corrupt
            ("unexpected " ++ kind.name ++ " fragment at offset " ++ toString s.position)), s) := by
  rw [assemble]
  split
  · rename_i he
    rw [h] at he
    cases he
  · rename_i he
    rw [h] at he
    cases he
  · rename_i he
    rw [h] at he
    cases he
    rfl

theorem ends_of_torn (h : f.data.length < 65536) {k : Nat} (hk : k < f.encode.length)
    (sofar : Option Bytes) : Ends (assemble sofar ⟨f.encode.take k, pos⟩) := by
  intro bs hbs
  rw [assemble] at hbs
  split at hbs
  · cases hbs
  · split at hbs <;> cases hbs
  · rename_i g s hs
    rcases @fragment_torn f pos h k hk with ht | ⟨e, ht⟩ <;>
    · rw [hs] at ht
      cases ht

end Reader

theorem FragmentKind.ofPlace_of_le {offset length total : Nat} (h : total ≤ maxFragment) :
    ofPlace offset length total = .full := if_pos h

/-- The pieces of a long record behind the first one. -/
theorem fragmentsFrom_cons {total offset : Nat} {bs : Bytes} (hne : bs ≠ []) :
    fragmentsFrom total offset bs =
      ⟨.ofPlace offset (bs.take maxFragment).length total, bs.take maxFragment⟩ ::
        fragmentsFrom total (offset + (bs.take maxFragment).length) (bs.drop maxFragment) := by
  rw [fragmentsFrom, dif_neg hne]

namespace Reader

theorem length_piece (bs : Bytes) : (bs.take maxFragment).length < 65536 := by
  rw [List.length_take, maxFragment]
  omega

/-- What is stored completes a record of which `sofar` has been read; cut off, it does not. -/
structure Brings (sofar : Option Bytes) (stored record : Bytes) : Prop where
  whole : ∀ rest pos, ∃ pos',
    assemble sofar ⟨stored ++ rest, pos⟩ = (.ok (some record), ⟨rest, pos'⟩)
  torn : ∀ k < stored.length, ∀ pos, Ends (assemble sofar ⟨stored.take k, pos⟩)

variable {f : Fragment} {sofar sofar' : Option Bytes} {more record : Bytes}

/-- The fragment with which a record is complete. -/
theorem Brings.of_end (hlen : f.data.length < 65536)
    (hf : ∀ {r s : Reader}, r.fragment = (.ok (some f), s) →
      r.assemble sofar = (.ok (some record), s)) : Brings sofar f.encode record where
  whole _ _ := ⟨_, hf (fragment_encode hlen)⟩
  torn _ hk _ := ends_of_torn hlen hk sofar

/-- A fragment that others follow. -/
theorem Brings.of_more (hlen : f.data.length < 65536)
    (hf : ∀ {r s : Reader}, r.fragment = (.ok (some f), s) →
      r.assemble sofar = s.assemble sofar') (h : Brings sofar' more record) :
    Brings sofar (f.encode ++ more) record := by
  constructor
  · intro rest pos
    obtain ⟨pos', hmore⟩ := h.whole rest (pos + (frameLength + f.data.length))
    refine ⟨pos', ?_⟩
    rw [List.append_assoc, hf (fragment_encode hlen), hmore]
  · intro k hk pos
    rcases Nat.lt_or_ge k f.encode.length with hcut | hcut
    · rw [List.take_append_of_le_length hcut.le]
      exact ends_of_torn hlen hcut sofar
    · rw [List.length_append] at hk
      rw [List.take_append, List.take_of_length_le hcut, Ends, hf (fragment_encode hlen)]
      exact h.torn _ (by omega) _

/-- The frames of what is left of a long record complete it. -/
theorem brings_rest {total : Nat} (hlong : maxFragment < total) (bs : Bytes) :
    ∀ (offset : Nat) (sofar : Bytes), bs ≠ [] → 0 < offset → offset + bs.length = total →
      Brings (some sofar) ((fragmentsFrom total offset bs).flatMap Fragment.encode)
        (sofar ++ bs) := by
  -- The induction follows the pieces: each one but the last leaves fewer bytes.
  induction h : bs.length using Nat.strong_induction_on generalizing bs with
  | _ n ih =>
  intro offset sofar hne hpos htotal
  rw [fragmentsFrom_cons hne, List.flatMap_cons]
  have hmf : 0 < maxFragment := by decide
  have hsplit : bs.take maxFragment ++ bs.drop maxFragment = bs := List.take_append_drop _ _
  have hlen : (bs.take maxFragment).length = min maxFragment bs.length := List.length_take
  have hpiece := length_piece bs
  generalize hpc : bs.take maxFragment = piece at *
  by_cases hlast : bs.length ≤ maxFragment
  · -- The piece is the last one.
    have hdrop : bs.drop maxFragment = [] := List.drop_eq_nil_of_le hlast
    have hbs : piece = bs := by rw [← hsplit, hdrop, List.append_nil]
    have hkind : FragmentKind.ofPlace offset piece.length total = .last := by
      rw [FragmentKind.ofPlace, if_neg (by omega), if_neg (by omega), if_pos (by omega)]
    have hnil : fragmentsFrom total (offset + piece.length) [] = [] := by
      rw [fragmentsFrom, dif_pos rfl]
    rw [hdrop, hnil, List.flatMap_nil, List.append_nil, hkind, ← hbs]
    exact .of_end hpiece fun hr => assemble_of_fragment hr
  · have hkind : FragmentKind.ofPlace offset piece.length total = .middle := by
      rw [FragmentKind.ofPlace, if_neg (by omega), if_neg (by omega), if_neg (by omega)]
    have hdl : (bs.drop maxFragment).length = bs.length - maxFragment := List.length_drop
    have hdne : bs.drop maxFragment ≠ [] := List.ne_nil_of_length_pos (by omega)
    have hmore := ih _ (by omega) (bs.drop maxFragment) rfl (offset + piece.length)
      (sofar ++ piece) hdne (by omega) (by omega)
    rw [List.append_assoc, hsplit] at hmore
    rw [hkind]
    exact .of_more hpiece (fun hr => assemble_of_fragment hr) hmore

theorem length_fragments_le {bs : Bytes} (h : bs.length ≤ maxFragment) (hne : bs ≠ []) :
    fragments bs = [⟨.full, bs⟩] := by
  rw [fragments, fragmentsFrom_cons hne, FragmentKind.ofPlace_of_le h,
    List.take_of_length_le h, List.drop_eq_nil_of_le h, fragmentsFrom, dif_pos rfl]

theorem frame_ne_nil {bs : Bytes} (hne : bs ≠ []) : frame bs ≠ [] := by
  rw [frame, fragments, fragmentsFrom_cons hne, List.flatMap_cons]
  simp [Fragment.encode]

/-- **A framed record is read back**, what follows it is left, and cut off it is not read. -/
theorem brings_frame {bs : Bytes} (hne : bs ≠ []) : Brings none (frame bs) bs := by
  rcases Nat.lt_or_ge maxFragment bs.length with hlong | hshort
  · have hdl : (bs.drop maxFragment).length = bs.length - maxFragment := List.length_drop
    have hdne : bs.drop maxFragment ≠ [] := List.ne_nil_of_length_pos (by omega)
    have hlen : (bs.take maxFragment).length = maxFragment := by rw [List.length_take]; omega
    have hkind : FragmentKind.ofPlace 0 (bs.take maxFragment).length bs.length = .first := by
      rw [FragmentKind.ofPlace, if_neg (by omega), if_pos rfl]
    have hrest := brings_rest hlong (bs.drop maxFragment) (0 + (bs.take maxFragment).length)
      (bs.take maxFragment) hdne (by rw [hlen]; decide) (by omega)
    rw [List.take_append_drop] at hrest
    rw [frame, fragments, fragmentsFrom_cons hne, List.flatMap_cons, hkind]
    exact .of_more (length_piece bs) (fun hr => assemble_of_fragment hr) hrest
  · have hlt : bs.length < 65536 := by
      rw [maxFragment] at hshort
      omega
    rw [frame, length_fragments_le hshort hne, List.flatMap_singleton]
    exact .of_end hlt fun hr => assemble_of_fragment hr

theorem readAll_of_ends {r : Reader} (h : Ends r.next) : r.readAll = ([], r.next.2) := by
  rw [readAll]
  split
  · rename_i bs s hs
    exact absurd (congrArg Prod.fst hs) (h bs)
  · rename_i hs
    rw [hs]

theorem readAll_of_next {r s : Reader} {bs : Bytes} (h : r.next = (.ok (some bs), s)) :
    r.readAll = (bs :: s.readAll.1, s.readAll.2) := by
  rw [readAll]
  split
  · rename_i bs' s' hs
    rw [h] at hs
    cases hs
    rfl
  · rename_i hno hs
    rw [h] at hs
    cases hs
    exact absurd rfl (hno bs)

theorem next_nil (pos : Nat) : next ⟨[], pos⟩ = (.ok none, ⟨[], pos⟩) := by
  have hf : fragment ⟨[], pos⟩ = (.ok none, ⟨[], pos⟩) := rfl
  rw [next, assemble]
  split <;>
  · rename_i hs
    rw [hf] at hs
    cases hs
    try rfl

theorem ends_next_nil (pos : Nat) : Ends (next ⟨[], pos⟩) := by
  intro bs hbs
  rw [next_nil] at hbs
  cases hbs

end Reader

/-- **A log that was cut off reads as the records that are whole in it**: as the first `j`, where
so many records fit into what is left and no more do. -/
theorem readAll_take (rs : List Bytes) (hne : ∀ bs ∈ rs, bs ≠ []) (k pos : Nat) :
    ∃ j ≤ rs.length, (Reader.readAll ⟨(rs.flatMap frame).take k, pos⟩).1 = rs.take j ∧
      ∀ i ≤ rs.length, i ≤ j ↔ ((rs.take i).flatMap frame).length ≤ k := by
  induction rs generalizing k pos with
  | nil =>
      refine ⟨0, Nat.le_refl _, ?_, by simp⟩
      rw [List.flatMap_nil, List.take_nil, Reader.readAll_of_ends (Reader.ends_next_nil pos),
        List.take_nil]
  | cons bs rs ih =>
      have hbs := Reader.brings_frame (hne bs List.mem_cons_self)
      have hlength : ∀ i, (((bs :: rs).take (i + 1)).flatMap frame).length =
          (frame bs).length + ((rs.take i).flatMap frame).length := fun i => by
        rw [List.take_succ_cons, List.flatMap_cons, List.length_append]
      rw [List.flatMap_cons, List.length_cons]
      rcases Nat.lt_or_ge k (frame bs).length with hcut | hcut
      · refine ⟨0, Nat.zero_le _, ?_, fun i _ => ?_⟩
        · rw [List.take_append_of_le_length (by omega),
            Reader.readAll_of_ends (hbs.torn k hcut pos), List.take_zero]
        · cases i with
          | zero => simp
          | succ i =>
              rw [hlength]
              omega
      · rw [List.take_append, List.take_of_length_le hcut]
        obtain ⟨pos', hnext⟩ := hbs.whole
          ((rs.flatMap frame).take (k - (frame bs).length)) pos
        obtain ⟨j, hj, hread, hfit⟩ := ih (fun r hr => hne r (List.mem_cons_of_mem _ hr))
          (k - (frame bs).length) pos'
        refine ⟨j + 1, by omega, ?_, fun i hi => ?_⟩
        · rw [Reader.readAll_of_next hnext, hread, List.take_succ_cons]
        · cases i with
          | zero => simp
          | succ i =>
              have := hfit i (by omega)
              rw [hlength]
              omega

/-- A whole log reads as its records. -/
theorem records_frames {rs : List Bytes} (hne : ∀ bs ∈ rs, bs ≠ []) :
    records (rs.flatMap frame) = rs := by
  obtain ⟨j, hj, hread, hfit⟩ := readAll_take rs hne (rs.flatMap frame).length 0
  have hall := (hfit rs.length (Nat.le_refl _)).2 (by rw [List.take_length])
  rw [List.take_length] at hread
  rw [records, hread, List.take_of_length_le hall]

end PagedStore.Log
