import PagedStore.Proofs.CompressedPieces

/-!
# Compression loses nothing

The search of a block goes through places at which all bytes up to some point have gone out. What
it remembers of the places before is only a guess: a copy is made where the four bytes at hand
were compared and found equal, so it gives the bytes of the block whatever the table holds.
-/

set_option autoImplicit false

namespace PagedStore

namespace Compression

open Bytes Piece

/-! ## Four bytes as a number -/

/-- The byte at a place, zero behind the end. -/
def byteAt (b : ByteArray) (i : Nat) : UInt8 := if h : i < b.size then b[i] else 0

theorem wordAt_eq (b : ByteArray) (i : Nat) :
    wordAt b i = ((byteAt b i).toUInt32 ||| ((byteAt b (i + 1)).toUInt32 <<< 8) |||
      ((byteAt b (i + 2)).toUInt32 <<< 16) ||| ((byteAt b (i + 3)).toUInt32 <<< 24)) := by
  have hat : ∀ j, (if h : j < b.size then b[j].toUInt32 else 0) = (byteAt b j).toUInt32 := by
    intro j
    rw [byteAt]
    split <;> rfl
  simp only [wordAt, hat]

theorem toNat_wordAt (b : ByteArray) (i : Nat) :
    (wordAt b i).toNat = (byteAt b i).toNat + 256 * (byteAt b (i + 1)).toNat +
      65536 * (byteAt b (i + 2)).toNat + 16777216 * (byteAt b (i + 3)).toNat := by
  have h₀ := (byteAt b i).toNat_lt
  have h₁ := (byteAt b (i + 1)).toNat_lt
  have h₂ := (byteAt b (i + 2)).toNat_lt
  have h₃ := (byteAt b (i + 3)).toNat_lt
  rw [wordAt_eq]
  generalize (byteAt b i) = w at *
  generalize (byteAt b (i + 1)) = x at *
  generalize (byteAt b (i + 2)) = y at *
  generalize (byteAt b (i + 3)) = z at *
  -- Each byte lies above all bits of those before it, so that joining them is adding.
  have join : ∀ {k m n : Nat}, m < 2 ^ k → m ||| n * 2 ^ k = m + n * 2 ^ k := by
    intro k m n hm
    rw [Nat.or_comm, Nat.mul_comm, ← Nat.two_pow_add_eq_or_of_lt hm, Nat.add_comm]
  simp only [UInt32.toNat_or, UInt32.toNat_shiftLeft, UInt8.toNat_toUInt32, Nat.shiftLeft_eq]
  simp only [UInt32.reduceToNat, Nat.reduceMod]
  rw [Nat.mod_eq_of_lt (by omega), Nat.mod_eq_of_lt (by omega), Nat.mod_eq_of_lt (by omega),
    join (k := 8) h₀, join (k := 16) (by omega), join (k := 24) (by omega)]
  omega

/-- Equal numbers stand for equal bytes. -/
theorem byteAt_eq_of_wordAt_eq {b : ByteArray} {i j : Nat} (h : wordAt b i = wordAt b j) {k : Nat}
    (hk : k < 4) : byteAt b (i + k) = byteAt b (j + k) := by
  have hnat := congrArg UInt32.toNat h
  rw [toNat_wordAt, toNat_wordAt] at hnat
  have hlt : ∀ n, (byteAt b n).toNat < 256 := fun n => (byteAt b n).toNat_lt
  have := hlt i
  have := hlt (i + 1)
  have := hlt (i + 2)
  have := hlt j
  have := hlt (j + 1)
  have := hlt (j + 2)
  rw [← UInt8.toNat_inj]
  match k, hk with
  | 0, _ => rw [Nat.add_zero, Nat.add_zero]; omega
  | 1, _ => omega
  | 2, _ => omega
  | 3, _ => omega

namespace Search

/-! ## Matches -/

section

variable {b : ByteArray}

theorem agreeUntil_ge (i j : Nat) : j ≤ agreeUntil b i j := by
  fun_induction agreeUntil b i j with
  | case1 i j h heq ih => omega
  | case2 i j h hne => exact Nat.le_refl j
  | case3 i j h => exact Nat.le_refl j

theorem agreeUntil_le {i j : Nat} (hj : j ≤ b.size) : agreeUntil b i j ≤ b.size := by
  fun_induction agreeUntil b i j with
  | case1 i j h heq ih => exact ih (by omega)
  | case2 i j h hne => exact hj
  | case3 i j h => exact hj

theorem agreeUntil_agree {i j k : Nat} (hk : j + k < agreeUntil b i j) :
    byteAt b (i + k) = byteAt b (j + k) := by
  fun_induction agreeUntil b i j generalizing k with
  | case1 i j h heq ih =>
      cases k with
      | zero =>
          rw [Nat.add_zero, Nat.add_zero, byteAt, byteAt, dif_pos h.1, dif_pos h.2, heq]
      | succ k =>
          rw [show i + (k + 1) = i + 1 + k by omega, show j + (k + 1) = j + 1 + k by omega]
          exact ih (by omega)
  | case2 i j h hne => omega
  | case3 i j h => omega

theorem le_agreeUntil {i j n : Nat} (hi : i < j) (hn : j + n ≤ b.size)
    (h : ∀ k < n, byteAt b (i + k) = byteAt b (j + k)) : j + n ≤ agreeUntil b i j := by
  induction n generalizing i j with
  | zero => exact agreeUntil_ge i j
  | succ n ih =>
      have hfirst := h 0 (Nat.succ_pos n)
      rw [Nat.add_zero, Nat.add_zero, byteAt, byteAt, dif_pos (by omega), dif_pos (by omega)]
        at hfirst
      rw [agreeUntil, dif_pos ⟨by omega, by omega⟩, if_pos hfirst,
        show j + (n + 1) = j + 1 + n by omega]
      refine ih (by omega) (by omega) fun k hk => ?_
      have := h (k + 1) (by omega)
      rwa [show i + (k + 1) = i + 1 + k by omega, show j + (k + 1) = j + 1 + k by omega] at this

end

/-! ## What has gone out -/

/-- The output when the bytes of a block before a place have gone out. -/
def upTo (out : Array UInt8) (b : ByteArray) (n : Nat) : Array UInt8 := out ++ b.data.extract 0 n

section

variable {out : Array UInt8} {b : ByteArray}

theorem upTo_zero : upTo out b 0 = out := by simp [upTo]

theorem upTo_size : upTo out b b.size = out ++ b.data := by
  rw [upTo, ← ByteArray.size_data, Array.extract_size]

theorem size_upTo {n : Nat} (hn : n ≤ b.size) : (upTo out b n).size = out.size + n := by
  rw [← ByteArray.size_data] at hn
  rw [upTo, Array.size_append, Array.size_extract, Nat.min_eq_left hn, Nat.sub_zero]

theorem getD_upTo {n k : Nat} (hn : n ≤ b.size) (hk : k < n) :
    (upTo out b n).getD (out.size + k) 0 = byteAt b k := by
  have hlt : out.size + k < (upTo out b n).size := by
    rw [size_upTo hn]
    omega
  rw [Array.getD, dif_pos hlt, byteAt, dif_pos (by omega)]
  simp [upTo, ByteArray.getElem_eq_getElem_data]

theorem upTo_push {n : Nat} (hn : n < b.size) :
    (upTo out b n).push (byteAt b n) = upTo out b (n + 1) := by
  have hdata : n < b.data.size := hn
  rw [byteAt, dif_pos hn, ByteArray.getElem_eq_getElem_data, upTo, upTo, Array.push_append,
    Array.push_extract_getElem hdata, Nat.min_eq_left (Nat.zero_le n)]

/-- Copying what agrees with the block gives the block. -/
theorem copyBack_upTo {i j n : Nat} (hij : i < j) (hn : j + n ≤ b.size)
    (h : ∀ k < n, byteAt b (i + k) = byteAt b (j + k)) :
    copyBack (j - i) n (upTo out b j) = upTo out b (j + n) := by
  induction n generalizing i j with
  | zero => rfl
  | succ n ih =>
      have hfirst := h 0 (Nat.succ_pos n)
      rw [Nat.add_zero, Nat.add_zero] at hfirst
      have hplace : (upTo out b j).size - (j - i) = out.size + i := by
        rw [size_upTo (by omega)]
        omega
      -- Once the first byte is copied, the places to copy from and to have both moved by one.
      have hrest := ih (i := i + 1) (j := j + 1) (by omega) (by omega) fun k hk => by
        have := h (k + 1) (by omega)
        rwa [show i + (k + 1) = i + 1 + k by omega, show j + (k + 1) = j + 1 + k by omega] at this
      rw [show j + 1 - (i + 1) = j - i by omega] at hrest
      rw [copyBack, hplace, getD_upTo (by omega) hij, hfirst, upTo_push (by omega), hrest,
        show j + 1 + n = j + (n + 1) by omega]

end

/-! ## The search -/

section

variable {s : Search} {out : Array UInt8} {done : List Piece}

/-- The bytes of the block before a place have gone out in the pieces so far. -/
def Out (s : Search) (out : Array UInt8) (done : List Piece) (n : Nat) : Prop :=
  Makes out done.reverse (upTo out s.block n)

theorem Out.literalOf {first last : Nat} (h : s.Out out done first) (hfl : first ≤ last)
    (hlast : last ≤ s.block.size) (hsize : s.block.size ≤ 65536) :
    s.Out out (s.literalOf first last ++ done) last := by
  rw [Search.literalOf]
  split
  · rename_i hlt
    have hlen : (s.block.extract first last).data.toList.length = last - first := by
      rw [Array.length_toList, ByteArray.size_data, ByteArray.size_extract]
      omega
    refine Makes.reverse_cons h ⟨fun hnil => ?_, by omega, ?_⟩
    · -- A literal is not empty, since it ends behind the place where it begins.
      rw [hnil] at hlen
      simp only [List.length_nil] at hlen
      omega
    · refine Array.ext' ?_
      have hjoin : s.block.data.extract 0 first ++ s.block.data.extract first last =
          s.block.data.extract 0 last := by
        rw [Array.extract_append_extract, Nat.min_eq_left (Nat.zero_le _), Nat.max_eq_right hfl]
      rw [Array.toList_appendList, upTo, upTo, ← hjoin, ByteArray.data_extract]
      simp only [Array.toList_append, List.append_assoc]
  · rename_i hge
    obtain rfl : first = last := by omega
    exact h

/-- The places in a table lie before a given one. -/
def Before (table : Array Nat) (n : Nat) : Prop := ∀ slot, table.getD slot 0 < n

theorem Before.mono {table : Array Nat} {m n : Nat} (h : Before table m) (hmn : m ≤ n) :
    Before table n := fun slot => Nat.lt_of_lt_of_le (h slot) hmn

theorem Before.set {table : Array Nat} {n place : Nat} (h : Before table n) (hp : place < n)
    (slot : Nat) : Before (table.setIfInBounds slot place) n := by
  intro other
  have hother := h other
  rw [Array.getD_eq_getD_getElem?] at hother ⊢
  rw [Array.getElem?_setIfInBounds]
  split
  · split
    · exact hp
    · exact Nat.lt_of_le_of_lt (Nat.zero_le _) hp
  · exact hother

/-- What holds while a search is under way. -/
def Going (s : Search) (out : Array UInt8) (done : List Piece) (table : Array Nat) :
    Phase → Prop
  | .seeking emitted skip next _ =>
      s.Out out done emitted ∧ emitted ≤ next ∧ emitted ≤ s.block.size ∧ 32 ≤ skip ∧
        Before table next
  | .matched base candidate =>
      s.Out out done base ∧ candidate < base ∧ base < s.limit ∧
        wordAt s.block base = wordAt s.block candidate ∧ Before table (base + 1)

/-- An upper bound on the steps that are left. -/
def left (s : Search) : Phase → Nat
  | .seeking _ _ next _ => 2 * (s.block.size - next) + 1
  | .matched base _ => 2 * (s.block.size - base)

/-- A match is at least as long as the words that were compared, and ends in the block. -/
theorem agreeUntil_bounds {base candidate : Nat} (hlimit : s.limit + margin = s.block.size)
    (hcand : candidate < base) (hbase : base < s.limit)
    (hword : wordAt s.block base = wordAt s.block candidate) :
    base + 4 ≤ agreeUntil s.block candidate base ∧
      agreeUntil s.block candidate base ≤ s.block.size := by
  have hmargin : margin = 15 := rfl
  constructor
  · exact le_agreeUntil hcand (by omega) fun k hk => (byteAt_eq_of_wordAt_eq hword hk).symm
  · exact agreeUntil_le (by omega)

/-- A copy of what agrees brings the search to the end of the match. -/
theorem Out.copied {base candidate : Nat} (h : s.Out out done base) (hcand : candidate < base)
    (hfour : base + 4 ≤ agreeUntil s.block candidate base)
    (hend : agreeUntil s.block candidate base ≤ s.block.size) (hsize : s.block.size ≤ 65536) :
    s.Out out
      (.copy (base - candidate) (agreeUntil s.block candidate base - base) :: done)
      (agreeUntil s.block candidate base) := by
  have hagree : ∀ k < agreeUntil s.block candidate base - base,
      byteAt s.block (candidate + k) = byteAt s.block (base + k) :=
    fun k hk => agreeUntil_agree (by omega)
  generalize agreeUntil s.block candidate base = next at *
  refine Makes.reverse_cons h ⟨by omega, by omega, ?_, by omega, ?_⟩
  · rw [size_upTo (by omega)]
    omega
  · rw [copyBack_upTo hcand (by omega) hagree, show base + (next - base) = next by omega]

/-- **The pieces that a search ends with make the block.** -/
theorem makes_run (hsize : s.block.size ≤ 65536) (hlimit : s.limit + margin = s.block.size)
    {fuel : Nat} {table : Array Nat} {phase : Phase} (hg : s.Going out done table phase)
    (hfuel : s.left phase ≤ fuel) (hpos : 0 < fuel) :
    Makes out (s.run fuel table done phase).reverse (out ++ s.block.data) := by
  have hmargin : margin = 15 := rfl
  rw [← upTo_size]
  induction fuel generalizing table done phase with
  | zero => omega
  | succ fuel ih =>
      match phase with
      | .seeking emitted skip next slot =>
          obtain ⟨hout, hnext, hemitted, hskip, hbefore⟩ := hg
          rw [left] at hfuel
          have hstep : 1 ≤ skip / 32 := (Nat.one_le_div_iff (by decide)).2 hskip
          rw [run]
          simp only
          split
          · -- Too little is left to look at: the rest of the block goes out as a literal.
            exact hout.literalOf hemitted (Nat.le_refl _) hsize
          rename_i hlim
          split
          · -- A match: what was passed over goes out first.
            rename_i hword
            refine ih ⟨hout.literalOf hnext (by omega) hsize, hbefore slot, by omega, hword, ?_⟩
              (by rw [left]; omega) (by omega)
            exact (hbefore.mono (Nat.le_succ next)).set (Nat.lt_succ_self next) slot
          · refine ih ⟨hout, by omega, hemitted, by omega, ?_⟩ (by rw [left]; omega) (by omega)
            exact (hbefore.mono (by omega)).set (by omega) slot
      | .matched base candidate =>
          obtain ⟨hout, hcand, hbase, hword, hbefore⟩ := hg
          rw [left] at hfuel
          obtain ⟨hfour, hend⟩ := agreeUntil_bounds hlimit hcand hbase hword
          have hcopied := hout.copied hcand hfour hend hsize
          rw [run]
          simp only
          generalize agreeUntil s.block candidate base = next at *
          split
          · exact hcopied.literalOf hend (Nat.le_refl _) hsize
          rename_i hlim
          -- Both places that are noted after a match lie before the place where it ended.
          have hlast : Before (table.setIfInBounds (s.hash (next - 1)) (next - 1)) next :=
            (hbefore.mono (by omega)).set (by omega) _
          have hlast' := (hlast.mono (Nat.le_succ next)).set (Nat.lt_succ_self next) (s.hash next)
          split
          · rename_i hword'
            exact ih ⟨hcopied, hlast _, by omega, hword', hlast'⟩ (by rw [left]; omega) (by omega)
          · exact ih ⟨hcopied, by omega, hend, by omega, hlast'⟩ (by rw [left]; omega) (by omega)

end

end Search

/-! ## Blocks -/

theorem makes_blockPieces (out : Array UInt8) {b : ByteArray} (hsize : b.size ≤ 65536) :
    Makes out (blockPieces b) (out ++ b.data) := by
  rw [blockPieces]
  split
  · -- A short block is one literal, and none at all if it is empty.
    split
    · rename_i h0
      have hempty : b.data = #[] := Array.eq_empty_of_size_eq_zero h0
      rw [hempty, Array.append_empty]
      rfl
    · rename_i h0
      refine ⟨_, ⟨fun hnil => h0 ?_, ?_, ?_⟩, rfl⟩
      · have := congrArg List.length hnil
        rwa [Array.length_toList] at this
      · rwa [Array.length_toList]
      · refine Array.ext' ?_
        rw [Array.toList_append, Array.toList_appendList]
  · rename_i hlong
    have hlong' : 17 ≤ b.size := Nat.le_of_not_lt hlong
    have hmargin : margin = 15 := rfl
    simp only
    refine Search.makes_run (s := ⟨b, _, b.size - margin⟩) hsize
      (Nat.sub_add_cancel (by omega)) ⟨?_, Nat.zero_le _, Nat.zero_le _, Nat.le_refl 32, ?_⟩ ?_
      (by omega)
    · exact (Search.upTo_zero (b := b)).symm
    · intro slot
      rw [Array.getD_eq_getD_getElem?, Array.getElem?_replicate]
      split <;> exact Nat.one_pos
    · show 2 * (b.size - 1) + 1 ≤ 2 * b.size
      omega

theorem makes_pieces (out : Array UInt8) (bs : Bytes) : Makes out (pieces bs) (out ++ bs) := by
  rw [pieces]
  fun_induction blocks bs generalizing out with
  | case1 => exact Array.append_empty.symm
  | case2 bs hne ih =>
      have hblock : (bs.take blockSize).toByteArray.size ≤ 65536 := by
        rw [List.size_toByteArray]
        exact List.length_take_le _ _
      have hfirst := makes_blockPieces out hblock
      have hjoin : out ++ (bs.take blockSize).toByteArray.data ++ bs.drop blockSize = out ++ bs := by
        refine Array.ext' ?_
        simp only [Array.toList_appendList, Array.toList_append, List.data_toByteArray,
          List.append_assoc, List.take_append_drop]
      rw [List.flatMap_cons, ← hjoin]
      exact hfirst.append (ih _)

theorem guard_of {P : Prop} [Decidable P] (h : P) : (guard P : Option Unit) = some () := if_pos h

/-- **What was compressed is decompressed to what it was.** -/
theorem decompress?_compress {bs packed : Bytes} (h : compress bs = .ok packed) :
    decompress? packed = some bs := by
  unfold compress at h
  split at h
  · cases h
  rename_i hlimit
  obtain rfl := Except.ok.inj h
  have hlen : bs.length < UInt32.size := by
    unfold lengthLimit compressedLimit at hlimit
    omega
  have hmade := makes_pieces #[] bs
  have hsize : ((#[] : Array UInt8) ++ bs).size = bs.length := by
    rw [size_appendList]
    exact Nat.zero_add _
  have hperform := hmade.performAll? (Nat.le_of_eq hsize)
  have hvarint := @varint?_varint 4 _ (Nat.lt_trans hlen (by decide))
    ((pieces bs).flatMap encode)
  rw [decompress?, hvarint]
  rw [Option.bind_eq_bind, Option.bind_some]
  dsimp only
  rw [guard_of hlen, Option.bind_eq_bind, Option.bind_some, hperform, Option.bind_eq_bind,
    Option.bind_some, guard_of hsize]
  simp

end Compression

instance : Codec.Lawful where
  decompress_compress {value packed} h := by
    show (match Compression.decompress? packed with
      | some value => Except.ok value
      | none => .error "corrupt input") = .ok value
    rw [Compression.decompress?_compress h]

end PagedStore
