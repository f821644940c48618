import PagedStore.Compression.Block
import PagedStore.Proofs.Encoding

/-!
# Pieces of compressed data

What a piece adds to the output (`Piece.Adds`), and that reading the bytes of a piece and
performing what was read adds just that. A long copy is written as several shorter ones, which
together add what it adds.
-/

set_option autoImplicit false

namespace PagedStore.Compression

open Bytes

/-! ## Lengths in groups of seven bits -/

theorem varint?_varint {fuel n : Nat} (h : n < 128 ^ (fuel + 1)) (rest : Bytes) :
    varint? (fuel + 1) (varint n ++ rest) = some (n, rest) := by
  induction fuel generalizing n with
  | zero =>
      have hn : n < 128 := by simpa using h
      have hbyte : (UInt8.ofNat n).toNat = n :=
        UInt8.toNat_ofNat_of_lt' (Nat.lt_trans hn (by decide))
      rw [varint, if_pos hn, List.singleton_append, varint?, hbyte, if_pos hn]
  | succ fuel ih =>
      by_cases hn : n < 128
      · have hbyte : (UInt8.ofNat n).toNat = n :=
          UInt8.toNat_ofNat_of_lt' (Nat.lt_trans hn (by decide))
        rw [varint, if_pos hn, List.singleton_append, varint?, hbyte, if_pos hn]
      · -- The byte is marked as having more behind it, and reading takes the mark away again.
        have hbyte : (UInt8.ofNat (n % 128 + 128)).toNat = n % 128 + 128 := by
          refine UInt8.toNat_ofNat_of_lt' ?_
          have : UInt8.size = 256 := rfl
          omega
        have hdiv : n / 128 < 128 ^ (fuel + 1) := by
          rw [Nat.pow_succ] at h
          exact Nat.div_lt_of_lt_mul (by rwa [Nat.mul_comm])
        have hjoin : n % 128 + 128 - 128 + 128 * (n / 128) = n := by omega
        rw [varint, if_neg hn, List.cons_append, varint?, hbyte, if_neg (by omega), ih hdiv]
        show some (n % 128 + 128 - 128 + 128 * (n / 128), rest) = _
        rw [hjoin]

namespace Piece

/-! ## What a piece adds -/

/-- Performing a piece on one output gives another. Pieces are such as the compressor writes. -/
def Adds (p : Piece) (out out' : Array UInt8) : Prop :=
  match p with
  | literal bs => bs ≠ [] ∧ bs.length ≤ 65536 ∧ out' = out ++ bs
  | copy distance n => 0 < distance ∧ distance < 65536 ∧ distance ≤ out.size ∧ 4 ≤ n ∧
      out' = copyBack distance n out

theorem size_appendList (out : Array UInt8) (bs : Bytes) :
    (out ++ bs).size = out.size + bs.length := by
  rw [← Array.length_toList, Array.toList_appendList, List.length_append, Array.length_toList]

theorem size_copyBack (distance n : Nat) (out : Array UInt8) :
    (copyBack distance n out).size = out.size + n := by
  induction n generalizing out with
  | zero => rfl
  | succ n ih =>
      rw [copyBack, ih, Array.size_push]
      omega

theorem copyBack_add (distance m n : Nat) (out : Array UInt8) :
    copyBack distance (m + n) out = copyBack distance n (copyBack distance m out) := by
  induction m generalizing out with
  | zero => rw [Nat.zero_add, copyBack]
  | succ m ih =>
      rw [show m + 1 + n = (m + n) + 1 by omega, copyBack, ih, copyBack]

/-! ## Reading pieces -/

theorem read?_literal {bs : Bytes} (hne : bs ≠ []) (hlen : bs.length ≤ 65536) (rest : Bytes) :
    read? ((literal bs).encode ++ rest) = some (literal bs, rest) := by
  have hpos : 0 < bs.length := List.length_pos_iff.2 hne
  have hsize : UInt8.size = 256 := rfl
  have hwhole : ∀ {n : Nat}, n + 1 = bs.length →
      takeLiteral? (n + 1) (bs ++ rest) = some (literal bs, rest) := by
    intro n hn
    rw [takeLiteral?, take?_append_of_length hn.symm, Option.map_some]
  rw [encode, encodeLiteral]
  split
  · -- The length stands in the tag itself.
    rename_i h59
    have htag : (UInt8.ofNat ((bs.length - 1) * 4)).toNat = (bs.length - 1) * 4 :=
      UInt8.toNat_ofNat_of_lt' (by omega)
    have hform : (bs.length - 1) * 4 % 4 = 0 := by omega
    have hhigh : (bs.length - 1) * 4 / 4 = bs.length - 1 := by omega
    simp only [List.cons_append, read?, htag, hform, hhigh]
    rw [if_pos (by omega)]
    exact hwhole (by omega)
  split
  · -- The length stands in one byte behind the tag.
    rename_i h59 h256
    have hbyte : (UInt8.ofNat (bs.length - 1)).toNat = bs.length - 1 :=
      UInt8.toNat_ofNat_of_lt' (by omega)
    have htag : (0xF0 : UInt8).toNat = 240 := rfl
    simp only [List.cons_append, read?, htag]
    rw [if_neg (by decide), if_neg (by simp; omega)]
    simp only [List.splitAt_eq]
    show takeLiteral? (toNatLE [UInt8.ofNat (bs.length - 1)] + 1) (bs ++ rest) = _
    rw [show toNatLE [UInt8.ofNat (bs.length - 1)] = bs.length - 1 by simp [toNatLE, hbyte]]
    exact hwhole (by omega)
  · -- The length stands in two bytes behind the tag.
    rename_i h59 h256
    have htag : (0xF4 : UInt8).toNat = 244 := rfl
    simp only [List.cons_append, List.append_assoc, read?, htag]
    rw [if_neg (by decide), if_neg (by simp; omega)]
    simp only [List.splitAt_eq]
    rw [List.take_left' (length_ofU16 _), List.drop_left' (length_ofU16 _),
      toNatLE_ofU16 (by omega)]
    exact hwhole (by omega)

theorem read?_encodeCopy {distance n : Nat} (hd : 0 < distance) (hd' : distance < 65536)
    (hn : 4 ≤ n) (hn' : n ≤ 64) (rest : Bytes) :
    read? (encodeCopy distance n ++ rest) = some (copy distance n, rest) := by
  rw [encodeCopy]
  split
  · -- A short and near copy: the high bits of the distance stand in the tag.
    rename_i h
    obtain ⟨hn11, hd2047⟩ := h
    have htag : (UInt8.ofNat (distance / 256 * 32 + (n - 4) * 4 + 1)).toNat =
        distance / 256 * 32 + (n - 4) * 4 + 1 := UInt8.toNat_ofNat_of_lt' (by
          have : UInt8.size = 256 := rfl
          omega)
    have hlow : (UInt8.ofNat distance).toNat = distance % 256 := UInt8.toNat_ofNat'
    rw [List.cons_append, List.cons_append, List.nil_append, read?, htag]
    have hform : (distance / 256 * 32 + (n - 4) * 4 + 1) % 4 = 1 := by omega
    simp only [hform, hlow, Option.some.injEq, Prod.mk.injEq, copy.injEq, and_true]
    omega
  · have htag : (UInt8.ofNat ((n - 1) * 4 + 2)).toNat = (n - 1) * 4 + 2 :=
      UInt8.toNat_ofNat_of_lt' (by
        have : UInt8.size = 256 := rfl
        omega)
    have hform : ((n - 1) * 4 + 2) % 4 = 2 := by omega
    simp only [List.cons_append, read?, htag, hform,
      take?_append_of_length (length_ofU16 distance) rest, Option.map_some, toNatLE_ofU16 hd',
      Option.some.injEq, Prod.mk.injEq, copy.injEq, and_true, true_and]
    omega

/-! ## Several pieces -/

theorem copyLengths_spec {n : Nat} (h : 4 ≤ n) :
    (copyLengths n).sum = n ∧ ∀ m ∈ copyLengths n, 4 ≤ m ∧ m ≤ 64 := by
  fun_induction copyLengths n with
  | case1 n h68 ih =>
      obtain ⟨hsum, hmem⟩ := ih (by omega)
      constructor
      · rw [List.sum_cons, hsum]
        omega
      · intro m hm
        rcases List.mem_cons.1 hm with rfl | hm
        · decide
        · exact hmem m hm
  | case2 n h68 h64 =>
      constructor
      · simp only [List.sum_cons, List.sum_nil]
        omega
      · intro m hm
        rw [List.mem_cons, List.mem_singleton] at hm
        omega
  | case3 n h68 h64 =>
      constructor
      · simp
      · intro m hm
        obtain rfl := List.mem_singleton.1 hm
        omega

theorem Adds.size_le {p : Piece} {out out' : Array UInt8} (h : p.Adds out out') :
    out.size ≤ out'.size := by
  cases p with
  | literal bs =>
      obtain ⟨-, -, rfl⟩ := h
      rw [size_appendList]
      exact Nat.le_add_right _ _
  | copy distance n =>
      obtain ⟨-, -, -, -, rfl⟩ := h
      rw [size_copyBack]
      exact Nat.le_add_right _ _

end Piece

open Piece

/-- Performing pieces one after the other on one output gives another. -/
def Makes : Array UInt8 → List Piece → Array UInt8 → Prop
  | out, [], out' => out = out'
  | out, p :: ps, out' => ∃ mid, p.Adds out mid ∧ Makes mid ps out'

namespace Makes

variable {out mid out' : Array UInt8} {p : Piece} {ps qs : List Piece}

theorem append (h₁ : Makes out ps mid) (h₂ : Makes mid qs out') : Makes out (ps ++ qs) out' := by
  induction ps generalizing out with
  | nil =>
      obtain rfl : out = mid := h₁
      exact h₂
  | cons p ps ih =>
      obtain ⟨out₁, hadds, hrest⟩ := h₁
      exact ⟨out₁, hadds, ih hrest⟩

/-- One more piece at the end of a list that is kept in reverse. -/
theorem reverse_cons (h : Makes out ps.reverse mid) (hp : p.Adds mid out') :
    Makes out (p :: ps).reverse out' := by
  rw [List.reverse_cons]
  exact h.append ⟨out', hp, rfl⟩

theorem size_le (h : Makes out ps out') : out.size ≤ out'.size := by
  induction ps generalizing out with
  | nil =>
      obtain rfl : out = out' := h
      exact Nat.le_refl _
  | cons p ps ih =>
      obtain ⟨out₁, hadds, hrest⟩ := h
      exact Nat.le_trans hadds.size_le (ih hrest)

end Makes

/-! ## Performing what was written -/

section

variable {limit : Nat} {out out' : Array UInt8}

theorem performAll?_of_read {bs rest : Bytes} {p : Piece} (hread : read? bs = some (p, rest))
    (hperform : p.perform? limit out = some out') :
    performAll? limit bs out = performAll? limit rest out' := by
  have hne : bs ≠ [] := by
    rintro rfl
    cases hread
  rw [performAll?, if_neg hne]
  split
  · rename_i hnone
    rw [hnone] at hread
    cases hread
  · rename_i hsome
    rw [hsome] at hread
    obtain ⟨rfl, rfl⟩ := Prod.mk.inj (Option.some.inj hread)
    rw [hperform]

/-- The shorter copies together do what the long one does. -/
theorem performAll?_copies {distance : Nat} (hd : 0 < distance) (hd' : distance < 65536)
    (ns : List Nat) (hns : ∀ n ∈ ns, 4 ≤ n ∧ n ≤ 64) (hout : distance ≤ out.size)
    (hlimit : out.size + ns.sum ≤ limit) (rest : Bytes) :
    performAll? limit (ns.flatMap (encodeCopy distance) ++ rest) out =
      performAll? limit rest (copyBack distance ns.sum out) := by
  induction ns generalizing out with
  | nil => rfl
  | cons n ns ih =>
      obtain ⟨h4, h64⟩ := hns n List.mem_cons_self
      rw [List.sum_cons] at hlimit
      have hperform : (copy distance n).perform? limit out = some (copyBack distance n out) := by
        rw [perform?, if_neg (by omega), if_neg (by omega)]
      have hsize := size_copyBack distance n out
      rw [List.flatMap_cons, List.append_assoc,
        performAll?_of_read (read?_encodeCopy hd hd' h4 h64 _) hperform,
        ih (fun m hm => hns m (List.mem_cons_of_mem _ hm)) (by omega) (by omega), List.sum_cons,
        copyBack_add]

theorem performAll?_encode {p : Piece} (h : p.Adds out out') (hlimit : out'.size ≤ limit)
    (rest : Bytes) :
    performAll? limit (p.encode ++ rest) out = performAll? limit rest out' := by
  cases p with
  | literal bs =>
      obtain ⟨hne, hlen, rfl⟩ := h
      refine performAll?_of_read (read?_literal hne hlen rest) ?_
      rw [perform?, if_pos]
      rwa [size_appendList] at hlimit
  | copy distance n =>
      obtain ⟨hd, hd', hout, h4, rfl⟩ := h
      obtain ⟨hsum, hmem⟩ := copyLengths_spec h4
      rw [size_copyBack] at hlimit
      rw [encode, performAll?_copies hd hd' _ hmem hout (by rw [hsum]; exact hlimit), hsum]

/-- **Written pieces are performed as they were meant.** -/
theorem Makes.performAll? {ps : List Piece} (h : Makes out ps out') (hlimit : out'.size ≤ limit) :
    Compression.performAll? limit (ps.flatMap encode) out = some out' := by
  induction ps generalizing out with
  | nil =>
      obtain rfl : out = out' := h
      rw [List.flatMap_nil, Compression.performAll?, if_pos rfl]
  | cons p ps ih =>
      obtain ⟨mid, hadds, hrest⟩ := h
      rw [List.flatMap_cons, performAll?_encode hadds (Nat.le_trans hrest.size_le hlimit), ih hrest]

end

end PagedStore.Compression
