import PagedStore.Proofs.Chains
import PagedStore.Tree.Value

/-!
# Stored values

A value of a cell stands for bytes and may own the pages of a chain (`ValueAt`). Storing a value
takes pages that were not in use, reading gives the bytes back, and releasing gives back the pages.
-/

set_option autoImplicit false

namespace PagedStore.Tree

open PagedStore.Action Pager

/-- The value of a cell stands for bytes, and the pages of its chain. -/
inductive ValueAt [Codec] (f : Face) : CellValue → Bytes → Multiset PageId → Prop where
  | inline (bs : Bytes) : ValueAt f (.inline bs) bs 0
  | chained {length : UInt32} {head : PageId} {compressed : Bool} {parts : List Bytes}
      {ids : List PageId} {bs : Bytes} (chain : Chain.ChainAt f head parts ids)
      (unpacked : unpack compressed parts.flatten = .ok bs) (long : bs.length = length.toNat) :
      ValueAt f (.chained length head compressed) bs ids

section

variable {f g : Face} {v : CellValue} {bs : Bytes} {pages used : Multiset PageId}
  {E : Error → Prop}

variable [Codec]

theorem ValueAt.congr (h : ValueAt f v bs pages) (hpages : ∀ id ∈ pages, g.pages id = f.pages id)
    (hsize : g.pageSize = f.pageSize) : ValueAt g v bs pages := by
  cases h with
  | inline => exact .inline bs
  | chained chain unpacked long =>
      exact .chained (chain.congr (fun id hid => hpages id (Multiset.mem_coe.2 hid)) hsize)
        unpacked long

/-- A value stands for one sequence of bytes. -/
theorem ValueAt.read (h : ValueAt f v bs pages) (hb : Balanced f (pages + used)) :
    Does f (readValue v) E fun x g => g = f ∧ x = bs := by
  cases h with
  | inline => exact .pure ⟨rfl, rfl⟩
  | @chained length head compressed parts ids _ chain unpacked long =>
      have hcard := hb.card_lt
      rw [Multiset.card_add, Multiset.coe_card] at hcard
      refine .bind (Chain.does_read chain (by omega)) ?_
      rintro stored g ⟨rfl, rfl⟩
      refine .bind ((Does.ofResult g _).mono (fun e he => ?_) fun _ _ h => h) ?_
      · rw [unpacked] at he
        cases he
      rintro value g' ⟨rfl, hvalue⟩
      obtain rfl := Except.ok.inj (unpacked.symm.trans hvalue)
      rw [if_neg (not_not_intro long)]
      exact .pure ⟨rfl, rfl⟩

/-- **Releasing a value gives back the pages that it owns.** -/
theorem ValueAt.release (h : ValueAt f v bs pages) (hb : Balanced f (pages + used)) :
    Does f (releaseValue v) E fun _ g => Balanced g used ∧ Kept used f g := by
  cases h with
  | inline =>
      rw [zero_add] at hb
      exact .pure ⟨hb, .refl used f⟩
  | chained chain => exact Chain.does_free chain hb

end

/-! ## Storing -/

/-- **What was packed is unpacked to what it was.** -/
theorem unpack_pack [Codec] [Codec.Lawful] {c : Compression} {value stored : Bytes}
    {compressed : Bool}
    (h : pack c value = .ok (stored, compressed)) : unpack compressed stored = .ok value := by
  unfold pack at h
  split at h
  · cases h
    rfl
  · split at h
    · cases h
    · rename_i packed hpacked
      have hpair := Except.ok.inj h
      split at hpair
      · cases hpair
        rw [unpack, if_pos rfl, Codec.Lawful.decompress_compress hpacked]
      · cases hpair
        rfl

/-- A value is packed, or the compressor refuses it. -/
theorem of_pack_eq_error [Codec] {c : Compression} {value : Bytes} {e : Error}
    (h : pack c value = .error e) : ∃ s, e = .serialization s := by
  unfold pack at h
  split at h
  · cases h
  · split at h
    · exact ⟨_, (Except.error.inj h).symm⟩
    · cases h

/-- Why a record cannot be stored: the file is full, the record is too long, or the compressor
refuses the value. -/
def Refused (e : Error) : Prop :=
  IsFull e ∨ (∃ s, e = .limitReached s) ∨ ∃ s, e = .serialization s

theorem Refused.ne_panicked {e : Error} (h : Refused e) : e ≠ .panicked := by
  rintro rfl
  obtain ⟨s, hs⟩ | ⟨s, hs⟩ | ⟨s, hs⟩ := h
  · cases hs
  · cases hs
  · cases hs

/-- **Storing a value** gives one that stands for its bytes and is short enough for a leaf. -/
theorem does_makeValue [Codec] [Codec.Lawful] (c : Compression) {f : Face} {key value : Bytes}
    {used : Multiset PageId} (hkey : key.length ≤ keyLimit f.pageSize) (hb : Balanced f used) :
    Does f (makeValue c key value) Refused fun v g => ∃ pages, ValueAt g v value pages ∧
      (Cell.mk key v).size ≤ inlineLimit f.pageSize ∧ Balanced g (pages + used) ∧
      Kept used f g := by
  refine .of_sane fun hs => .self_bind fun p _ hp _ => ?_
  rw [hp]
  split
  · rename_i hshort
    rw [← zero_add used] at hb
    exact .pure ⟨0, .inline value, hshort, hb, .refl used f⟩
  split
  · exact .throw (.inr (.inl ⟨_, rfl⟩))
  · rename_i hlen
    rw [Nat.not_le] at hlen
    refine .bind ((Does.ofResult f (pack c value)).mono
      (fun _ he => .inr (.inr (of_pack_eq_error he))) fun _ _ h => h) ?_
    rintro ⟨stored, compressed⟩ g ⟨rfl, hpack⟩
    refine .bind ((Chain.does_write stored hb).mono (fun _ he => .inl he) fun _ _ h => h) ?_
    rintro head g' ⟨parts, ids, hchain, hparts, hb', hk⟩
    -- The chain holds the packed bytes, while the length is that of the value itself.
    have hunpacked : unpack compressed parts.flatten = .ok value := by
      rw [hparts]
      exact unpack_pack hpack
    have hlength : value.length = (UInt32.ofNat value.length).toNat :=
      (UInt32.toNat_ofNat_of_lt' hlen).symm
    refine .pure ⟨ids, .chained hchain hunpacked hlength, ?_, hb', hk⟩
    -- A key of an eighth of the page and the nine bytes of a chain stay below a quarter.
    have hbounds := hs.bounds
    rw [keyLimit] at hkey
    rw [Cell.size, CellValue.size, inlineLimit]
    show 2 + key.length + 9 ≤ _
    omega

end PagedStore.Tree
