import Mathlib.Tactic.SplitIfs
import PagedStore.Proofs.Checksums
import PagedStore.Proofs.LogGrammar
import PagedStore.Proofs.PageImages
import PagedStore.Proofs.PagerState

/-!
# Damage to a single byte

A page, the file header and a fragment of the log each carry a checksum beside what it covers. A
byte that was changed is either one of the checksum or one of the contents, so the two no longer
fit; what is tested before the checksum can only refuse earlier. The two bytes of a fragment that
hold its length are the exception: they are not covered, and they say what is.
-/

set_option autoImplicit false

namespace PagedStore

open Bytes

/-! ## One byte of a file -/

namespace Bytes

theorem patch_singleton {k : Nat} {old : Bytes} (h : k < old.length) (b : UInt8) :
    patch k [b] old = old.set k b := by
  rw [patch, if_neg (List.cons_ne_nil b []), List.set_eq_take_append_cons_drop, if_pos h, resize,
    Nat.sub_eq_zero_of_le (Nat.le_of_lt h), List.replicate_zero, List.append_nil]
  rfl

theorem slice_patch_singleton {at' n i : Nat} {old : Bytes} (h : i < (slice at' n old).length)
    (b : UInt8) : slice at' n (patch (at' + i) [b] old) = (slice at' n old).set i b := by
  rw [length_slice] at h
  rw [patch_singleton (by omega), slice, List.drop_set, if_neg (by omega), List.take_set,
    Nat.add_sub_cancel_left, slice]

end Bytes

/-- Changing a byte of a file changes that byte of what is read there. -/
theorem Disk.read_write_singleton {d : Disk} {n : NodeId} {at' count i : Nat}
    (h : i < (d.read n at' count).length) (b : UInt8) :
    (d.write n (at' + i) [b]).read n at' count = (d.read n at' count).set i b := by
  have hn : n < d.nodes.size := by
    by_contra hne
    have hempty : d.node n = ⟨false, .empty, .free⟩ := by
      rw [Disk.node, Array.getD, dif_neg hne]
    rw [Disk.read, hempty] at h
    simp at h
  rw [Disk.read_eq_slice] at h
  rw [Disk.read_eq_slice, Disk.read_eq_slice, Disk.readAll_write_self hn, slice_patch_singleton h]

/-! ## Pages -/

namespace Page

/-- **A sealed page that was changed in one byte does not verify.** -/
theorem verify_of_altered {q : Page} {i : Nat} {ys : Bytes} (h : Altered i q.sealed.image ys) :
    ∃ stored actual, stored ≠ actual ∧
      verify ⟨q.id, ys⟩ = .error (.checksumMismatch stored actual) := by
  have hfit : UInt32.ofNat (toNatLE (q.sealed.image.take 4)) =
      Checksum.crc32 (q.sealed.image.drop 4) := by
    rw [drop_four_sealed]
    exact take_four_ofU32 _ _
  have hne : UInt32.ofNat (toNatLE (ys.take 4)) ≠ Checksum.crc32 (ys.drop 4) := by
    refine Checksum.ofNat_ne_crc32 (List.length_take_le 4 _) hfit ?_
    rcases Nat.lt_or_ge i 4 with hi | hi
    · exact .inl ⟨⟨i, h.take hi⟩, h.drop_eq hi⟩
    · exact .inr ⟨h.take_eq hi, i - 4, h.drop hi⟩
  exact ⟨_, _, hne, if_neg hne⟩

end Page

open PagedStore.Action in
/-- A page that is neither dirty nor cached is refused when its image does not verify. -/
theorem Pager.exec_read_of_verify {p : Pager} {d : Disk} {id : PageId} {image : Bytes} {e : Error}
    (hu : p.poisoned = none) (hr : p.inRange id = true) (hdirty : p.dirty[id]? = none)
    (hcache : p.cache.entries[id]? = none)
    (himage : d.read p.file (offset p.pageSize id) p.pageSize = image)
    (hlen : p.pageSize ≤ image.length) (hv : Page.verify ⟨id, image⟩ = .error e) :
    ((read id).exec p d).1 = .error (.corrupt (s!"page {id}: " ++ e.message)) := by
  have hmiss : (p.cache.get id).1 = none := by rw [Cache.fst_get, hcache]
  rw [read, exec_bind_ok (exec_ensureUsable hu)]
  simp only [exec_bind, exec_self, hr, Bool.not_true, Bool.false_eq_true, if_false, hdirty,
    exec_update, hmiss, load, exec_disk, himage]
  rw [if_neg (Nat.not_lt.2 hlen), hv]
  rfl

/-! ## The file header -/

namespace Header

/-- What is not covered by the checksum beside it is no header, whatever is found first. -/
theorem decode_of_sum_ne {bs : Bytes} (h : u32At bs 48 ≠ Checksum.crc32 (bs.take 48)) :
    ∃ e, decode bs = .error e := by
  rw [decode]
  split
  · exact ⟨_, rfl⟩
  split
  · exact ⟨_, rfl⟩
  split
  · exact ⟨_, rfl⟩
  · exact ⟨_, if_pos h⟩

/-- **A header that was changed in one of its bytes does not decode**; the page behind the header
is not looked at. -/
theorem decode_of_altered {h : Header} {i : Nat} {ys : Bytes} (ha : Altered i h.encode ys)
    (hi : i < encodedLength) : ∃ e, decode ys = .error e := by
  rcases Nat.lt_or_ge h.pageSize.toNat encodedLength with hp | hp
  · -- Pages so small have no room for a header at all.
    refine ⟨_, if_pos ?_⟩
    rwa [ha.length_eq, length_encode]
  have hbody : h.encode.take 48 = h.body := by
    rw [show (48 : Nat) = min 48 encodedLength from rfl, ← List.take_take, take_encode hp, front,
      List.take_left' h.length_body]
  have hsum : (h.encode.drop 48).take 4 = ofU32 (Checksum.crc32 h.body) := by
    rw [List.take_drop, show 48 + 4 = encodedLength from rfl, take_encode hp, front,
      List.drop_left' h.length_body]
  have hfit : UInt32.ofNat (toNatLE ((h.encode.drop 48).take 4)) =
      Checksum.crc32 (h.encode.take 48) := by
    rw [hbody, hsum, toNatLE_ofU32, UInt32.ofNat_toNat]
  refine decode_of_sum_ne (Checksum.ofNat_ne_crc32 (List.length_take_le 4 _) hfit ?_)
  rcases Nat.lt_or_ge i 48 with h48 | h48
  · refine .inr ⟨?_, i, ha.take h48⟩
    rw [ha.drop_eq h48]
  · refine .inl ⟨⟨i - 48, (ha.drop h48).take ?_⟩, ha.take_eq h48⟩
    rw [encodedLength] at hi
    omega

end Header

/-! ## Fragments of the log -/

namespace Log

namespace Fragment

theorem sum_encode (f : Fragment) :
    UInt32.ofNat (toNatLE (f.encode.take 4)) = Checksum.crc32 (f.encode.drop 6) := by
  rw [encode, List.append_assoc]
  exact take_four_ofU32 _ _

/-- A fragment that fills its frame is only decoded when the checksum fits all behind the length. -/
theorem sum_of_decode {bs : Bytes} {f : Fragment} (h : decode bs = .ok f)
    (hlen : announced bs = (bs.drop frameLength).length) :
    UInt32.ofNat (toNatLE (bs.take 4)) = Checksum.crc32 (bs.drop 6) := by
  obtain ⟨hann, hframed⟩ := framed_of_decode h
  rw [hlen, List.length_drop, frameLength] at hann
  rw [List.take_of_length_le (by omega)] at hframed
  obtain ⟨-, rfl⟩ := hframed.eq_encode
  exact sum_encode f

/-- **A fragment that was changed in one byte does not decode**, unless the byte is one of the
length. -/
theorem decode_of_altered {f : Fragment} {i : Nat} {ys : Bytes} (hdata : f.data.length < 65536)
    (ha : Altered i f.encode ys) (hi : i < 4 ∨ 6 ≤ i) : ∃ e, decode ys = .error e := by
  -- The length is as it was, and so is how much there is behind the frame.
  have hlength : (ys.drop 4).take 2 = (f.encode.drop 4).take 2 := by
    rcases hi with hi | hi
    · rw [ha.drop_eq hi]
    · exact (ha.drop (by omega)).take_eq (by omega)
  have hlen : announced ys = (ys.drop frameLength).length := by
    have henc := announced_encode hdata []
    rw [List.append_nil] at henc
    rw [announced, hlength, ← announced, henc, List.length_drop, ha.length_eq, length_encode,
      Nat.add_sub_cancel_left]
  have hne : UInt32.ofNat (toNatLE (ys.take 4)) ≠ Checksum.crc32 (ys.drop 6) := by
    refine Checksum.ofNat_ne_crc32 (List.length_take_le 4 _) (sum_encode f) ?_
    rcases hi with hi | hi
    · exact .inl ⟨⟨i, ha.take hi⟩, ha.drop_eq (by omega)⟩
    · exact .inr ⟨ha.take_eq (by omega), i - 6, ha.drop hi⟩
  cases hd : decode ys with
  | error e => exact ⟨e, rfl⟩
  | ok g => exact absurd (sum_of_decode hd hlen) hne

end Fragment

end Log

/-! ## The three together -/

/-- **Damage to a single byte is always detected.** A sealed page of which any byte was changed
does not verify, and a pager that reads it off the file refuses it as corrupt; a header of which
one of the 52 bytes was changed does not decode; nor does a fragment of which a byte was changed
that is not one of its length. -/
theorem single_byte_damage_detected :
    (∀ (q : Page) (i : Nat) (hi : i < q.sealed.image.length) (b : UInt8),
      q.sealed.image[i] ≠ b →
        ∃ stored actual, stored ≠ actual ∧
          Page.verify ⟨q.id, q.sealed.image.set i b⟩ = .error (.checksumMismatch stored actual) ∧
          ∀ (p : Pager) (d : Disk), p.poisoned = none → p.inRange q.id = true →
            p.dirty[q.id]? = none → p.cache.entries[q.id]? = none →
            q.image.length = p.pageSize →
            d.read p.file (Pager.offset p.pageSize q.id) p.pageSize = q.sealed.image →
            ((Pager.read q.id).exec p
              (d.write p.file (Pager.offset p.pageSize q.id + i) [b])).1 =
              .error (.corrupt (s!"page {q.id}: " ++
                (Error.checksumMismatch stored actual).message))) ∧
    (∀ (h : Header) (i : Nat) (hi : i < h.encode.length) (b : UInt8),
      i < Header.encodedLength → h.encode[i] ≠ b →
        ∃ e, Header.decode (h.encode.set i b) = .error e) ∧
    ∀ (f : Log.Fragment) (i : Nat) (hi : i < f.encode.length) (b : UInt8),
      f.data.length ≤ Log.maxFragment → i ≠ 4 → i ≠ 5 → f.encode[i] ≠ b →
        ∃ e, Log.Fragment.decode (f.encode.set i b) = .error e := by
  refine ⟨fun q i hi b hb => ?_, fun h i hi b h52 hb => ?_, fun f i hi b hf h4 h5 hb => ?_⟩
  · obtain ⟨stored, actual, hne, hv⟩ := Page.verify_of_altered (Altered.of_set hi hb)
    refine ⟨stored, actual, hne, hv, fun p d hu hr hdirty hcache hlen hd => ?_⟩
    refine Pager.exec_read_of_verify hu hr hdirty hcache
      (Disk.read_write_singleton (by rwa [hd]) b) ?_ (by rw [hd]; exact hv)
    rw [List.length_set, hd, Page.sealed, List.length_append, length_ofU32, List.length_drop]
    omega
  · exact Header.decode_of_altered (Altered.of_set hi hb) h52
  · have hdata : f.data.length < 65536 := by
      rw [Log.maxFragment] at hf
      omega
    exact Log.Fragment.decode_of_altered hdata (Altered.of_set hi hb) (by omega)

/-- A leaf with a single byte of payload. -/
def smallLeaf : Page := .make 1 512 .leaf [7]

/-- The header of a file with this leaf. -/
def smallHeader : Header := { Header.fresh 512 with pageCount := 2 }

/-- A file of two pages, the second one the leaf, sealed. -/
def smallFile : Disk :=
  ⟨[("db", 0)], #[⟨false, (smallHeader.encode ++ smallLeaf.sealed.image).toByteArray, .free⟩]⟩

/-- A pager on that file that has not read any page yet. -/
def smallPager : Pager where
  path := "db"
  file := 0
  log := none
  pageSize := 512
  header := smallHeader
  committed := smallHeader
  cache := { capacity := 0 }
  maxPages := 2
  crashPoint := none

/-- The leaf with the number of another kind, its header with another mark and a fragment with
another byte of data are refused. -/
theorem single_byte_damage_detected_in_leaf :
    (∃ text, ((Pager.read 1).exec smallPager (smallFile.write 0 516 [3])).1 =
      .error (.corrupt text)) ∧
    (∃ e, Header.decode (smallHeader.encode.set 7 0) = .error e) ∧
    ∃ e, Log.Fragment.decode ((Log.Fragment.mk .full [1, 2, 3]).encode.set 8 0) = .error e := by
  have hpage : smallLeaf.image.length = 512 := Page.length_make (by decide) ..
  have hsealed : smallLeaf.sealed.image.length = 512 :=
    (Page.length_sealed (by rw [hpage]; decide)).trans hpage
  refine ⟨?_, ?_, ?_⟩
  · obtain ⟨stored, actual, -, -, h⟩ :=
      single_byte_damage_detected.1 smallLeaf 4 (by decide +kernel) 3 (by decide +kernel)
    refine ⟨_, h smallPager smallFile rfl (by decide) ?_ ?_ hpage ?_⟩
    · exact Std.ExtTreeMap.getElem?_empty
    · exact Std.ExtTreeMap.getElem?_empty
    · have hall : ∀ bs : Bytes,
          (Disk.mk [("db", 0)] #[⟨false, bs.toByteArray, .free⟩]).readAll 0 = bs :=
        Disk.toList_toByteArray
      have hfront : smallHeader.encode.length = 512 := Header.length_encode _
      show smallFile.read 0 512 512 = smallLeaf.sealed.image
      rw [Disk.read_eq_slice, smallFile, hall, slice, List.drop_left' hfront,
        List.take_of_length_le (Nat.le_of_eq hsealed)]
  · exact single_byte_damage_detected.2.1 _ 7 (by rw [Header.length_encode]; decide) 0 (by decide)
      (by decide +kernel)
  · exact single_byte_damage_detected.2.2 _ 8 (by decide) 0 (by decide) (by decide) (by decide)
      (by decide)

end PagedStore
