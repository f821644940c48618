import Mathlib.Tactic.Tauto
import PagedStore.Page.Header
import PagedStore.Proofs.FileContents

/-!
# Page images and the header page

A sealed page verifies, and its payload begins with what was put into it. The header page decodes
to the fields that it was made from, and for that only its first 52 bytes matter, so that a page
that was torn behind them is still a header.
-/

set_option autoImplicit false

namespace PagedStore

open Bytes

namespace Page

/-! ## Sealed pages -/

theorem drop_four_sealed (p : Page) : p.sealed.image.drop 4 = p.image.drop 4 :=
  List.drop_left' (length_ofU32 _)

theorem length_sealed {p : Page} (h : 4 ≤ p.image.length) :
    p.sealed.image.length = p.image.length := by
  rw [sealed, List.length_append, length_ofU32, List.length_drop]
  omega

theorem length_make {size : Nat} (h : frontLength ≤ size) (id : PageId) (k : PageKind)
    (bs : Bytes) : (make id size k bs).image.length = size := by
  rw [make, List.length_append, length_resize]
  exact Nat.add_sub_of_le h

theorem of_fill_eq_ok {id : PageId} {size : Nat} {k : PageKind} {bs : Bytes} {page : Page}
    (h : fill id size k bs = .ok page) :
    bs.length ≤ size - frontLength ∧ page = make id size k bs := by
  unfold fill at h
  split at h
  · rename_i hroom
    exact ⟨hroom, (Except.ok.inj h).symm⟩
  · cases h

theorem of_fill_eq_error {id : PageId} {size : Nat} {k : PageKind} {bs : Bytes} {e : Error}
    (h : fill id size k bs = .error e) : e = .panicked := by
  unfold fill at h
  split at h
  · cases h
  · exact (Except.error.inj h).symm

theorem checksum_sealed (p : Page) : p.sealed.checksum = p.checksum := by
  rw [checksum, drop_four_sealed, checksum]

/-- **Sealing makes a page verify.** -/
theorem verify_sealed (p : Page) : p.sealed.verify = .ok () := by
  have h : p.sealed.stored = p.sealed.checksum := by
    rw [checksum_sealed]
    exact take_four_ofU32 _ _
  rw [verify, if_pos h]

theorem kind_sealed (p : Page) : p.sealed.kind = p.kind := by
  rw [kind, kindTag, drop_four_sealed, kind, kindTag]

theorem payload_sealed (p : Page) : p.sealed.payload = p.payload := by
  show p.sealed.image.drop (4 + 1) = p.image.drop (4 + 1)
  rw [← List.drop_drop, drop_four_sealed, List.drop_drop]

/-- The sealed page of a kind that a payload begins. -/
def blank (id : PageId) (size : Nat) (k : PageKind) (bs : Bytes) : Page := (make id size k bs).sealed

section

variable {id : PageId} {size : Nat} {k : PageKind} {bs : Bytes}

@[simp] theorem kind_blank : (blank id size k bs).kind = .ok k := by
  rw [blank, kind_sealed]
  exact PageKind.ofTag_tag k

@[simp] theorem payload_blank : (blank id size k bs).payload = resize (size - frontLength) bs := by
  rw [blank, payload_sealed]
  rfl

/-- The payload of a page in which everything found room. -/
theorem payload_blank_of_fits (h : bs.length ≤ size - frontLength) :
    (blank id size k bs).payload = bs ++ List.replicate (size - frontLength - bs.length) 0 := by
  rw [payload_blank, resize_of_length_le h]

end

end Page

/-! ## The header page -/

namespace Header

theorem length_body (h : Header) : h.body.length = 48 := rfl

/-- The part of the header page that decoding looks at. -/
def front (h : Header) : Bytes := h.body ++ ofU32 (Checksum.crc32 h.body)

theorem length_front (h : Header) : h.front.length = encodedLength := rfl

theorem take_encode {h : Header} (hp : encodedLength ≤ h.pageSize.toNat) :
    h.encode.take encodedLength = h.front := by
  have hf : (h.body ++ ofU32 (Checksum.crc32 h.body)).length = encodedLength := h.length_front
  rw [encode, resize_of_length_le (by rw [hf]; exact hp), List.take_left' hf, front]

theorem length_encode (h : Header) : h.encode.length = h.pageSize.toNat := length_resize _ _

/-- The fields are where decoding looks for them. -/
theorem decode_front_append (h : Header) (rest : Bytes) : decode (h.front ++ rest) = h.check := by
  have h48 : (h.front ++ rest).take 48 = h.body := by
    rw [front, List.append_assoc, List.take_left' h.length_body]
  have hfields : ∀ (n : UInt32) (m : Nat), ((h.front ++ rest).drop m).take 4 = ofU32 n →
      u32At (h.front ++ rest) m = n := by
    intro n m hm
    rw [u32At, hm, toNatLE_ofU32, UInt32.ofNat_toNat]
  have hwide : ∀ (n : UInt64) (m : Nat), ((h.front ++ rest).drop m).take 8 = ofU64 n →
      u64At (h.front ++ rest) m = n := by
    intro n m hm
    rw [u64At, hm, toNatLE_ofU64, UInt64.ofNat_toNat]
  rw [decode, if_neg, if_neg, hfields version 8 rfl, hfields _ 48 rfl, h48]
  · simp only [ne_eq, not_true_eq_false, if_false, hfields h.pageSize 12 rfl,
      hfields h.pageCount 16 rfl, hfields h.freeHead 20 rfl, hfields h.freeCount 24 rfl,
      hfields h.root 28 rfl, hwide h.recordCount 32 rfl, hwide h.lastTxn 40 rfl]
  · exact fun hne => hne rfl
  · rw [List.length_append, length_front]
    omega

/-- **The header survives its encoding**, also when what follows its fields is lost. -/
theorem decode_of_take {h : Header} {bs : Bytes} (hbs : bs.take encodedLength = h.front) :
    decode bs = h.check := by
  rw [← List.take_append_drop encodedLength bs, hbs, decode_front_append]

theorem check_eq_ok {h h' : Header} : h.check = .ok h' ↔
    h' = h ∧ h.pageSize.toNat ∈ pageSizes ∧ h.pageCount ≠ 0 ∧ h.root < h.pageCount ∧
      h.freeHead < h.pageCount ∧ h.freeCount < h.pageCount := by
  unfold check
  split
  · rename_i hs
    simp [hs]
  · rename_i hs
    split
    · rename_i hr
      simp only [reduceCtorEq, false_iff]
      rintro ⟨-, -, h0, h1, h2, h3⟩
      simp only [← UInt32.not_lt] at hr
      tauto
    · rename_i hr
      simp only [not_or, UInt32.not_le] at hr
      simp only [Except.ok.injEq]
      tauto

/-- What decodes is a header that a file can have. -/
theorem check_of_decode {bs : Bytes} {h : Header} (hd : decode bs = .ok h) : h.check = .ok h := by
  unfold decode at hd
  split at hd
  · cases hd
  split at hd
  · cases hd
  split at hd
  · cases hd
  dsimp only at hd
  split at hd
  · cases hd
  obtain ⟨rfl, hrest⟩ := check_eq_ok.1 hd
  exact check_eq_ok.2 ⟨rfl, hrest⟩

end Header

end PagedStore
