import PagedStore.Proofs.PagerState

/-!
# Headers in byte strings

A byte string is read as a header if and only if the header is one that a file can have and the
string begins with its written form; what stands behind is not looked at, and a string that is too
short for a header is refused before anything in it is.

Reading looks for each field at a place of its own. That these places lie one behind the other is
shown by putting the fields together again: written in their order, the fields that were found give
the front of the string (`take_fields`). So what was read is the header that was written.
-/

set_option autoImplicit false

namespace PagedStore.Header

open Bytes

/-! ## Headers that a file can have -/

/-- A header with a page size of the format that names no page, and counts no more free pages, than
the file can have. -/
structure Possible (h : Header) : Prop where
  pageSize : h.pageSize.toNat ∈ pageSizes
  root : h.root < h.pageCount
  freeHead : h.freeHead < h.pageCount
  freeCount : h.freeCount < h.pageCount

theorem check_eq_ok_self {h : Header} : h.check = .ok h ↔ h.Possible := by
  rw [check_eq_ok]
  constructor
  · rintro ⟨-, hsize, -, hroot, hhead, hcount⟩
    exact ⟨hsize, hroot, hhead, hcount⟩
  · intro hp
    refine ⟨rfl, hp.pageSize, ?_, hp.root, hp.freeHead, hp.freeCount⟩
    -- Nothing is below a page count of zero.
    intro hzero
    have hroot := hp.root
    rw [hzero] at hroot
    exact UInt32.not_lt_zero hroot

/-- The page of a header has room for its written form. -/
theorem Possible.encodedLength_le {h : Header} (hp : h.Possible) :
    encodedLength ≤ h.pageSize.toNat :=
  Nat.le_trans (by decide) (pageSize_bounds hp.pageSize).1

/-! ## The fields of a byte string -/

section

variable {bs front : Bytes} {place : Nat}

theorem take_add_four (hfront : bs.take place = front) (h : place + 4 ≤ bs.length) :
    bs.take (place + 4) = front ++ ofU32 (u32At bs place) := by
  have hfield : ((bs.drop place).take 4).length = 4 := by
    rw [List.length_take, List.length_drop]
    omega
  rw [List.take_add, hfront, u32At, ofU32_ofNat_toNatLE hfield]

theorem take_add_eight (hfront : bs.take place = front) (h : place + 8 ≤ bs.length) :
    bs.take (place + 8) = front ++ ofU64 (u64At bs place) := by
  have hfield : ((bs.drop place).take 8).length = 8 := by
    rw [List.length_take, List.length_drop]
    omega
  rw [List.take_add, hfront, u64At, ofU64_ofNat_toNatLE hfield]

/-- The header whose fields stand at the places where decoding looks for them. -/
def found (bs : Bytes) : Header :=
  ⟨u32At bs 12, u32At bs 16, u32At bs 20, u32At bs 24, u32At bs 28, u64At bs 32, u64At bs 40⟩

/-- **The fields lie one behind the other**, between mark and version and the checksum. -/
theorem take_fields (hmagic : bs.take magic.length = magic) (hversion : u32At bs 8 = version)
    (h : encodedLength ≤ bs.length) :
    bs.take 48 = (found bs).body ∧
      bs.take encodedLength = (found bs).body ++ ofU32 (u32At bs 48) := by
  have hbody : bs.take 48 = (found bs).body := by
    have hlen : 52 ≤ bs.length := h
    have h8 : bs.take 8 = magic := hmagic
    have h12 : bs.take 12 = magic ++ ofU32 version := hversion ▸ take_add_four h8 (by omega)
    have h16 := take_add_four h12 (by omega)
    have h20 := take_add_four h16 (by omega)
    have h24 := take_add_four h20 (by omega)
    have h28 := take_add_four h24 (by omega)
    have h32 := take_add_four h28 (by omega)
    have h40 := take_add_eight h32 (by omega)
    exact take_add_eight h40 (by omega)
  exact ⟨hbody, take_add_four hbody h⟩

end

/-! ## Reading and writing -/

variable {h : Header} {bs : Bytes}

/-- What was read stands in its written form at the front of the string. -/
theorem take_of_decode (hd : decode bs = .ok h) : bs.take encodedLength = h.front := by
  unfold decode at hd
  split at hd
  · cases hd
  rename_i hlen
  split at hd
  · cases hd
  rename_i hmagic
  split at hd
  · cases hd
  rename_i hversion
  dsimp only at hd
  split at hd
  · cases hd
  rename_i hsum
  obtain ⟨hbody, hall⟩ :=
    take_fields (not_not.1 hmagic) (not_not.1 hversion) (Nat.le_of_not_lt hlen)
  obtain rfl : h = found bs := (check_eq_ok.1 hd).1
  rw [hall, front, not_not.1 hsum, hbody]

/-- A string too short for a header is refused for that. -/
theorem decode_of_short (hlen : bs.length < encodedLength) :
    decode bs = .error (.corrupt s!"file header too short: {bs.length} bytes") := if_pos hlen

theorem u32At_take {place n : Nat} (h : place + 4 ≤ n) (bs : Bytes) :
    u32At (bs.take n) place = u32At bs place := by
  rw [u32At, u32At, List.drop_take, List.take_take, Nat.min_eq_left (by omega)]

theorem u64At_take {place n : Nat} (h : place + 8 ≤ n) (bs : Bytes) :
    u64At (bs.take n) place = u64At bs place := by
  rw [u64At, u64At, List.drop_take, List.take_take, Nat.min_eq_left (by omega)]

/-- Decoding looks at the first 52 bytes only. -/
theorem decode_take (hlen : encodedLength ≤ bs.length) :
    decode (bs.take encodedLength) = decode bs := by
  have h32 : ∀ place, place + 4 ≤ encodedLength →
      u32At (bs.take encodedLength) place = u32At bs place := fun place h => u32At_take h bs
  have h64 : ∀ place, place + 8 ≤ encodedLength →
      u64At (bs.take encodedLength) place = u64At bs place := fun place h => u64At_take h bs
  have htake : ∀ n, n ≤ encodedLength → (bs.take encodedLength).take n = bs.take n := fun n hn => by
    rw [List.take_take, Nat.min_eq_left hn]
  have hfull : (bs.take encodedLength).length = encodedLength := List.length_take_of_le hlen
  rw [decode, decode, if_neg (Nat.not_lt.2 hfull.ge), if_neg (Nat.not_lt.2 hlen),
    htake 48 (by decide), htake magic.length (by decide), h32 8 (by decide), h32 48 (by decide),
    h32 12 (by decide), h32 16 (by decide), h32 20 (by decide), h32 24 (by decide),
    h32 28 (by decide), h64 32 (by decide), h64 40 (by decide)]

/-- What stands behind a header is not looked at. -/
theorem decode_take_append (hlen : encodedLength ≤ bs.length) (more : Bytes) :
    decode (bs.take encodedLength ++ more) = decode bs := by
  have hfull : (bs.take encodedLength).length = encodedLength := List.length_take_of_le hlen
  have hlong : encodedLength ≤ (bs.take encodedLength ++ more).length := by
    rw [List.length_append, hfull]
    exact Nat.le_add_right _ _
  rw [← decode_take hlen, ← decode_take hlong, List.take_left' hfull]

/-- A header that a file can have is decoded from every string that begins with its written
form. -/
theorem decode_eq_ok_iff :
    decode bs = .ok h ↔ h.Possible ∧ bs.take encodedLength = h.encode.take encodedLength := by
  constructor
  · intro hd
    have hp := check_eq_ok_self.1 (check_of_decode hd)
    exact ⟨hp, (take_of_decode hd).trans (take_encode hp.encodedLength_le).symm⟩
  · rintro ⟨hp, htake⟩
    rw [take_encode hp.encodedLength_le] at htake
    rw [decode_of_take htake, check_eq_ok_self.2 hp]

/-! ## The main result -/

/-- **Headers are written and read exactly.** A header that a file can have fills its page, and is
read back from any front of that page that holds its 52 bytes. From any byte string a header is
read if and only if a file can have it and the first 52 bytes of the string are those of its page.
A string of less than 52 bytes is refused whatever its bytes are, and otherwise the first 52 bytes
alone decide what is read or refused, whatever stands behind them. -/
theorem headers_read_exactly :
    (∀ h : Header, h.Possible → h.encode.length = h.pageSize.toNat ∧
      ∀ n, encodedLength ≤ n → decode (h.encode.take n) = .ok h) ∧
    (∀ (bs : Bytes) (h : Header), decode bs = .ok h ↔
      h.Possible ∧ bs.take encodedLength = h.encode.take encodedLength) ∧
    (∀ bs : Bytes, bs.length < encodedLength →
      decode bs = .error (.corrupt s!"file header too short: {bs.length} bytes")) ∧
    ∀ bs more : Bytes, encodedLength ≤ bs.length →
      decode (bs.take encodedLength ++ more) = decode bs := by
  refine ⟨fun h hp => ⟨h.length_encode, fun n hn => ?_⟩, fun bs h => decode_eq_ok_iff,
    fun bs => decode_of_short, fun bs more hlen => decode_take_append hlen more⟩
  rw [decode_eq_ok_iff, List.take_take, Nat.min_eq_left hn]
  exact ⟨hp, rfl⟩

/-- The header of a file of ten pages, two of them free. -/
def tenPages : Header := ⟨4096, 10, 7, 2, 4, 99, 12⟩

theorem headers_read_exactly_ten_pages :
    tenPages.encode.length = 4096 ∧ decode (tenPages.encode.take 60) = .ok tenPages ∧
      decode (tenPages.encode.take 51) = .error (.corrupt "file header too short: 51 bytes") ∧
      decode (tenPages.encode.take encodedLength ++ [255]) = .ok tenPages := by
  have hpossible : tenPages.Possible := ⟨by decide, by decide, by decide, by decide⟩
  obtain ⟨hwritten, hread, hshort, hbehind⟩ := headers_read_exactly
  obtain ⟨hlen, hback⟩ := hwritten tenPages hpossible
  refine ⟨hlen, hback 60 (by decide), ?_, ?_⟩
  · have hcut : (tenPages.encode.take 51).length = 51 := by
      rw [List.length_take, hlen]
      decide
    rw [hshort _ (by rw [hcut]; decide), hcut]
    rfl
  · rw [hbehind _ _ (by rw [hlen]; decide)]
    exact (hread _ _).2 ⟨hpossible, rfl⟩

end PagedStore.Header
