import Mathlib.Data.List.Induction
import PagedStore.Proofs.LogFrames

/-!
# What recovery finds in the log of one transaction

The log of a transaction ends with its mark of completion. As long as a part of the mark is
missing the transaction is not found, and otherwise it is, with its header and all its pages in
the order of the log.
-/

set_option autoImplicit false

namespace PagedStore.Log

open Bytes

/-! ## Entries -/

namespace Entry

/-- Whether the images of an entry are shorter than any length that cannot be written. -/
def Writable : Entry → Prop
  | page _ image => image.length < 2 ^ 64
  | header image => image.length < 2 ^ 64
  | _ => True

theorem encode_ne_nil (e : Entry) : e.encode ≠ [] := by
  cases e <;> simp [encode, ofU32, ofNatLE]

theorem readImage?_encodeImage {image : Bytes} (h : image.length < 2 ^ 64) :
    readImage? (encodeImage image) = some image := by
  have hlen : (UInt64.ofNat image.length).toNat = image.length := UInt64.toNat_ofNat_of_lt' h
  have htake := take?_append_of_length hlen.symm ([] : Bytes)
  rw [List.append_nil] at htake
  rw [readImage?, encodeImage, u64?_ofU64]
  show (take? _ image >>= _) = _
  rw [htake]
  rfl

theorem decode_encode {e : Entry} (h : e.Writable) : decode e.encode = .ok e := by
  cases e with
  | begin txn =>
      have hread := u64?_ofU64 txn []
      rw [List.append_nil] at hread
      rw [encode, decode, u32?_ofU32]
      simp only [readFields?, hread]
      rfl
  | page id image =>
      rw [encode, List.append_assoc, decode, u32?_ofU32]
      simp only [readFields?, u32?_ofU32, bind, Option.bind, readImage?_encodeImage h]
      rfl
  | header image =>
      rw [encode, decode, u32?_ofU32]
      simp only [readFields?, bind, Option.bind, readImage?_encodeImage h]
      rfl
  | commit txn pages =>
      have hread := u32?_ofU32 pages []
      rw [List.append_nil] at hread
      rw [encode, List.append_assoc, decode, u32?_ofU32]
      simp only [readFields?, u64?_ofU64, bind, Option.bind, hread]
      rfl

end Entry

/-! ## The walk over the entries -/

namespace Scan

theorem run_map_encode {es : List Entry} (h : ∀ e ∈ es, e.Writable) (s : Scan) :
    s.run (es.map Entry.encode) = es.foldl step s := by
  induction es generalizing s with
  | nil => rfl
  | cons e es ih =>
      rw [List.map_cons, run, Entry.decode_encode (h e List.mem_cons_self)]
      exact ih (fun x hx => h x (List.mem_cons_of_mem _ hx)) (s.step e)

/-- Whether an entry is a mark of completion. -/
def IsMark : Entry → Prop
  | .commit .. => True
  | _ => False

/-- Only a mark of completion adds to what has been found. -/
theorem committed_step {e : Entry} (h : ¬ IsMark e) (s : Scan) :
    (s.step e).found.committed = s.found.committed := by
  cases e with
  | begin txn => cases hp : s.pending <;> simp [step, hp, discard]
  | page id image => cases hp : s.pending <;> simp [step, hp, discard]
  | header image => cases hp : s.pending <;> simp [step, hp, discard]
  | commit txn pages => exact absurd trivial h

theorem committed_foldl {es : List Entry} (h : ∀ e ∈ es, ¬ IsMark e) (s : Scan) :
    (es.foldl step s).found.committed = s.found.committed := by
  induction es generalizing s with
  | nil => rfl
  | cons e es ih =>
      rw [List.foldl_cons, ih fun x hx => h x (List.mem_cons_of_mem _ hx),
        committed_step (h e List.mem_cons_self)]

/-- Page entries are collected in order. -/
theorem foldl_pages (pages : List (UInt32 × Bytes)) {s : Scan} {t : Transaction}
    (h : s.pending = some t) :
    ∃ n, (pages.map fun p => Entry.page p.1 p.2).foldl step s =
      { s with pending := some { t with pages := t.pages ++ pages }, unsettled := n } := by
  induction pages generalizing s t with
  | nil => exact ⟨s.unsettled, by simp [← h]⟩
  | cons p pages ih =>
      obtain ⟨n, hn⟩ := ih (s := s.step (.page p.1 p.2))
        (t := { t with pages := t.pages ++ [p] }) (by simp [step, h])
      refine ⟨n, ?_⟩
      rw [List.map_cons, List.foldl_cons, hn]
      simp [step, h]

end Scan

/-! ## One transaction -/

namespace Transaction

/-- The entries of a transaction without its mark. -/
def entries (t : Transaction) : List Entry :=
  .begin t.txn :: t.pages.map (fun p => .page p.1 p.2) ++ [.header t.header]

/-- The mark that completes a transaction. -/
def mark (t : Transaction) : Entry := .commit t.txn (UInt32.ofNat t.pages.length)

/-- The bytes that the log holds of a transaction. -/
def logged (t : Transaction) : Bytes := (t.entries ++ [t.mark]).flatMap fun e => frame e.encode

/-- Whether a transaction can be written as one: it has a header, no image is too long, and there
are not too many pages to be counted. -/
structure Loggable (t : Transaction) : Prop where
  header_ne : t.header ≠ []
  header_lt : t.header.length < 2 ^ 64
  page_lt : ∀ p ∈ t.pages, p.2.length < 2 ^ 64
  count_lt : t.pages.length < 2 ^ 32

variable {t : Transaction}

theorem not_isMark_of_mem {e : Entry} (h : e ∈ t.entries) : ¬ Scan.IsMark e := by
  simp only [entries, List.cons_append, List.mem_cons, List.mem_append, List.mem_map,
    List.not_mem_nil, or_false] at h
  rcases h with rfl | ⟨p, -, rfl⟩ | rfl <;> exact id

theorem Loggable.writable (h : t.Loggable) : ∀ e ∈ t.entries ++ [t.mark], e.Writable := by
  intro e he
  simp only [entries, List.cons_append, List.mem_cons, List.mem_append, List.mem_map,
    List.not_mem_nil, or_false] at he
  rcases he with rfl | (⟨p, hp, rfl⟩ | rfl) | rfl
  · trivial
  · exact h.page_lt p hp
  · exact h.header_lt
  · trivial

theorem Loggable.completes (h : t.Loggable) :
    Scan.completes t t.txn (UInt32.ofNat t.pages.length) = true := by
  rw [Scan.completes, UInt32.toNat_ofNat_of_lt' h.count_lt]
  simp [h.header_ne]

/-- All entries of a transaction make it a complete one. -/
theorem Loggable.foldl_step (h : t.Loggable) :
    ((t.entries ++ [t.mark]).foldl Scan.step {}).found.committed = [t] := by
  obtain ⟨n, hn⟩ := Scan.foldl_pages t.pages (s := Scan.step {} (.begin t.txn)) rfl
  have hfold : t.entries.foldl Scan.step {} =
      ⟨{}, some ⟨t.txn, t.header, t.pages⟩, n + 1⟩ := by
    rw [entries, List.cons_append, List.foldl_cons, List.foldl_append, hn]
    rfl
  rw [List.foldl_append, hfold, List.foldl_cons, List.foldl_nil, mark]
  show (Scan.step ⟨{}, some t, n + 1⟩ (.commit _ _)).found.committed = _
  simp only [Scan.step, h.completes, if_true, List.nil_append]

end Transaction

theorem recover_eq (log : Bytes) :
    (recover log).committed = (Scan.run {} (records log)).found.committed := rfl

/-- **A transaction is found exactly if all of its log is there.** -/
theorem committed_recover_take {t : Transaction} (h : t.Loggable) (k : Nat) :
    (recover (t.logged.take k)).committed = if t.logged.length ≤ k then [t] else [] := by
  have hflat : t.logged = ((t.entries ++ [t.mark]).map Entry.encode).flatMap frame := by
    rw [List.flatMap_map]
    rfl
  have hne : ∀ bs ∈ (t.entries ++ [t.mark]).map Entry.encode, bs ≠ [] := by
    intro bs hbs
    obtain ⟨e, -, rfl⟩ := List.mem_map.1 hbs
    exact e.encode_ne_nil
  obtain ⟨j, -, hj, hfit⟩ := readAll_take _ hne k 0
  have hwhole := hfit _ (Nat.le_refl _)
  rw [List.take_length, ← hflat] at hwhole
  rw [← hflat] at hj
  have hrun : ∀ es : List Entry, (∀ e ∈ es, e ∈ t.entries ++ [t.mark]) →
      Scan.run {} (es.map Entry.encode) = es.foldl Scan.step {} := fun es hes =>
    Scan.run_map_encode (fun e he => h.writable e (hes e he)) {}
  rw [recover_eq, records, hj, ← List.map_take]
  rw [hrun _ fun e he => List.mem_of_mem_take he]
  split
  · rename_i hk
    have hall := hwhole.2 hk
    rw [List.length_map] at hall
    rw [List.take_of_length_le hall]
    exact h.foldl_step
  · rename_i hk
    -- Without the last entry there is no mark among what was read.
    have hjlt := Nat.lt_of_not_le fun hall => hk (hwhole.1 hall)
    rw [List.length_map, List.length_append, List.length_singleton] at hjlt
    rw [List.take_append_of_le_length (by omega)]
    exact Scan.committed_foldl
      (fun e he => Transaction.not_isMark_of_mem (List.mem_of_mem_take he)) {}

theorem recover_nil : (recover []).committed = [] := by
  rw [recover_eq, records, Reader.readAll_of_ends (Reader.ends_next_nil 0)]
  rfl

end PagedStore.Log
