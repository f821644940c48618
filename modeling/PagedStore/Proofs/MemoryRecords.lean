import Mathlib.Data.List.Nodup
import PagedStore.Proofs.DatabaseLife

/-!
# Records in memory

The records of a store in memory are in the order of their serial numbers, and its index leads from
each key to the number of its record and to no other (`Sound`). So a key has one place in the list
at most: what follows it and what precedes it there are its neighbours, and erasing it takes it out
of the list. Every operation leaves a store so, and with it the copy that a transaction keeps.
-/

set_option autoImplicit false

namespace PagedStore

open PagedStore.Action

namespace Memory

/-! ## Contents -/

namespace Contents

/-- The records without their serial numbers. -/
def entries (c : Contents) : List (Bytes × Bytes) := c.records.map (·.2)

/-- The records are in the order of their numbers, and the index describes them. -/
structure Sound (c : Contents) : Prop where
  ordered : c.records.Pairwise fun r s => r.1 < s.1
  below : ∀ r ∈ c.records, r.1 < c.nextSerial
  index_iff : ∀ key serial,
    c.index[key]? = some serial ↔ ∃ value, (serial, key, value) ∈ c.records

theorem sound_empty : Sound {} where
  ordered := .nil
  below := by simp
  index_iff := by simp

section

variable {c : Contents} {key value : Bytes} {serial : Nat} {r s : Nat × Bytes × Bytes}
  {xs ys : List (Bytes × Bytes)}

/-- No two records have the same number. -/
theorem Sound.eq_of_serial (h : c.Sound) (hr : r ∈ c.records) (hs : s ∈ c.records)
    (heq : r.1 = s.1) : r = s := by
  have hnodup : (c.records.map (·.1)).Nodup := (List.pairwise_map.2 h.ordered).imp Nat.ne_of_lt
  exact List.inj_on_of_nodup_map hnodup hr hs heq

/-- A new value stands in the place of the old one. -/
theorem Sound.replaced (h : c.Sound) (hindex : c.index[key]? = some serial) (value : Bytes) :
    Sound { c with
      records := c.records.map fun r => if r.1 = serial then (r.1, r.2.1, value) else r } := by
  obtain ⟨old, hold⟩ := (h.index_iff key serial).1 hindex
  have hserial : ∀ r : Nat × Bytes × Bytes,
      (if r.1 = serial then (r.1, r.2.1, value) else r).1 = r.1 := by
    intro r
    split <;> rfl
  refine ⟨?_, fun s hs => ?_, fun k n => (h.index_iff k n).trans ⟨?_, ?_⟩⟩
  · simp only [List.pairwise_map, hserial]
    exact h.ordered
  · obtain ⟨r, hr, rfl⟩ := List.mem_map.1 hs
    rw [hserial]
    exact h.below r hr
  · rintro ⟨v, hv⟩
    by_cases hn : n = serial
    · -- The number belongs to the record that is replaced.
      cases h.eq_of_serial hv hold hn
      exact ⟨value, List.mem_map.2 ⟨_, hold, if_pos rfl⟩⟩
    · exact ⟨v, List.mem_map.2 ⟨_, hv, if_neg hn⟩⟩
  · rintro ⟨v, hv⟩
    obtain ⟨⟨n', k', v'⟩, hr, heq⟩ := List.mem_map.1 hv
    by_cases hn : n' = serial
    · rw [if_pos hn] at heq
      cases heq
      exact ⟨v', hr⟩
    · rw [if_neg hn] at heq
      exact ⟨v, heq ▸ hr⟩

/-- The place of the next number is at the end, since it is above all others. -/
theorem Sound.placed_eq (h : c.Sound) (e : Bytes × Bytes) :
    placed c.records (c.nextSerial, e) = c.records ++ [(c.nextSerial, e)] := by
  have hall : (c.records.takeWhile fun s => decide (s.1 < c.nextSerial)) = c.records :=
    List.takeWhile_eq_self_iff.2 fun s hs => decide_eq_true (h.below s hs)
  have hnone : (c.records.dropWhile fun s => decide (s.1 ≤ c.nextSerial)) = [] :=
    List.dropWhile_eq_nil_iff.2 fun s hs => decide_eq_true (h.below s hs).le
  rw [placed]
  dsimp only
  rw [hall, hnone]

/-- A new key is given a number above all others, and a place at the end. -/
theorem Sound.added (h : c.Sound) (hindex : c.index[key]? = none) (value : Bytes) :
    Sound {
      records := placed c.records (c.nextSerial, key, value)
      index := c.index.insert key c.nextSerial
      nextSerial := c.nextSerial + 1 } := by
  rw [h.placed_eq]
  have hnew : ∀ n v, (n, key, v) ∉ c.records := by
    intro n v hv
    have hsome := (h.index_iff key n).2 ⟨v, hv⟩
    rw [hindex] at hsome
    cases hsome
  refine ⟨?_, fun r hr => ?_, fun k n => ?_⟩
  · refine List.pairwise_append.2 ⟨h.ordered, List.pairwise_singleton .., fun r hr s hs => ?_⟩
    obtain rfl := List.mem_singleton.1 hs
    exact h.below r hr
  · rcases List.mem_append.1 hr with hr | hr
    · exact Nat.lt_succ_of_lt (h.below r hr)
    · obtain rfl := List.mem_singleton.1 hr
      exact Nat.lt_succ_self _
  · simp only [Std.ExtTreeMap.getElem?_insert, List.mem_append, List.mem_singleton]
    by_cases hk : key = k
    · subst hk
      rw [if_pos (compare_eq_eq.2 rfl)]
      constructor
      · rintro ⟨⟩
        exact ⟨value, .inr rfl⟩
      · rintro ⟨v, hv | hv⟩
        · exact absurd hv (hnew n v)
        · cases hv
          rfl
    · rw [if_neg (fun heq => hk (compare_eq_eq.1 heq)), h.index_iff]
      constructor
      · rintro ⟨v, hv⟩
        exact ⟨v, .inl hv⟩
      · rintro ⟨v, hv | hv⟩
        · exact ⟨v, hv⟩
        · cases hv
          exact absurd rfl hk

theorem Sound.put (h : c.Sound) (key value : Bytes) : (c.put key value).Sound := by
  rw [Contents.put]
  cases hindex : c.index[key]? with
  | some serial => exact h.replaced hindex value
  | none => exact h.added hindex value

theorem Sound.erase (h : c.Sound) (key : Bytes) : (c.erase key).2.Sound := by
  rw [Contents.erase]
  cases hindex : c.index[key]? with
  | none => exact h
  | some serial =>
      obtain ⟨old, hold⟩ := (h.index_iff key serial).1 hindex
      have hkept : ∀ {r}, r ∈ c.records.filter (fun r => r.1 ≠ serial) ↔
          r ∈ c.records ∧ r.1 ≠ serial := by simp
      refine ⟨h.ordered.filter _, fun r hr => h.below r (hkept.1 hr).1, fun k n => ?_⟩
      simp only [Std.ExtTreeMap.getElem?_erase, hkept]
      by_cases hk : key = k
      · subst hk
        rw [if_pos (compare_eq_eq.2 rfl)]
        constructor
        · rintro ⟨⟩
        · rintro ⟨v, hv, hn⟩
          -- The index leads to one record of a key only.
          have hsame := (h.index_iff key n).2 ⟨v, hv⟩
          rw [hindex] at hsame
          exact absurd (Option.some.inj hsame).symm hn
      · rw [if_neg (fun heq => hk (compare_eq_eq.1 heq)), h.index_iff]
        constructor
        · rintro ⟨v, hv⟩
          refine ⟨v, hv, fun hn => ?_⟩
          cases h.eq_of_serial hv hold hn
          exact hk rfl
        · rintro ⟨v, hv, -⟩
          exact ⟨v, hv⟩

/-! ## The place of a key -/

/-- A list of records cut at the record of a key. -/
structure Cut (c : Contents) (key : Bytes) (xs ys : List (Bytes × Bytes)) (serial : Nat)
    (before after : List (Nat × Bytes × Bytes)) (value : Bytes) : Prop where
  eq : c.records = before ++ (serial, key, value) :: after
  before_eq : before.map (·.2) = xs
  after_eq : after.map (·.2) = ys
  less : ∀ r ∈ before, r.1 < serial
  greater : ∀ r ∈ after, serial < r.1
  indexed : c.index[key]? = some serial

theorem Sound.exists_cut (h : c.Sound) (he : c.entries = xs ++ (key, value) :: ys) :
    ∃ serial before after, Cut c key xs ys serial before after value := by
  obtain ⟨before, rest, hrecords, hbefore, hrest⟩ := List.map_eq_append_iff.1 he
  obtain ⟨⟨serial, k, v⟩, after, rfl, hr, hafter⟩ := List.map_eq_cons_iff.1 hrest
  cases hr
  have hordered := h.ordered
  rw [hrecords] at hordered
  obtain ⟨-, hmiddle, hless⟩ := List.pairwise_append.1 hordered
  refine ⟨serial, before, after, hrecords, hbefore, hafter, fun r hr => ?_,
    (List.pairwise_cons.1 hmiddle).1, ?_⟩
  · exact hless r hr _ List.mem_cons_self
  · exact (h.index_iff key serial).2 ⟨value, by simp [hrecords]⟩

/-- The record after that of a key is the one that follows it in the list. -/
theorem Sound.next?_eq (h : c.Sound) (he : c.entries = xs ++ (key, value) :: ys) :
    c.next? key = ys.head? := by
  obtain ⟨serial, before, after, hcut⟩ := h.exists_cut he
  have hbefore : (before.find? fun r => decide (serial < r.1)) = none :=
    List.find?_eq_none.2 fun r hr => by simpa using (hcut.less r hr).le
  have hafter : (after.find? fun r => decide (serial < r.1)) = after.head? := by
    cases after with
    | nil => rfl
    | cons r after =>
        exact List.find?_cons_of_pos (by simpa using hcut.greater r List.mem_cons_self)
  rw [Contents.next?, hcut.indexed, hcut.eq]
  simp [List.find?_append, hbefore, hafter, ← hcut.after_eq, List.head?_map, Option.map_eq_bind]

/-- The record before that of a key is the one that precedes it in the list. -/
theorem Sound.prev?_eq (h : c.Sound) (he : c.entries = xs ++ (key, value) :: ys) :
    c.prev? key = xs.getLast? := by
  obtain ⟨serial, before, after, hcut⟩ := h.exists_cut he
  have hbefore : ((before ++ (serial, key, value) :: after).takeWhile fun r =>
      decide (r.1 < serial)) = before := by
    rw [List.takeWhile_append_of_pos (by simpa using hcut.less)]
    simp
  rw [Contents.prev?, hcut.indexed, hcut.eq]
  simp [hbefore, ← hcut.before_eq, List.getLast?_map, Option.map_eq_bind]

/-- Erasing a key takes its record out of the list. -/
theorem Sound.erase_eq (h : c.Sound) (he : c.entries = xs ++ (key, value) :: ys) :
    (c.erase key).1 = true ∧ (c.erase key).2.entries = xs ++ ys := by
  obtain ⟨serial, before, after, hcut⟩ := h.exists_cut he
  rw [Contents.erase, hcut.indexed]
  refine ⟨rfl, ?_⟩
  have hbefore : (before.filter fun r => decide (r.1 ≠ serial)) = before :=
    List.filter_eq_self.2 fun r hr => by simpa using (hcut.less r hr).ne
  have hafter : (after.filter fun r => decide (r.1 ≠ serial)) = after :=
    List.filter_eq_self.2 fun r hr => by simpa using (hcut.greater r hr).ne'
  rw [entries]
  dsimp only
  rw [hcut.eq, List.filter_append, List.filter_cons_of_neg (by simp), hbefore, hafter,
    List.map_append, hcut.before_eq, hcut.after_eq]

/-- Putting a key that is there replaces its value. -/
theorem Sound.put_eq (h : c.Sound) {old : Bytes} (he : c.entries = xs ++ (key, old) :: ys)
    (value : Bytes) : (c.put key value).entries = xs ++ (key, value) :: ys := by
  obtain ⟨serial, before, after, hcut⟩ := h.exists_cut he
  let replace (r : Nat × Bytes × Bytes) := if r.1 = serial then (r.1, r.2.1, value) else r
  have hbefore : before.map replace = before :=
    (List.map_congr_left fun r hr => if_neg (hcut.less r hr).ne).trans (List.map_id before)
  have hafter : after.map replace = after :=
    (List.map_congr_left fun r hr => if_neg (hcut.greater r hr).ne').trans (List.map_id after)
  have hrecords : (c.put key value).records = c.records.map replace := by
    rw [Contents.put, hcut.indexed]
  rw [entries, hrecords, hcut.eq, List.map_append, List.map_cons, hbefore, hafter, List.map_append,
    List.map_cons, hcut.before_eq, hcut.after_eq]
  simp only [replace, if_pos]

/-- Putting a key that is not there adds it at the end. -/
theorem Sound.put_eq_of_none (h : c.Sound) (hindex : c.index[key]? = none) (value : Bytes) :
    (c.put key value).entries = c.entries ++ [(key, value)] := by
  rw [Contents.put, hindex, entries]
  dsimp only
  rw [h.placed_eq, List.map_append]
  rfl

/-- No other record has the key. -/
theorem Sound.ne_of_mem (h : c.Sound) (he : c.entries = xs ++ (key, value) :: ys)
    {e : Bytes × Bytes} (hmem : e ∈ xs ++ ys) : e.1 ≠ key := by
  obtain ⟨serial, before, after, hcut⟩ := h.exists_cut he
  rw [← hcut.before_eq, ← hcut.after_eq, ← List.map_append] at hmem
  obtain ⟨⟨n, k, v⟩, hr, rfl⟩ := List.mem_map.1 hmem
  rintro rfl
  have hin : (n, k, v) ∈ c.records := by
    rw [hcut.eq]
    rcases List.mem_append.1 hr with hr | hr <;> simp [hr]
  have hindexed := (h.index_iff k n).2 ⟨v, hin⟩
  rw [hcut.indexed] at hindexed
  obtain rfl := Option.some.inj hindexed
  rcases List.mem_append.1 hr with hr | hr
  · exact Nat.lt_irrefl _ (hcut.less _ hr)
  · exact Nat.lt_irrefl _ (hcut.greater _ hr)

/-- The value of a key is that of its record. -/
theorem Sound.record?_eq_some_iff (h : c.Sound) :
    (c.record? key).map (·.2) = some value ↔ (key, value) ∈ c.entries := by
  constructor
  · intro hfound
    obtain ⟨r, hrecord, rfl⟩ := Option.map_eq_some_iff.1 hfound
    obtain ⟨serial, hindex, hlookup⟩ := Option.bind_eq_some_iff.1 hrecord
    obtain ⟨before, after, hrecords, -⟩ := List.lookup_eq_some_iff.1 hlookup
    obtain ⟨v, hmem⟩ := (h.index_iff key serial).1 hindex
    have hin : (serial, r) ∈ c.records := by simp [hrecords]
    cases h.eq_of_serial hin hmem rfl
    exact List.mem_map.2 ⟨_, hmem, rfl⟩
  · intro hmem
    obtain ⟨xs, ys, he⟩ := List.append_of_mem hmem
    obtain ⟨serial, before, after, hcut⟩ := h.exists_cut he
    have hlookup : c.records.lookup serial = some (key, value) :=
      List.lookup_eq_some_iff.2
        ⟨before, after, hcut.eq, fun r hr => bne_iff_ne.2 (hcut.less r hr).ne'⟩
    rw [Contents.record?, hcut.indexed]
    simp only [Option.bind_eq_bind, Option.bind_some, hlookup, Option.map_some]

/-- A key without a record is not in the index. -/
theorem Sound.index_eq_none (h : c.Sound) (hno : ∀ e ∈ c.entries, e.1 ≠ key) :
    c.index[key]? = none := by
  rw [Option.eq_none_iff_forall_ne_some]
  intro serial hindex
  obtain ⟨value, hmem⟩ := (h.index_iff key serial).1 hindex
  exact hno (key, value) (List.mem_map.2 ⟨_, hmem, rfl⟩) rfl

end

end Contents

/-! ## Stores -/

/-- The records of a store, and those that it keeps a copy of, are sound. -/
structure Sound (m : Memory) : Prop where
  contents : m.contents.Sound
  snapshot : ∀ c, m.snapshot = some c → c.Sound

variable {m : Memory}

theorem sound_empty : Sound {} := ⟨Contents.sound_empty, nofun⟩

theorem Sound.put (h : m.Sound) (key value : Bytes) : (m.put key value).Sound :=
  ⟨h.contents.put key value, h.snapshot⟩

theorem Sound.erase (h : m.Sound) (key : Bytes) : (m.erase key).2.Sound :=
  ⟨h.contents.erase key, h.snapshot⟩

theorem Sound.begin (h : m.Sound) : m.begin.Sound := by
  refine ⟨h.contents, ?_⟩
  rintro c ⟨⟩
  exact h.contents

theorem Sound.commit (h : m.Sound) : m.commit.Sound := ⟨h.contents, nofun⟩

theorem Sound.rollback (h : m.Sound) : m.rollback.Sound := by
  rw [Memory.rollback]
  cases hcopy : m.snapshot with
  | none => exact h
  | some c => exact ⟨h.snapshot c hcopy, fun _ hnone => by cases hnone⟩

end Memory

/-! ## Engines -/

namespace Engine

/-- A store in memory whose records are sound. -/
inductive InMemory : Engine → Disk → Prop where
  | memory {m : Memory} (h : m.Sound) (d : Disk) : InMemory (.memory m) d

theorem keeps_inMemory {α : Type} {tree : Compression → Action Pager α}
    {memory : Memory → α × Memory} (h : ∀ {m}, m.Sound → (memory m).2.Sound) :
    Keeps InMemory (either tree memory) := by
  rintro e d ⟨hm, -⟩
  exact .memory (h hm) d

/-- **Every operation leaves the records in memory sound.** -/
theorem invariant_inMemory [Codec] (readOnly : Bool) : Invariant readOnly InMemory where
  get _ := keeps_inMemory id
  put key value _ := keeps_inMemory fun h => h.put key value
  append key _ _ := keeps_inMemory fun h => h.put key _
  delete key _ := keeps_inMemory fun h => h.erase key
  seek _ _ := keeps_inMemory id
  first := keeps_inMemory id
  last := keeps_inMemory id
  next _ := keeps_inMemory id
  prev _ := keeps_inMemory id
  begin _ := keeps_inMemory fun h => h.begin
  commit _ := keeps_inMemory fun h => h.commit
  rollback _ := keeps_inMemory fun h => h.rollback
  close := keeps_inMemory id
  setCacheCapacity _ := keeps_inMemory id

end Engine

end PagedStore
