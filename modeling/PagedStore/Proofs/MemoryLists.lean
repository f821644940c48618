import PagedStore.Proofs.Histories
import PagedStore.Proofs.MemoryRecords

/-!
# Records in memory as a list

Seen as a whole, a store in memory is a list of records with distinct keys (`KeyedList`): a key that
is there is given its new value in its place, a new key goes to the end, and a transaction keeps a
copy of the list that a rollback returns to. The serial numbers, the index and the counter, by which
the store brings this about, are not seen.
-/

set_option autoImplicit false

namespace PagedStore

/-- Records with distinct keys. -/
structure KeyedList where
  records : List (Bytes × Bytes)
  distinct : (records.map (·.1)).Nodup

namespace KeyedList

/-- No records. -/
def empty : KeyedList := ⟨[], List.nodup_nil⟩

/-- The value of a key. -/
def value? (l : KeyedList) (key : Bytes) : Option Bytes := l.records.lookup key

/-- A list with a new value for a key, in its place. -/
def replaced (records : List (Bytes × Bytes)) (key value : Bytes) : List (Bytes × Bytes) :=
  records.map fun e => if e.1 = key then (key, value) else e

theorem keys_replaced (records : List (Bytes × Bytes)) (key value : Bytes) :
    (replaced records key value).map (·.1) = records.map (·.1) := by
  rw [replaced, List.map_map]
  refine List.map_congr_left fun e _ => ?_
  show (if e.1 = key then (key, value) else e).1 = e.1
  split
  · exact Eq.symm ‹_›
  · rfl

/-- Stores a value under a key: in the place of the old one, or at the end. -/
def put (l : KeyedList) (key value : Bytes) : KeyedList :=
  if h : key ∈ l.records.map (·.1) then
    ⟨replaced l.records key value, (keys_replaced l.records key value).symm ▸ l.distinct⟩
  else
    ⟨l.records ++ [(key, value)], by
      rw [List.map_append]
      exact l.distinct.append (List.nodup_singleton key) (by simpa using h)⟩

/-- Adds to the end of the value of a key; a key that is not there is put at the end of the list. -/
def append (l : KeyedList) (key value : Bytes) : KeyedList :=
  match l.value? key with
  | some old => l.put key (old ++ value)
  | none => l.put key value

/-- Takes away a key. -/
def erase (l : KeyedList) (key : Bytes) : KeyedList :=
  ⟨l.records.filter (·.1 ≠ key), l.distinct.sublist (List.filter_sublist.map _)⟩

section

variable {l : KeyedList} {key value old : Bytes} {xs ys : List (Bytes × Bytes)}

/-- No other record has the key. -/
theorem ne_of_mem (h : l.records = xs ++ (key, old) :: ys) {e : Bytes × Bytes}
    (he : e ∈ xs ++ ys) : e.1 ≠ key := by
  have hdistinct := l.distinct
  rw [h, List.map_append, List.map_cons, List.nodup_middle, List.nodup_cons,
    ← List.map_append] at hdistinct
  rintro rfl
  exact hdistinct.1 (List.mem_map.2 ⟨e, he, rfl⟩)

theorem value?_eq_some_iff : l.value? key = some value ↔ (key, value) ∈ l.records := by
  rw [value?, List.lookup_eq_some_iff]
  constructor
  · rintro ⟨xs, ys, h, -⟩
    simp [h]
  · intro hmem
    obtain ⟨xs, ys, h⟩ := List.append_of_mem hmem
    refine ⟨xs, ys, h, fun e he => bne_iff_ne.2 ?_⟩
    exact (ne_of_mem h (List.mem_append_left _ he)).symm

theorem value?_eq_none_iff : l.value? key = none ↔ ∀ e ∈ l.records, e.1 ≠ key := by
  rw [Option.eq_none_iff_forall_ne_some]
  simp only [ne_eq, value?_eq_some_iff]
  exact ⟨fun h e he heq => h e.2 (heq ▸ he), fun h value he => h _ he rfl⟩

theorem records_put (h : l.records = xs ++ (key, old) :: ys) (value : Bytes) :
    (l.put key value).records = xs ++ (key, value) :: ys := by
  have hmem : key ∈ l.records.map (·.1) := by simp [h]
  have hothers : ∀ es : List (Bytes × Bytes), (∀ e ∈ es, e.1 ≠ key) →
      replaced es key value = es := fun es hne =>
    (List.map_congr_left fun e he => if_neg (hne e he)).trans (List.map_id es)
  rw [put, dif_pos hmem]
  dsimp only
  rw [h, replaced, List.map_append, List.map_cons, if_pos rfl]
  rw [← replaced, ← replaced, hothers xs, hothers ys]
  · exact fun e he => ne_of_mem h (List.mem_append_right _ he)
  · exact fun e he => ne_of_mem h (List.mem_append_left _ he)

theorem records_put_of_none (h : ∀ e ∈ l.records, e.1 ≠ key) (value : Bytes) :
    (l.put key value).records = l.records ++ [(key, value)] := by
  have hmem : key ∉ l.records.map (·.1) := by simpa using fun x he => h (key, x) he rfl
  rw [put, dif_neg hmem]

theorem records_erase (h : l.records = xs ++ (key, old) :: ys) :
    (l.erase key).records = xs ++ ys := by
  have hothers : ∀ es : List (Bytes × Bytes), (∀ e ∈ es, e.1 ≠ key) →
      (es.filter fun e => decide (e.1 ≠ key)) = es := fun es hne =>
    List.filter_eq_self.2 fun e he => decide_eq_true (hne e he)
  rw [erase]
  dsimp only
  rw [h, List.filter_append, List.filter_cons_of_neg (by simp), hothers xs, hothers ys]
  · exact fun e he => ne_of_mem h (List.mem_append_right _ he)
  · exact fun e he => ne_of_mem h (List.mem_append_left _ he)

theorem records_erase_of_none (h : ∀ e ∈ l.records, e.1 ≠ key) :
    (l.erase key).records = l.records :=
  List.filter_eq_self.2 fun e he => decide_eq_true (h e he)

/-- A key has its place in the list, or none. -/
theorem place_or_none (l : KeyedList) (key : Bytes) :
    (∃ xs value ys, l.records = xs ++ (key, value) :: ys) ∨ ∀ e ∈ l.records, e.1 ≠ key := by
  cases hvalue : l.value? key with
  | none => exact .inr (value?_eq_none_iff.1 hvalue)
  | some value =>
      obtain ⟨xs, ys, h⟩ := List.append_of_mem (value?_eq_some_iff.1 hvalue)
      exact .inl ⟨xs, value, ys, h⟩

end

end KeyedList

namespace Memory

/-- A list of records, and the copy of it that a transaction keeps. -/
structure ListStore where
  now : KeyedList := .empty
  copy : Option KeyedList := none

/-- What changes a store in memory. -/
inductive Change where
  | put (key value : Bytes)
  | append (key value : Bytes)
  | delete (key : Bytes)
  | begin
  | commit
  | rollback

namespace Change

/-- Carries out a change; only to take away a key is answered with whether it was there. -/
def run (m : Memory) : Change → Option Bool × Memory
  | put key value => (none, m.put key value)
  | append key value => (none, m.append key value)
  | delete key => (some (m.erase key).1, (m.erase key).2)
  | begin => (none, m.begin)
  | commit => (none, m.commit)
  | rollback => (none, m.rollback)

/-- Carries out a change on a list. -/
def runOnList (s : ListStore) : Change → Option Bool × ListStore
  | put key value => (none, { s with now := s.now.put key value })
  | append key value => (none, { s with now := s.now.append key value })
  | delete key => (some (s.now.value? key).isSome, { s with now := s.now.erase key })
  | begin => (none, { s with copy := some s.now })
  | commit => (none, { s with copy := none })
  | rollback => (none, { now := s.copy.getD s.now })

/-- A change of records only: transactions are neither begun nor ended. -/
def Plain : Change → Prop
  | put .. | append .. | delete _ => True
  | begin | commit | rollback => False

end Change

/-- Going from record to record, with a record looked for by the key of the one before it, until
there is none. -/
inductive Visits (step : Bytes → Option (Bytes × Bytes)) :
    Option (Bytes × Bytes) → List (Bytes × Bytes) → Prop
  | done : Visits step none []
  | onward {e : Bytes × Bytes} {es : List (Bytes × Bytes)} (h : Visits step (step e.1) es) :
      Visits step (some e) (e :: es)

/-! ## Contents -/

namespace Contents

/-- The records in memory are those of a list. -/
structure Lists (c : Contents) (l : KeyedList) : Prop where
  sound : c.Sound
  entries_eq : c.entries = l.records

theorem lists_empty : Lists {} .empty := ⟨sound_empty, rfl⟩

section

variable {c : Contents} {l : KeyedList} {key value : Bytes}

theorem Lists.value?_eq (h : c.Lists l) (key : Bytes) :
    (c.record? key).map (·.2) = l.value? key := by
  refine Option.ext fun value => ?_
  rw [h.sound.record?_eq_some_iff, h.entries_eq, KeyedList.value?_eq_some_iff]

theorem Lists.index_eq_none (h : c.Lists l) (hkey : ∀ e ∈ l.records, e.1 ≠ key) :
    c.index[key]? = none := h.sound.index_eq_none (h.entries_eq ▸ hkey)

theorem Lists.put (h : c.Lists l) (key value : Bytes) :
    (c.put key value).Lists (l.put key value) := by
  refine ⟨h.sound.put key value, ?_⟩
  rcases l.place_or_none key with ⟨xs, old, ys, hl⟩ | hkey
  · rw [KeyedList.records_put hl, h.sound.put_eq (h.entries_eq.trans hl)]
  · rw [KeyedList.records_put_of_none hkey, h.sound.put_eq_of_none (h.index_eq_none hkey),
      h.entries_eq]

theorem Lists.erase (h : c.Lists l) (key : Bytes) :
    (c.erase key).1 = (l.value? key).isSome ∧ (c.erase key).2.Lists (l.erase key) := by
  rcases l.place_or_none key with ⟨xs, old, ys, hl⟩ | hkey
  · obtain ⟨hfound, herase⟩ := h.sound.erase_eq (h.entries_eq.trans hl)
    have hvalue : l.value? key = some old := KeyedList.value?_eq_some_iff.2 (by simp [hl])
    refine ⟨by rw [hfound, hvalue, Option.isSome_some], h.sound.erase key, ?_⟩
    rw [herase, KeyedList.records_erase hl]
  · have herase : c.erase key = (false, c) := by
      rw [Contents.erase, h.index_eq_none hkey]
    rw [herase]
    refine ⟨by rw [KeyedList.value?_eq_none_iff.2 hkey, Option.isSome_none], h.sound, ?_⟩
    rw [KeyedList.records_erase_of_none hkey, h.entries_eq]

/-- Going on from a record leads through the records behind it. -/
theorem Lists.visits_next (h : c.Lists l) (xs ys : List (Bytes × Bytes))
    (hl : l.records = xs ++ ys) : Visits c.next? ys.head? ys := by
  induction ys generalizing xs with
  | nil => exact .done
  | cons e ys ih =>
      refine .onward ?_
      rw [h.sound.next?_eq (h.entries_eq.trans hl)]
      exact ih (xs ++ [e]) (by rw [hl, List.append_cons])

/-- Going back from a record leads through the records before it. -/
theorem Lists.visits_prev (h : c.Lists l) (xs ys : List (Bytes × Bytes))
    (hl : l.records = xs ++ ys) : Visits c.prev? xs.getLast? xs.reverse := by
  induction xs using List.reverseRecOn generalizing ys with
  | nil => exact .done
  | append_singleton xs e ih =>
      rw [List.getLast?_concat, List.reverse_concat]
      rw [List.append_assoc, List.singleton_append] at hl
      refine .onward ?_
      rw [h.sound.prev?_eq (h.entries_eq.trans hl)]
      exact ih (e :: ys) hl

end

end Contents

/-! ## Changes -/

/-- The records of a store are those of a list, and so are those of its copy. -/
structure Tracks (m : Memory) (s : ListStore) : Prop where
  contents : m.contents.Lists s.now
  snapshot : Option.Rel Contents.Lists m.snapshot s.copy

section

variable {m : Memory} {s : ListStore}

theorem Tracks.sound (h : m.Tracks s) : m.Sound where
  contents := h.contents.sound
  snapshot c hcopy := by
    have hrel := h.snapshot
    rw [hcopy] at hrel
    generalize s.copy = copy at hrel
    cases hrel with
    | some hc => exact hc.sound

theorem tracks_empty : Tracks {} {} := ⟨Contents.lists_empty, .none⟩

/-- **One change** does to the list what it does to the store. -/
theorem Tracks.run (h : m.Tracks s) (change : Change) :
    (change.run m).1 = (change.runOnList s).1 ∧ (change.run m).2.Tracks (change.runOnList s).2 := by
  have hc := h.contents
  cases change with
  | put key value => exact ⟨rfl, hc.put key value, h.snapshot⟩
  | append key value =>
      refine ⟨rfl, ?_, h.snapshot⟩
      have hvalue : m.get? key = s.now.value? key := hc.value?_eq key
      show (m.append key value).contents.Lists (s.now.append key value)
      rw [Memory.append, hvalue, KeyedList.append]
      cases s.now.value? key with
      | some old => exact hc.put key (old ++ value)
      | none => exact hc.put key value
  | delete key =>
      obtain ⟨hfound, herase⟩ := hc.erase key
      exact ⟨congrArg some hfound, herase, h.snapshot⟩
  | begin => exact ⟨rfl, hc, .some hc⟩
  | commit => exact ⟨rfl, hc, .none⟩
  | rollback =>
      refine ⟨rfl, ?_⟩
      obtain ⟨contents, copy⟩ := m
      obtain ⟨now, saved⟩ := s
      cases h.snapshot with
      | none => exact ⟨hc, .none⟩
      | some hcopy => exact ⟨hcopy, .none⟩

/-- A new store after changes. -/
def afterChanges (changes : List Change) : Memory := stateAfter Change.run {} changes

/-- The empty list after changes. -/
def listAfter (changes : List Change) : ListStore := stateAfter Change.runOnList {} changes

theorem tracks_after (changes : List Change) :
    answersTo Change.run {} changes = answersTo Change.runOnList {} changes ∧
      (afterChanges changes).Tracks (listAfter changes) :=
  answersTo_eq_of_related Tracks.run tracks_empty changes

/-! ## Rollbacks -/

theorem snapshot_run_of_plain {change : Change} (h : change.Plain) (m : Memory) :
    (change.run m).2.snapshot = m.snapshot := by
  cases change with
  | put key value => rfl
  | append key value => rfl
  | delete key => rfl
  | begin => cases h
  | commit => cases h
  | rollback => cases h

theorem snapshot_rollback (m : Memory) : m.rollback.snapshot = none := by
  rw [rollback]
  cases h : m.snapshot with
  | none => exact h
  | some c => rfl

/-- **The copy of a store** is what it held at the last beginning of a transaction, if this one has
not been ended since. -/
theorem snapshot_eq_some_iff (changes : List Change) (c : Contents) :
    (afterChanges changes).snapshot = some c ↔
      ∃ before since, changes = before ++ .begin :: since ∧
        (∀ change ∈ since, change.Plain) ∧ (afterChanges before).contents = c := by
  induction changes using List.reverseRecOn with
  | nil =>
      constructor
      · rintro ⟨⟩
      · rintro ⟨before, since, h, -⟩
        simp at h
  | append_singleton changes change ih =>
      have hafter : afterChanges (changes ++ [change]) = (change.run (afterChanges changes)).2 :=
        stateAfter_concat ..
      have hlast : ∀ since : List Change,
          (∀ x ∈ since ++ [change], x.Plain) ↔ (∀ x ∈ since, x.Plain) ∧ change.Plain := by
        simp [or_imp, forall_and]
      rw [hafter, exists_place_concat]
      simp only [hlast]
      by_cases hplain : change.Plain
      · rw [snapshot_run_of_plain hplain, ih]
        constructor
        · rintro ⟨before, since, rfl, hsince, hc⟩
          exact .inr ⟨before, since, rfl, ⟨hsince, hplain⟩, hc⟩
        · rintro (⟨rfl, -⟩ | ⟨before, since, rfl, ⟨hsince, -⟩, hc⟩)
          · cases hplain
          · exact ⟨before, since, rfl, hsince, hc⟩
      · have hends : change ≠ .begin → (change.run (afterChanges changes)).2.snapshot = none := by
          intro hne
          cases change with
          | begin => exact absurd rfl hne
          | commit => rfl
          | rollback => exact snapshot_rollback _
          | _ => exact absurd trivial hplain
        simp only [hplain, and_false, false_and, exists_false, or_false]
        by_cases hbegin : change = .begin
        · subst hbegin
          constructor
          · rintro ⟨⟩
            exact ⟨rfl, by simp, rfl⟩
          · rintro ⟨-, -, rfl⟩
            rfl
        · rw [hends hbegin]
          exact ⟨nofun, fun h => absurd h.1 hbegin⟩

end

/-! ## The main result -/

/-- **A store in memory is a list of records with distinct keys.** Whatever changes it has gone
through, it has answered them as the list does, holds the records of the list in their order, and is
asked for values, its size and its ends as the list is; beside the record of a key stand its
neighbours in the list, so that going on from the first record leads through all of them in order,
and going back from the last one in the opposite order. A rollback brings back the list at the last
beginning of a transaction that has not been ended or begun again since; without one it does
nothing. All the while the index and the records describe each other, in the copy as well, and
every number in use is below the next one. -/
theorem memory_is_list (changes : List Change) :
    let m := afterChanges changes
    let l := (listAfter changes).now
    answersTo Change.run {} changes = answersTo Change.runOnList {} changes ∧
      m.contents.entries = l.records ∧
      (∀ key, m.get? key = l.value? key) ∧
      (m.size = l.records.length ∧ m.first? = l.records.head? ∧ m.last? = l.records.getLast?) ∧
      (∀ xs key value ys, l.records = xs ++ (key, value) :: ys →
        m.next? key = ys.head? ∧ m.prev? key = xs.getLast?) ∧
      (Visits m.next? m.first? l.records ∧ Visits m.prev? m.last? l.records.reverse) ∧
      (∀ before since, changes = before ++ .begin :: since → (∀ change ∈ since, change.Plain) →
        m.rollback.contents.entries = (listAfter before).now.records) ∧
      ((∀ before since, changes = before ++ .begin :: since → ∃ change ∈ since, ¬change.Plain) →
        m.rollback = m) ∧
      m.Sound := by
  intro m l
  obtain ⟨hanswers, htracks⟩ := tracks_after changes
  have hl : m.contents.Lists l := htracks.contents
  have hsound := hl.sound
  have hentries := hl.entries_eq
  have hfirst : m.first? = l.records.head? := by
    rw [← hentries, Contents.entries, List.head?_map]
    rfl
  have hlast : m.last? = l.records.getLast? := by
    rw [← hentries, Contents.entries, List.getLast?_map]
    rfl
  refine ⟨hanswers, hentries, hl.value?_eq, ⟨?_, hfirst, hlast⟩, fun xs key value ys h => ?_,
    ⟨?_, ?_⟩, fun before since h hsince => ?_, fun hended => ?_, htracks.sound⟩
  · rw [← hentries, Contents.entries, List.length_map]
    rfl
  · exact ⟨hsound.next?_eq (hentries.trans h), hsound.prev?_eq (hentries.trans h)⟩
  · rw [hfirst]
    exact hl.visits_next [] l.records rfl
  · rw [hlast]
    exact hl.visits_prev l.records [] (List.append_nil _).symm
  · have hcopy := (snapshot_eq_some_iff changes _).2 ⟨before, since, h, hsince, rfl⟩
    rw [rollback, hcopy]
    exact (tracks_after before).2.contents.entries_eq
  · rw [rollback]
    cases hcopy : m.snapshot with
    | none => rfl
    | some c =>
        obtain ⟨before, since, h, hsince, -⟩ := (snapshot_eq_some_iff changes c).1 hcopy
        obtain ⟨change, hmem, hnot⟩ := hended before since h
        exact absurd (hsince change hmem) hnot

/-- A key that is put again keeps its place, and what a transaction did is taken back. -/
example : (listAfter [.put [3] [1], .put [1] [1], .put [3] [2], .begin, .delete [3], .put [2] [1],
    .rollback]).now.records = [([3], [2]), ([1], [1])] := by decide

end Memory

end PagedStore
