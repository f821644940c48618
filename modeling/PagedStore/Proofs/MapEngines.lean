import PagedStore.Proofs.MemoryRecords
import PagedStore.Proofs.ReadOnlyDatabases

/-!
# Engines as maps

Seen by those who ask for keys, a store in memory is a map just as the tree of a file is one. So an
engine of either kind is told by two maps (`Engine.Stands`): the records that are there now, and
those that a rollback would bring back, if it would bring back any. Every operation on records, and
every commit and rollback, does to the two maps what it does to them in any other engine; only the
tree of a file may refuse a record, and only its commits may be made to stop.
-/

set_option autoImplicit false

namespace PagedStore

open PagedStore.Action Pager

namespace Contents

theorem getElem?_insert (m : Contents) (key value k : Bytes) :
    (m.insert key value)[k]? = if key = k then some value else m[k]? := by
  rw [Std.ExtTreeMap.getElem?_insert]
  simp only [compare_eq_eq]

theorem getElem?_erase (m : Contents) (key k : Bytes) :
    (m.erase key)[k]? = if key = k then none else m[k]? := by
  rw [Std.ExtTreeMap.getElem?_erase]
  simp only [compare_eq_eq]

theorem contains_of_some {m : Contents} {key value : Bytes} (h : m[key]? = some value) :
    m.contains key = true := by
  rw [Std.ExtTreeMap.contains_eq_isSome_getElem?, h]
  rfl

theorem contains_of_none {m : Contents} {key : Bytes} (h : m[key]? = none) :
    m.contains key = false := by
  rw [Std.ExtTreeMap.contains_eq_isSome_getElem?, h]
  rfl

/-- What is not there need not be erased. -/
theorem erase_of_none {m : Contents} {key : Bytes} (h : m[key]? = none) : m.erase key = m := by
  refine Std.ExtTreeMap.ext_getElem? fun k => ?_
  rw [getElem?_erase]
  split
  · rename_i hk
    rw [← hk, h]
  · rfl

end Contents

/-! ## Records in memory -/

namespace Memory.Contents

open PagedStore.Contents (getElem?_insert getElem?_erase contains_of_some contains_of_none
  erase_of_none)

/-- Asked for keys, the records in memory are those of a map. -/
structure Maps (c : Contents) (m : PagedStore.Contents) : Prop where
  sound : c.Sound
  record : ∀ key, (c.record? key).map (·.2) = m[key]?
  size : c.records.length = m.size

theorem maps_empty : Maps {} ∅ where
  sound := sound_empty
  record key := by simp [record?]
  size := by simp

section

variable {c : Contents} {m : PagedStore.Contents} {key value : Bytes}

theorem length_entries (c : Contents) : c.entries.length = c.records.length := List.length_map _

theorem Maps.mem_iff (h : c.Maps m) {key value : Bytes} :
    (key, value) ∈ c.entries ↔ m[key]? = some value := by
  rw [← h.record, h.sound.record?_eq_some_iff]

/-- The records are those of a map when they are so for each key. -/
theorem maps_of_entries (hsound : c.Sound)
    (hmem : ∀ key value, (key, value) ∈ c.entries ↔ m[key]? = some value)
    (hsize : c.entries.length = m.size) : c.Maps m where
  sound := hsound
  record key := Option.ext fun value => by rw [hsound.record?_eq_some_iff, hmem]
  size := (length_entries c).symm.trans hsize

/-- One record among others that have other keys. -/
theorem mem_around {xs ys : List (Bytes × Bytes)} (hne : ∀ e ∈ xs ++ ys, e.1 ≠ key) (k v : Bytes) :
    (k, v) ∈ xs ++ (key, value) :: ys ↔ if key = k then value = v else (k, v) ∈ xs ++ ys := by
  have hmiddle : (k, v) ∈ xs ++ (key, value) :: ys ↔
      k = key ∧ v = value ∨ (k, v) ∈ xs ++ ys := by
    simp only [List.mem_append, List.mem_cons, Prod.mk.injEq]
    tauto
  rw [hmiddle]
  split
  · rename_i hk
    subst hk
    refine ⟨fun h => ?_, fun h => .inl ⟨rfl, h.symm⟩⟩
    exact (h.resolve_right fun hmem => hne _ hmem rfl).2.symm
  · rename_i hk
    exact or_iff_right fun h => hk h.1.symm

/-- The place of a key that is there, and the records beside it. -/
theorem Maps.cut (h : c.Maps m) (hkey : m[key]? = some value) :
    ∃ xs ys, c.entries = xs ++ (key, value) :: ys ∧ (∀ e ∈ xs ++ ys, e.1 ≠ key) ∧
      ∀ k v, key ≠ k → ((k, v) ∈ xs ++ ys ↔ m[k]? = some v) := by
  obtain ⟨xs, ys, he⟩ := List.append_of_mem (h.mem_iff.2 hkey)
  have hne : ∀ e ∈ xs ++ ys, e.1 ≠ key := fun e hmem => h.sound.ne_of_mem he hmem
  refine ⟨xs, ys, he, hne, fun k v hk => ?_⟩
  rw [← h.mem_iff, he, mem_around hne, if_neg hk]

theorem Maps.index_eq_none (h : c.Maps m) (hkey : m[key]? = none) : c.index[key]? = none := by
  refine h.sound.index_eq_none fun e he hk => ?_
  obtain ⟨k, v⟩ := e
  subst hk
  have hsome := h.mem_iff.1 he
  rw [hkey] at hsome
  cases hsome

/-- **Putting a record** puts it into the map. -/
theorem Maps.put (h : c.Maps m) (key value : Bytes) :
    (c.put key value).Maps (m.insert key value) := by
  have hsize := (length_entries c).trans h.size
  cases hkey : m[key]? with
  | some old =>
      obtain ⟨xs, ys, he, hne, hothers⟩ := h.cut hkey
      have hput := h.sound.put_eq he value
      refine maps_of_entries (h.sound.put key value) (fun k v => ?_) ?_
      · rw [hput, mem_around hne, getElem?_insert]
        split
        · exact Option.some_inj.symm
        · exact hothers k v ‹_›
      · rw [Std.ExtTreeMap.size_insert, if_pos (contains_of_some hkey), ← hsize, hput, he,
          List.length_append, List.length_append, List.length_cons, List.length_cons]
  | none =>
      have hput := h.sound.put_eq_of_none (h.index_eq_none hkey) value
      refine maps_of_entries (h.sound.put key value) (fun k v => ?_) ?_
      · rw [hput, List.mem_append, List.mem_singleton, h.mem_iff, getElem?_insert]
        split
        · rename_i hk
          subst hk
          simp [hkey, eq_comm]
        · rename_i hk
          exact or_iff_left fun heq => hk (Prod.mk.inj heq).1.symm
      · rw [Std.ExtTreeMap.size_insert, contains_of_none hkey, if_neg Bool.false_ne_true, ← hsize,
          hput, List.length_append]
        rfl

/-- **Erasing a record** erases it from the map. -/
theorem Maps.erase (h : c.Maps m) (key : Bytes) :
    (c.erase key).1 = m.contains key ∧ (c.erase key).2.Maps (m.erase key) := by
  have hsize := (length_entries c).trans h.size
  cases hkey : m[key]? with
  | some old =>
      obtain ⟨xs, ys, he, hne, hothers⟩ := h.cut hkey
      obtain ⟨hfound, herase⟩ := h.sound.erase_eq he
      refine ⟨hfound.trans (contains_of_some hkey).symm, ?_⟩
      refine maps_of_entries (h.sound.erase key) (fun k v => ?_) ?_
      · rw [herase, getElem?_erase]
        split
        · rename_i hk
          subst hk
          exact ⟨fun hin => absurd rfl (hne _ hin), nofun⟩
        · exact hothers k v ‹_›
      · rw [Std.ExtTreeMap.size_erase, if_pos (contains_of_some hkey), ← hsize, herase, he,
          List.length_append, List.length_append, List.length_cons]
        rfl
  | none =>
      have herase : c.erase key = (false, c) := by
        rw [Contents.erase, h.index_eq_none hkey]
      rw [herase, erase_of_none hkey]
      exact ⟨(contains_of_none hkey).symm, h⟩

end

end Memory.Contents

/-! ## Places -/

/-- Where an engine keeps its records. -/
inductive Place where
  /-- In the file at a path; commits are made to stop at the point, if there is one. -/
  | file (path : String) (point : Option CrashPoint)
  /-- In a file that may only be read. -/
  | reader
  | memory

namespace Place

theorem file_ne_reader (path : String) (point : Option CrashPoint) :
    Place.file path point ≠ .reader := Place.noConfusion

theorem memory_ne_reader : Place.memory ≠ .reader := Place.noConfusion

/-- How a place refuses to store a record. -/
def Refuses : Place → Error → Prop
  | file .. => Tree.Refused
  | _ => fun _ => False

theorem refuses_ne_panicked {e : Error} (place : Place) (h : place.Refuses e) : e ≠ .panicked := by
  cases place with
  | file => exact Tree.Refused.ne_panicked h
  | _ => exact h.elim

/-- How a commit fails that is made to stop. -/
def Stops : Place → Error → Prop
  | file _ (some point), e => e = .aborted ("simulated crash at " ++ point.name)
  | _, _ => False

/-- What a rollback brings back when there is nothing that it would take back. In memory no copy is
kept then, and a reader is not rolled back. -/
def kept (m : Contents) : Place → Option Contents
  | file .. => some m
  | _ => none

end Place

namespace Engine

/-- The records of an engine are those of a map, and a rollback brings back those of another one,
if it brings back any. -/
inductive Stands [Codec] : Place → Engine → Disk → Contents → Option Contents → Prop where
  | file {path : String} {p : Pager} {d : Disk} {m old : Contents} (c : Compression)
      (h : Serves path p d m old) : Stands (.file path p.crashPoint) (.tree p c) d m (some old)
  | reader {e : Engine} {d : Disk} {m : Contents} (h : Reads m e d) : Stands .reader e d m none
  | memory (mem : Memory) {m : Contents} {back : Option Contents} (h : mem.contents.Maps m)
      (copy : Option.Rel Memory.Contents.Maps mem.snapshot back) (d : Disk) :
      Stands .memory (.memory mem) d m back

/-- The records are those of a map, and there is nothing that a rollback would take back. -/
def Settled [Codec] (place : Place) (e : Engine) (d : Disk) (m : Contents) : Prop :=
  Stands place e d m (place.kept m)

section

variable {place : Place} {path : String} {e : Engine} {p : Pager} {c : Compression} {d : Disk}
  {m old : Contents} {back : Option Contents} {key value : Bytes} {α : Type}

/-! ## Questions -/

variable [Codec]

/-- The pager may be another one, as long as its commits stop where those of the first one do. -/
theorem stands_file {q : Pager} {point : Option CrashPoint} (c : Compression)
    (h : Serves path q d m old) (hpoint : q.crashPoint = point) :
    Stands (.file path point) (.tree q c) d m (some old) := by
  subst hpoint
  exact .file c h

theorem size_of_reads (h : Reads m e d) : e.size = m.size := by
  cases h with
  | tree c hq hm hp hlog =>
      show (Tree.size _).toNat = m.size
      rw [Tree.size, hp.header]
      exact hm.size_eq

theorem Stands.size (h : Stands place e d m back) : e.size = m.size := by
  cases h with
  | file c h => exact h.current.size_eq
  | reader h => exact size_of_reads h
  | memory mem h copy d => exact h.size

/-- **What is looked for is found in the map.** -/
theorem Stands.get (h : Stands place e d m back) (key : Bytes) :
    ∃ e', (Engine.get key).exec e d = (.ok m[key]?, e', d) ∧ Stands place e' d m back := by
  cases h with
  | file c h =>
      obtain ⟨_, q, hexec, rfl, hs, hq⟩ := h.asks (Tree.does_get h.current key)
      exact ⟨_, exec_query hexec, stands_file c hq hs.crashPoint⟩
  | reader h =>
      obtain ⟨e', hexec, -⟩ := h.holds.get key
      have hkept := (invariant_reads m).get key e d h
      rw [hexec] at hkept
      exact ⟨e', hexec, .reader hkept⟩
  | memory mem h copy d =>
      have hexec : (Engine.get key).exec (.memory mem) d =
          (.ok ((mem.contents.record? key).map (·.2)), .memory mem, d) := rfl
      rw [h.record] at hexec
      exact ⟨_, hexec, .memory mem h copy d⟩

/-! ## Changes -/

/-- Storing a record either has its effect on the map or is refused. -/
theorem Stands.stores {store : Compression → Action Pager Unit} {memory : Memory → Memory}
    {m' : Contents} (h : Stands place e d m back) (hplace : place ≠ .reader)
    (hstore : ∀ c {f}, Tree.Stores f m →
      Settles f (store c) Tree.Refused fun _ g => Tree.Stores g m')
    (hmemory : ∀ {mem : Memory}, mem.contents.Maps m →
      (memory mem).contents.Maps m' ∧ (memory mem).snapshot = mem.snapshot) :
    ∃ r e', (either store fun mem => ((), memory mem)).exec e d = (r, e', d) ∧
      match r with
      | .ok () => Stands place e' d m' back
      | .error error => place.Refuses error ∧ Stands place e' d m back := by
  cases h with
  | @file path p d m old c h =>
      have hsettles : Settles (p.face d) (store c) Tree.Refused
          fun _ g => True ∧ Tree.Stores g m' :=
        (hstore c h.current).post fun _ _ hs => ⟨trivial, hs⟩
      obtain ⟨r, q, hexec, hs, hr⟩ := h.settles (Q := fun _ => True) hsettles
      refine ⟨r, _, exec_either hexec, ?_⟩
      cases r with
      | ok _ => exact stands_file c hr.2 hs.crashPoint
      | error error => exact ⟨hr.1, stands_file c hr.2 hs.crashPoint⟩
  | reader h => exact absurd rfl hplace
  | memory mem h copy d =>
      obtain ⟨hrecords, hsnapshot⟩ := hmemory h
      exact ⟨.ok (), .memory (memory mem), rfl, .memory _ hrecords (hsnapshot ▸ copy) d⟩

theorem Stands.put [Codec.Lawful] (h : Stands place e d m back) (hplace : place ≠ .reader)
    (key value : Bytes) :
    ∃ r e', (Engine.put key value).exec e d = (r, e', d) ∧
      match r with
      | .ok () => Stands place e' d (m.insert key value) back
      | .error error => place.Refuses error ∧ Stands place e' d m back :=
  h.stores hplace (fun c _ hs => Tree.settles_put hs c key value)
    fun hm => ⟨hm.put key value, rfl⟩

theorem Stands.append [Codec.Lawful] (h : Stands place e d m back) (hplace : place ≠ .reader)
    (key value : Bytes) :
    ∃ r e', (Engine.append key value).exec e d = (r, e', d) ∧
      match r with
      | .ok () => Stands place e' d (m.insert key (m[key]?.getD [] ++ value)) back
      | .error error => place.Refuses error ∧ Stands place e' d m back := by
  refine h.stores hplace (fun c _ hs => Tree.settles_append hs c key value) fun {mem} hm => ?_
  have hvalue : mem.get? key = m[key]? := hm.record key
  rw [Memory.append, hvalue]
  exact ⟨hm.put key _, rfl⟩

/-- **What is taken away is erased from the map**, wherever the records are. -/
theorem Stands.delete (h : Stands place e d m back) (hplace : place ≠ .reader) (key : Bytes) :
    ∃ e', (Engine.delete key).exec e d = (.ok (m.contains key), e', d) ∧
      Stands place e' d (m.erase key) back := by
  cases h with
  | file c h =>
      obtain ⟨r, q, hexec, hs, hr⟩ := h.settles (E := fun _ => False)
        (Tree.settles_delete h.current key)
      cases r with
      | error error => exact hr.1.elim
      | ok found =>
          obtain ⟨rfl, hq⟩ := hr
          exact ⟨_, exec_either hexec, stands_file c hq hs.crashPoint⟩
  | reader h => exact absurd rfl hplace
  | memory mem h copy d =>
      obtain ⟨hfound, herased⟩ := h.erase key
      have hexec : (Engine.delete key).exec (.memory mem) d =
          (.ok (mem.contents.erase key).1, .memory (mem.erase key).2, d) := rfl
      rw [hfound] at hexec
      exact ⟨_, hexec, .memory (mem.erase key).2 herased copy d⟩

/-! ## Transactions -/

/-- Where a transaction begins there is a way back, and it leads to where the last commit was or to
the beginning. -/
theorem Stands.begin (h : Stands place e d m back) (hplace : place ≠ .reader) :
    ∃ e' old, Engine.begin.exec e d = (.ok (), e', d) ∧ Stands place e' d m (some old) ∧
      (back = place.kept m → old = m) := by
  cases h with
  | @file path p d m old c h =>
      exact ⟨_, old, exec_either (exec_ensureUsable h.ready.usable), .file c h, Option.some.inj⟩
  | reader h => exact absurd rfl hplace
  | memory mem h copy d =>
      exact ⟨_, m, rfl, .memory mem.begin h (.some h) d, fun _ => rfl⟩

/-- **A commit leaves nothing to be taken back**, or it is made to stop. -/
theorem Stands.commit (h : Stands place e d m back) (hplace : place ≠ .reader) :
    ∃ r e' d', Engine.commit.exec e d = (r, e', d') ∧
      match r with
      | .ok () => Settled place e' d' m
      | .error error => place.Stops error := by
  cases h with
  | @file path p d m old c h =>
      by_cases hc : p.hasChanges = false ∨ p.crashPoint = none
      · obtain ⟨q, d', hexec, hpoint, -, hq⟩ := h.commit hc
        exact ⟨_, _, d', exec_either hexec, stands_file c hq hpoint⟩
      · rw [not_or, Bool.not_eq_false] at hc
        obtain ⟨hch, point, hpoint⟩ := hc.imp_right Option.ne_none_iff_exists'.1
        obtain ⟨log, -, -, -, hexec⟩ := exec_commit h.ready
        rw [if_pos hch, hpoint] at hexec
        refine ⟨_, _, _, exec_either hexec, ?_⟩
        rw [hpoint]
        exact rfl
  | reader h => exact absurd rfl hplace
  | memory mem h copy d => exact ⟨.ok (), _, d, rfl, .memory mem.commit h .none d⟩

/-- **A rollback brings back the other map.** -/
theorem Stands.rollback (h : Stands place e d m (some old)) :
    Settled place e.rolledBack d old := by
  cases h with
  | file c h => exact stands_file c h.rollback rfl
  | memory mem h copy d =>
      obtain ⟨contents, snapshot⟩ := mem
      cases copy with
      | some hcopy => exact .memory _ hcopy .none d

end

end Engine

end PagedStore
