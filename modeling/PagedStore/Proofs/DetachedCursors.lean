import PagedStore.Proofs.Closing
import PagedStore.Proofs.CursorMoves
import PagedStore.Proofs.EngineContents
import PagedStore.Proofs.MemoryRecords
import PagedStore.Proofs.Neighbours

/-!
# Cursors whose record is gone

The answers of an engine put its records in an order (`Engine.Lists`): that of the keys in a file,
that of the first insertion in memory. When a record is taken away while a cursor stands on it, the
cursor still knows the key, and asks the engine for the neighbours of a key that is not there. In a
file they are the records that stood before it and after it. In memory there are none, so a cursor
loses its place.
-/

set_option autoImplicit false

namespace PagedStore

open PagedStore.Action Pager

/-! ## The order of the records -/

namespace Engine

/-- Going through its records an engine gives this list. -/
structure Lists [Codec] (e : Engine) (d : Disk) (rs : List (Bytes × Bytes)) : Prop where
  first : (Engine.first.exec e d).1 = .ok rs.head?
  last : (Engine.last.exec e d).1 = .ok rs.getLast?
  next : ∀ {xs r ys}, rs = xs ++ r :: ys → ((Engine.next r.1).exec e d).1 = .ok ys.head?
  prev : ∀ {xs r ys}, rs = xs ++ r :: ys → ((Engine.prev r.1).exec e d).1 = .ok xs.getLast?

section

variable {path : String} {e : Engine} {d : Disk} {m : Contents} {mem : Memory} {key value : Bytes}
  {rs rs' xs ys : List (Bytes × Bytes)}

variable [Codec]

/-- Each record is found from the one before it, so there is one list only. -/
theorem Lists.unique (h : e.Lists d rs) (h' : e.Lists d rs') : rs = rs' := by
  have hrest : ∀ ys ys' xs : List (Bytes × Bytes), rs = xs ++ ys → rs' = xs ++ ys' →
      ys.head? = ys'.head? → ys = ys' := by
    intro ys
    induction ys with
    | nil =>
        intro ys' xs _ _ hhead
        exact (List.head?_eq_none_iff.1 hhead.symm).symm
    | cons r ys ih =>
        intro ys' xs hrs hrs' hhead
        obtain ⟨ys', rfl⟩ := List.head?_eq_some_iff.1 hhead.symm
        refine congrArg (r :: ·) (ih ys' (xs ++ [r]) (by simpa using hrs) (by simpa using hrs') ?_)
        exact Except.ok.inj ((h.next hrs).symm.trans (h'.next hrs'))
  exact hrest rs rs' [] rfl rfl (Except.ok.inj (h.first.symm.trans h'.first))

/-- What is held is gone through in the order of the keys. -/
theorem Holds.lists (h : e.Holds d m) : e.Lists d m.toList where
  first := by
    obtain ⟨r, e', hexec, hr, -⟩ := h.first
    rw [hexec, hr.isNearest.unique (Contents.isNearest_end true), if_pos rfl]
  last := by
    obtain ⟨r, e', hexec, hr, -⟩ := h.last
    rw [hexec, hr.isNearest.unique (Contents.isNearest_end false), if_neg Bool.false_ne_true]
  next := by
    intro xs r ys hrs
    have hparted := Parted.of_inKeyOrder (hrs ▸ m.inKeyOrder_toList)
    obtain ⟨s, e', hexec, hs, -⟩ := h.next r.1
    rw [hexec, hs.isNearest.unique (Contents.isNearest_of_parted (hrs ▸ hparted) true), if_pos rfl]
  prev := by
    intro xs r ys hrs
    have hparted := Parted.of_inKeyOrder (hrs ▸ m.inKeyOrder_toList)
    obtain ⟨s, e', hexec, hs, -⟩ := h.prev r.1
    rw [hexec, hs.isNearest.unique (Contents.isNearest_of_parted (hrs ▸ hparted) false),
      if_neg Bool.false_ne_true]

/-- An engine on a file that gives a list holds its records. -/
theorem Lasts.holds_of_lists (h : e.Lasts path d) (hl : e.Lists d rs) :
    ∃ m, e.Holds d m ∧ m.toList = rs := by
  rcases h.holds_or_mute with ⟨m, hm⟩ | hmute
  · exact ⟨m, hm, hm.lists.unique hl⟩
  · obtain ⟨error, e', hexec, -⟩ := hmute.first d
    have hfirst := hl.first
    rw [hexec] at hfirst
    cases hfirst

/-- In memory the records are gone through as they stand there. -/
theorem lists_memory (h : mem.Sound) (d : Disk) :
    (Engine.memory mem).Lists d mem.contents.entries where
  first := congrArg Except.ok List.head?_map.symm
  last := congrArg Except.ok List.getLast?_map.symm
  next hrs := congrArg Except.ok (h.contents.next?_eq hrs)
  prev hrs := congrArg Except.ok (h.contents.prev?_eq hrs)

omit [Codec] in
theorem InMemory.exists_memory (h : e.InMemory d) : ∃ mem, e = .memory mem ∧ mem.Sound := by
  obtain ⟨hm, -⟩ := h
  exact ⟨_, rfl, hm⟩

/-! ## Gaps -/

/-- There is no record of the key, and these are what the engine takes for its neighbours. -/
inductive Gap (key : Bytes) :
    Option (Bytes × Bytes) → Option (Bytes × Bytes) → Engine → Disk → Prop where
  /-- In a file they are those on the two sides of the cut that the key makes. -/
  | file {e : Engine} {d : Disk} {m : Contents} {xs ys : List (Bytes × Bytes)} (h : e.Holds d m)
      (hp : Parted Prod.fst key m.toList xs none ys) : Gap key xs.getLast? ys.head? e d
  /-- In memory it has none. -/
  | memory {m : Memory} (h : m.contents.index[key]? = none) (d : Disk) :
      Gap key none none (.memory m) d

variable {before after : Option (Bytes × Bytes)}

theorem Gap.get (h : Gap key before after e d) :
    ∃ e', (Engine.get key).exec e d = (.ok none, e', d) ∧ Gap key before after e' d := by
  cases h with
  | file h hp =>
      obtain ⟨e', hexec, he'⟩ := h.get key
      rw [Contents.getElem?_of_parted hp] at hexec
      exact ⟨e', hexec, .file he' hp⟩
  | @memory mem hindex d =>
      refine ⟨_, ?_, .memory hindex d⟩
      have hnone : mem.get? key = none := by
        rw [Memory.get?, Memory.Contents.record?, hindex]
        rfl
      exact congrArg (fun r => (Except.ok r, Engine.memory mem, d)) hnone

theorem Gap.next (h : Gap key before after e d) :
    ∃ e', (Engine.next key).exec e d = (.ok after, e', d) := by
  cases h with
  | file h hp =>
      obtain ⟨r, e', hexec, hr, -⟩ := h.next key
      rw [hr.isNearest.unique (Contents.isNearest_of_parted hp true), if_pos rfl] at hexec
      exact ⟨e', hexec⟩
  | @memory mem hindex d =>
      have hnone : mem.next? key = none := by
        rw [Memory.next?, Memory.Contents.next?, hindex]
        rfl
      exact ⟨_, congrArg (fun r => (Except.ok r, Engine.memory mem, d)) hnone⟩

theorem Gap.prev (h : Gap key before after e d) :
    ∃ e', (Engine.prev key).exec e d = (.ok before, e', d) := by
  cases h with
  | file h hp =>
      obtain ⟨r, e', hexec, hr, -⟩ := h.prev key
      rw [hr.isNearest.unique (Contents.isNearest_of_parted hp false),
        if_neg Bool.false_ne_true] at hexec
      exact ⟨e', hexec⟩
  | @memory mem hindex d =>
      have hnone : mem.prev? key = none := by
        rw [Memory.prev?, Memory.Contents.prev?, hindex]
        rfl
      exact ⟨_, congrArg (fun r => (Except.ok r, Engine.memory mem, d)) hnone⟩

end

end Engine

namespace Database

open Engine

/-! ## Databases in use -/

/-- The databases, on a file or in memory, with what has been done to them. -/
inductive InUse [Codec] : Database → Disk → Prop where
  | onFile {path : String} {db : Database} {d : Disk} (h : Reached path db d) : InUse db d
  | inMemory {o : Options} {d d' : Disk} {l l' : Library} {db : Database}
      (hopen : («open» memoryPath o).exec l d = (.ok db, l', d')) : InUse db d'
  | used {db : Database} {d : Disk} (h : InUse db d) (u : Use) : InUse (u.run db d).1 (u.run db d).2

section

variable {path : String} {db db' : Database} {d d' : Disk} {key value : Bytes}
  {xs ys : List (Bytes × Bytes)} {readOnly : Bool} {I : Engine → Disk → Prop}

variable [Codec]

/-- **A database in use has an engine that lasts, or one in memory.** -/
theorem InUse.guarded [Codec.Lawful] (h : InUse db d) :
    (∃ path, Guarded false (Lasts path) db d) ∨ ∃ readOnly, Guarded readOnly InMemory db d := by
  induction h with
  | onFile h => exact .inl ⟨_, h.lasting.2⟩
  | inMemory hopen =>
      obtain ⟨-, e, hengine, rfl⟩ := open_eq_ok hopen
      rw [openEngine, if_pos rfl] at hengine
      obtain ⟨rfl, -, rfl⟩ := exec_ok_inj hengine
      exact .inr ⟨_, rfl, fun _ => rfl, .memory Memory.sound_empty _⟩
  | used h u ih =>
      rcases ih with ⟨path, hdb⟩ | ⟨readOnly, hdb⟩
      · exact .inl ⟨path, hdb.run invariant_lasts u⟩
      · exact .inr ⟨readOnly, hdb.run (invariant_inMemory readOnly) u⟩

theorem hasRanges_of_lasts {e : Engine} (h : e.Lasts path d) : e.hasRanges = true := by
  cases h <;> rfl

/-- Where a record was taken out of the list, there is a gap. -/
theorem gap_of_lists [Codec.Lawful] (h : InUse db d)
    (hbefore : db.engine.Lists d (xs ++ (key, value) :: ys))
    {uses : List Use} (hrun : Use.runAll uses db d = (db', d'))
    (hafter : db'.engine.Lists d' (xs ++ ys)) :
    Gap key (if db.engine.hasRanges then xs.getLast? else none)
      (if db.engine.hasRanges then ys.head? else none) db'.engine d' := by
  rcases h.guarded with ⟨path, hdb⟩ | ⟨readOnly, hdb⟩
  · have hdb' : Guarded false (Lasts path) db' d' := by
      have := hdb.runAll invariant_lasts uses
      rwa [hrun] at this
    obtain ⟨m, -, hm⟩ := hdb.engine.holds_of_lists hbefore
    obtain ⟨m', hholds', hm'⟩ := hdb'.engine.holds_of_lists hafter
    rw [hasRanges_of_lasts hdb.engine, if_pos rfl, if_pos rfl]
    refine .file hholds' ?_
    rw [hm']
    exact (Parted.of_inKeyOrder (hm ▸ m.inKeyOrder_toList)).erased
  · have hdb' : Guarded readOnly InMemory db' d' := by
      have := hdb.runAll (invariant_inMemory readOnly) uses
      rwa [hrun] at this
    obtain ⟨mem, he, hsound⟩ := hdb.engine.exists_memory
    obtain ⟨mem', he', hsound'⟩ := hdb'.engine.exists_memory
    rw [he] at hbefore
    rw [he'] at hafter
    have hentries := (lists_memory hsound d).unique hbefore
    have hentries' := (lists_memory hsound' d').unique hafter
    have hindex := hsound'.contents.index_eq_none fun r hr => by
      rw [hentries'] at hr
      exact hsound.contents.ne_of_mem hentries hr
    rw [he, he']
    exact .memory hindex d'

/-- **A record that is taken away is taken out of the list**, and nothing else is. -/
theorem lists_delete [Codec.Lawful] (h : InUse db d)
    (hl : db.engine.Lists d (xs ++ (key, value) :: ys))
    (hexec : (delete key).exec db d = (.ok (), db', d')) : db'.engine.Lists d' (xs ++ ys) := by
  have hro : db.readOnly = false := by
    by_contra hro
    rw [delete, exec_mutate_refused (Bool.eq_true_of_not_eq_false hro)] at hexec
    cases hexec
  obtain ⟨e, d₁, hremove, -, hend⟩ := of_exec_mutate_ok hro hexec
  obtain ⟨found, e₁, d₂, hfound, hrest⟩ := of_exec_bind_ok hremove
  obtain ⟨rfl, rfl⟩ : e₁ = e ∧ d₂ = d₁ := by
    cases found with
    | true => exact (exec_ok_inj hrest).2
    | false => cases hrest
  rcases h.guarded with ⟨path, hdb⟩ | ⟨readOnly, hdb⟩
  · obtain ⟨m, hholds, hm⟩ := hdb.engine.holds_of_lists hl
    obtain ⟨e₂, hremoved, herased, hlasts⟩ := hdb.engine.delete hholds key
    rw [hremoved] at hfound
    obtain ⟨-, rfl, rfl⟩ := exec_ok_inj hfound
    have hdb' : db'.engine.Holds d' (m.erase key) := by
      rcases hend with ⟨he, rfl⟩ | hcommit
      · rwa [he]
      · exact hlasts.holds_commit herased hcommit
    have hlist := hdb'.lists
    have hparted := Parted.of_inKeyOrder (hm ▸ m.inKeyOrder_toList)
    rwa [Contents.toList_erase (hm ▸ hparted)] at hlist
  · obtain ⟨mem, he, hsound⟩ := hdb.engine.exists_memory
    rw [he] at hl hfound
    have hentries := (lists_memory hsound d).unique hl
    obtain ⟨-, herased⟩ := hsound.contents.erase_eq hentries
    obtain rfl : Engine.memory (mem.erase key).2 = e₁ := congrArg (·.2.1) hfound
    rcases hend with ⟨he', rfl⟩ | hcommit
    · rw [he']
      exact herased ▸ lists_memory (hsound.erase key) d'
    · have he' : Engine.memory (mem.erase key).2.commit = db'.engine := congrArg (·.2.1) hcommit
      rw [← he']
      exact herased ▸ lists_memory (hsound.erase key).commit d'

/-! ## Going on -/

/-- A cursor, its database and the disk after the record was read some times. -/
def afterReads : Nat → Cursor → Database → Disk → (Cursor × Database) × Disk
  | 0, c, db, d => ((c, db), d)
  | n + 1, c, db, d => (Cursor.entry.exec (afterReads n c db d).1 (afterReads n c db d).2).2

/-- A cursor that stands where there is a gap. -/
structure AtGap (key : Bytes) (before after : Option (Bytes × Bytes)) (c : Cursor) (db : Database)
    (d : Disk) : Prop where
  isOpen : c.closed = false
  position : c.position = .detached key ∨ ∃ value, c.position = .at key value
  gap : Gap key before after db.engine d

variable {c : Cursor} {before after : Option (Bytes × Bytes)}

theorem AtGap.key?_eq (h : AtGap key before after c db d) : c.key? = some key := by
  rw [Cursor.key?]
  rcases h.position with hp | ⟨value, hp⟩
  · rw [hp]
  · rw [hp]

/-- There is nothing to be read, which the cursor then knows. -/
theorem AtGap.entry (h : AtGap key before after c db d) :
    ∃ c' db', Cursor.entry.exec (c, db) d =
        (.error (.invalidState "record under cursor was deleted"), (c', db'), d) ∧
      c'.position = .detached key ∧ AtGap key before after c' db' d := by
  rcases h.position with hp | ⟨value, hp⟩
  · have hnone : ∀ k v, c.position ≠ .at k v := by simp [hp]
    refine ⟨c, db, ?_, hp, h⟩
    rw [Cursor.exec_entry_none h.isOpen hnone, hp]
    rfl
  · obtain ⟨e, hexec, he⟩ := h.gap.get
    have hfind : (find key).exec db d = (.ok none, { db with engine := e }, d) := by
      rw [find, exec_onEngine, hexec]
    exact ⟨_, _, Cursor.exec_entry_lost h.isOpen hp hfind, rfl, h.isOpen, .inl rfl, he⟩

theorem AtGap.reads (h : AtGap key before after c db d) (n : Nat) :
    ∃ c' db', afterReads n c db d = ((c', db'), d) ∧ (0 < n → c'.position = .detached key) ∧
      AtGap key before after c' db' d := by
  induction n with
  | zero => exact ⟨c, db, rfl, fun hn => absurd hn (Nat.lt_irrefl 0), h⟩
  | succ n ih =>
      obtain ⟨c', db', hreads, -, hgap⟩ := ih
      obtain ⟨c'', db'', hentry, hposition, hgap'⟩ := hgap.entry
      refine ⟨c'', db'', ?_, fun _ => hposition, hgap'⟩
      rw [afterReads, hreads, hentry]

/-- A move ends on the record that was found, or beyond the records with the failure `eof`. -/
def LandsOn (found : Option (Bytes × Bytes)) (move : Action (Cursor × Database) Unit) (c : Cursor)
    (db : Database) (d : Disk) : Prop :=
  ∃ db', move.exec (c, db) d = (Cursor.outcome .eof found, (c.moved found, db'), d)

theorem AtGap.landsOn (h : AtGap key before after c db d)
    {search : Bytes → Action Engine (Option (Bytes × Bytes))} {found : Option (Bytes × Bytes)}
    (hsearch : ∃ e, (search key).exec db.engine d = (.ok found, e, d)) :
    LandsOn found (Cursor.step search) c db d := by
  obtain ⟨e, hexec⟩ := hsearch
  refine ⟨{ db with engine := e }, ?_⟩
  rw [Cursor.exec_step h.isOpen h.key?_eq, Cursor.exec_goTo hexec]

/-- **A cursor whose record was taken away** cannot be read, which detaches it, and goes on. In a
file it goes to the record that stood after its own, or before it, and beyond the records exactly if
there was none. In memory it is lost: in both directions it goes beyond the records. -/
theorem detached_cursor_goes_on [Codec.Lawful] (h : InUse db d)
    (hbefore : db.engine.Lists d (xs ++ (key, value) :: ys)) {uses : List Use}
    (hrun : Use.runAll uses db d = (db', d')) (hafter : db'.engine.Lists d' (xs ++ ys))
    (hc : c.closed = false) {seen : Bytes} (hat : c.position = .at key seen) (reads : Nat) :
    ∃ c₁ db₁, afterReads reads c db' d' = ((c₁, db₁), d') ∧
      (0 < reads → c₁.position = .detached key) ∧
      (Cursor.entry.exec (c₁, db₁) d').1 =
        .error (.invalidState "record under cursor was deleted") ∧
      LandsOn (if db.engine.hasRanges then ys.head? else none) Cursor.next c₁ db₁ d' ∧
      LandsOn (if db.engine.hasRanges then xs.getLast? else none) Cursor.prev c₁ db₁ d' := by
  have hgap : AtGap key _ _ c db' d' :=
    ⟨hc, .inr ⟨seen, hat⟩, gap_of_lists h hbefore hrun hafter⟩
  obtain ⟨c₁, db₁, hreads, hposition, hgap₁⟩ := hgap.reads reads
  obtain ⟨_, _, hentry, -, -⟩ := hgap₁.entry
  exact ⟨c₁, db₁, hreads, hposition, congrArg Prod.fst hentry, hgap₁.landsOn hgap₁.gap.next,
    hgap₁.landsOn hgap₁.gap.prev⟩

end

/-! ## A record between two searches -/

/-- The first of two records is taken away under a cursor. -/
theorem detached_cursor_goes_on_two_records :
    ∃ db d db' d' c, InUse db d ∧ db.engine.Lists d [([1], [2]), ([3], [4])] ∧
      (delete [1]).exec db d = (.ok (), db', d') ∧ db'.engine.Lists d' [([3], [4])] ∧
      c.closed = false ∧ c.position = .at [1] [2] ∧
      ∃ c₁ db₁, afterReads 1 c db' d' = ((c₁, db₁), d') ∧ c₁.position = .detached [1] ∧
        LandsOn (some ([3], [4])) Cursor.next c₁ db₁ d' ∧ LandsOn none Cursor.prev c₁ db₁ d' := by
  obtain ⟨db, q, d, hreached, hactive, hro, he, hserves⟩ := reached_pairOfRecords
  have hholds : db.engine.Holds d pairOfRecords := he ▸ holds_of_serves hserves .snappy
  have huse : InUse db d := .onFile hreached
  have hlists : db.engine.Lists d ([] ++ ([1], [2]) :: [([3], [4])]) :=
    toList_pairOfRecords ▸ hholds.lists
  have hlasts := hreached.lasting.2.engine
  obtain ⟨e, hremoved, -⟩ := hlasts.delete hholds [1]
  have hfound : pairOfRecords.contains [1] = true := by with_unfolding_all rfl
  have hdelete : (delete [1]).exec db d = (.ok (), { db with engine := e }, d) := by
    refine exec_mutate_pending hro hactive ?_
    rw [exec_bind_ok hremoved, hfound]
    rfl
  have hafter := lists_delete huse hlists hdelete
  have hrun : Use.runAll [.call 0 (.delete [1])] db d = ({ db with engine := e }, d) := by
    rw [Use.runAll, Use.run, Call.run, exec_bind_ok hdelete]
    rfl
  let c : Cursor := { position := .at [1] [2] }
  obtain ⟨c₁, db₁, hreads, hposition, -, hnext, hprev⟩ :=
    detached_cursor_goes_on huse hlists hrun hafter (c := c) rfl rfl 1
  rw [hasRanges_of_lasts hlasts, if_pos rfl] at hnext hprev
  exact ⟨db, d, _, d, c, huse, hlists, hdelete, hafter, rfl, rfl, c₁, db₁, hreads,
    hposition Nat.one_pos, hnext, hprev⟩

/-- The same records in memory. -/
def pairInMemory : Database where
  path := memoryPath
  engine := .memory ((({} : Memory).put [1] [2]).put [3] [4])
  autoCommit := true
  readOnly := false
  scriptTimeout := none

theorem inUse_pairInMemory [Codec] (d : Disk) : InUse pairInMemory d := by
  have hopen : («open» memoryPath {}).exec {} d =
      (.ok { pairInMemory with engine := .memory {} }, ({} : Library).register, d) := rfl
  exact ((InUse.inMemory hopen).used (.call 0 (.store [1] [2]))).used (.call 0 (.store [3] [4]))

/-- **In memory a cursor loses its place.** It is put on the first record, which is then taken away;
a second record stands after it, and yet the cursor finds none there. -/
theorem detached_cursor_lost_in_memory :
    ∃ db d c db', InUse db d ∧ db.engine.Lists d [([1], [2]), ([3], [4])] ∧
      Cursor.first.exec ({}, db) d = (.ok (), (c, db), d) ∧ c.position = .at [1] [2] ∧
      (delete [1]).exec db d = (.ok (), db', d) ∧ db'.engine.Lists d [([3], [4])] ∧
      Cursor.next.exec (c, db') d = (.error .eof, ({ position := .eof }, db'), d) := by
  have hsound := (Memory.sound_empty.put [1] [2]).put [3] [4]
  let left : Database := { pairInMemory with
    engine := .memory (((({} : Memory).put [1] [2]).put [3] [4]).erase [1]).2.commit }
  have hdelete : (delete [1]).exec pairInMemory emptyFiles = (.ok (), left, emptyFiles) := by
    with_unfolding_all rfl
  exact ⟨pairInMemory, emptyFiles, { position := .at [1] [2] }, left, inUse_pairInMemory _,
    lists_memory hsound _, by with_unfolding_all rfl, rfl, hdelete,
    lists_memory (hsound.erase [1]).commit _, by with_unfolding_all rfl⟩

end Database

end PagedStore
