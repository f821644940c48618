import PagedStore.Cursor
import PagedStore.Script
import PagedStore.Proofs.Databases
import PagedStore.Proofs.NewFiles
import PagedStore.Proofs.TreeLife

/-!
# The life of a database

A database on a file is opened, used by calls, settings, cursors and scripts, closed and opened
again, or lost with its process and opened again. At every moment of this its engine serves the
records of a map and remembers those of the last commit, unless a commit of it was made to stop
(`Engine.Lasts`). Then it is of no use any more, but the file can be opened again and serves the
records of one of the two.
-/

set_option autoImplicit false

namespace PagedStore

open PagedStore.Action Pager

/-! ## Engines -/

/-- The engine of the file at `path`. -/
inductive Engine.Lasts [Codec] (path : String) : Engine → Disk → Prop where
  /-- It serves records. -/
  | serving {p : Pager} {d : Disk} {m old : Contents} (c : Compression)
      (h : Serves path p d m old) : Lasts path (.tree p c) d
  /-- A commit of it was made to stop. -/
  | stopped {p q : Pager} {d : Disk} {m old : Contents} {point : CrashPoint} (c : Compression)
      (h : Serves path p d m old) (hch : p.hasChanges = true) (hc : p.crashPoint = some point)
      (hs : Same (p.interrupted point) q) : Lasts path (.tree q c) (Pager.commit.exec p d).2.2

namespace Engine

variable {path : String} {p : Pager} {e : Engine} {d : Disk} {m old : Contents} {α : Type}

variable [Codec]

/-- A stopped engine is as good as gone, so an operation has to care for the others only. -/
theorem keeps_lasts_either {tree : Compression → Action Pager α} {memory : Memory → α × Memory}
    (hleaves : ∀ c, Leaves Same (tree c))
    (hserves : ∀ c {p d m old}, Serves path p d m old →
      ∃ r q m' old', (tree c).exec p d = (r, q, d) ∧ Serves path q d m' old') :
    Keeps (Lasts path) (either tree memory) := by
  intro e d he
  cases he with
  | serving c h =>
      obtain ⟨r, q, m', old', hexec, hq⟩ := hserves c h
      rw [exec_either_tree, hexec]
      exact .serving c hq
  | @stopped p q d m old point c h hch hc hs =>
      obtain ⟨hleft, hd⟩ := hleaves c q (Pager.commit.exec p d).2.2
      rw [exec_either_tree, hd]
      exact .stopped c h hch hc (hs.trans hleft)

theorem keeps_lasts_of_settles {tree : Compression → Action Pager α}
    {memory : Memory → α × Memory} {E : Error → Prop} {Q : α → Prop} {next : Contents → Contents}
    (hleaves : ∀ c, Leaves Same (tree c))
    (hsettles : ∀ c {f m}, Tree.Stores f m →
      Settles f (tree c) E fun x g => Q x ∧ Tree.Stores g (next m)) :
    Keeps (Lasts path) (either tree memory) := by
  refine keeps_lasts_either hleaves fun c p d m old h => ?_
  obtain ⟨r, q, hexec, -, hr⟩ := h.settles (hsettles c h.current)
  cases r with
  | ok x => exact ⟨_, q, _, _, hexec, hr.2⟩
  | error e => exact ⟨_, q, _, _, hexec, hr.2⟩

theorem keeps_lasts_of_asks {tree : Action Pager α} {memory : Memory → α} (ha : Reading tree)
    {Q : Contents → α → Prop} (hdoes : ∀ {f m}, Tree.Stores f m →
      Does f tree (fun _ => False) fun x g => g = f ∧ Q m x) :
    Keeps (Lasts path) (query tree memory) := by
  have hleaves : Leaves Same tree := ha.orderly.leaves.mono fun _ _ h => h.toSame
  refine keeps_lasts_either (fun _ => hleaves) fun _ p d m old h => ?_
  obtain ⟨x, q, hexec, -, -, hq⟩ := h.asks (hdoes h.current)
  exact ⟨_, q, _, _, hexec, hq⟩

theorem keeps_lasts_put [Codec.Lawful] (key value : Bytes) :
    Keeps (Lasts path) (Engine.put key value) :=
  keeps_lasts_of_settles (Q := fun _ => True) (fun c => Tree.leaves_put c key value)
    fun c _ _ h => (Tree.settles_put h c key value).post fun _ _ hs => ⟨trivial, hs⟩

theorem keeps_lasts_append [Codec.Lawful] (key value : Bytes) :
    Keeps (Lasts path) (Engine.append key value) := by
  let next (m : Contents) : Contents := m.insert key (m[key]?.getD [] ++ value)
  have hsettles : ∀ c {f m}, Tree.Stores f m → Settles f (Tree.append c key value) Tree.Refused
      fun _ g => True ∧ Tree.Stores g (next m) := fun c _ _ h =>
    (Tree.settles_append h c key value).post fun _ _ hs => ⟨trivial, hs⟩
  exact keeps_lasts_of_settles (fun c => Tree.leaves_append c key value) hsettles

theorem keeps_lasts_delete (key : Bytes) : Keeps (Lasts path) (Engine.delete key) :=
  keeps_lasts_of_settles (E := fun _ => False) (Q := fun _ => True)
    (fun _ => Tree.leaves_delete key)
    fun _ _ _ h => (Tree.settles_delete h key).post fun _ _ hs => ⟨trivial, hs.2⟩

theorem keeps_lasts_get (key : Bytes) : Keeps (Lasts path) (Engine.get key) :=
  keeps_lasts_of_asks (Tree.reading_get key) fun h => Tree.does_get h key

theorem keeps_lasts_seek (key : Bytes) (mode : SeekMode) :
    Keeps (Lasts path) (Engine.seek key mode) :=
  keeps_lasts_of_asks (Tree.reading_seek key mode) fun h => Tree.does_seek h key mode

theorem keeps_lasts_first : Keeps (Lasts path) Engine.first :=
  keeps_lasts_of_asks Tree.reading_first Tree.does_first

theorem keeps_lasts_last : Keeps (Lasts path) Engine.last :=
  keeps_lasts_of_asks Tree.reading_last Tree.does_last

theorem keeps_lasts_next (key : Bytes) : Keeps (Lasts path) (Engine.next key) :=
  keeps_lasts_of_asks (Tree.reading_next key) fun h => Tree.does_next h key

theorem keeps_lasts_prev (key : Bytes) : Keeps (Lasts path) (Engine.prev key) :=
  keeps_lasts_of_asks (Tree.reading_prev key) fun h => Tree.does_prev h key

theorem keeps_lasts_begin : Keeps (Lasts path) Engine.begin :=
  keeps_lasts_either (fun _ => leaves_ensureUsable) fun _ p _ m old h =>
    ⟨_, p, m, old, exec_ensureUsable h.ready.usable, h⟩

theorem keeps_lasts_rollback : Keeps (Lasts path) Engine.rollback :=
  keeps_lasts_either
    (fun _ => .update fun _ => ⟨rfl, rfl, rfl, rfl, rfl, rfl, rfl, rfl⟩)
    fun _ p _ _ old h => ⟨_, p.rolledBack, old, old, rfl, h.rollback⟩

theorem keeps_lasts_setCacheCapacity (pages : Nat) :
    Keeps (Lasts path) (Engine.setCacheCapacity pages) := by
  have hsame : ∀ p : Pager, Same p { p with cache := p.cache.resize pages } := fun _ =>
    ⟨rfl, rfl, rfl, rfl, rfl, rfl, rfl, rfl⟩
  refine keeps_lasts_either (fun _ => .update hsame) fun _ p d m old h => ?_
  have hq := h.ready.resize pages
  exact ⟨_, _, m, old, rfl, h.step hq (hsame p) h.current⟩

/-- A commit succeeds or is stopped. -/
theorem lasts_commit (h : Serves path p d m old) (c : Compression) :
    Lasts path (.tree (Pager.commit.exec p d).2.1 c) (Pager.commit.exec p d).2.2 := by
  by_cases hc : p.hasChanges = false ∨ p.crashPoint = none
  · obtain ⟨q, d', hexec, -, -, hq⟩ := h.commit hc
    rw [hexec]
    exact .serving c hq
  · rw [not_or, Bool.not_eq_false] at hc
    obtain ⟨point, hpoint⟩ := Option.ne_none_iff_exists'.1 hc.2
    obtain ⟨log, -, -, -, hexec⟩ := exec_commit h.ready
    have hq : (Pager.commit.exec p d).2.1 = p.interrupted point := by
      rw [hexec, if_pos hc.1, hpoint]
    rw [hq]
    exact .stopped c h hc.1 hpoint (.refl _)

omit [Codec] in
theorem poisoned_of_interrupted {q : Pager} {point : CrashPoint}
    (hs : Same (p.interrupted point) q) :
    q.poisoned = some ("simulated crash at " ++ point.name) := hs.poisoned

theorem keeps_lasts_commit : Keeps (Lasts path) Engine.commit := by
  intro e d he
  cases he with
  | serving c h => exact lasts_commit h c
  | @stopped p q d m old point c h hch hc hs =>
      obtain ⟨error, herror⟩ :=
        exec_commit_poisoned (poisoned_of_interrupted hs) (Pager.commit.exec p d).2.2
      rw [Engine.commit, exec_either_tree, herror]
      exact .stopped c h hch hc hs

theorem keeps_lasts_close : Keeps (Lasts path) Engine.close := by
  intro e d he
  rw [Engine.close, query]
  cases he with
  | serving c h =>
      rw [exec_either_tree, h.ready.exec_close]
      exact lasts_commit h c
  | @stopped p q d m old point c h hch hc hs =>
      rw [exec_either_tree, exec_close_poisoned (poisoned_of_interrupted hs)]
      exact .stopped c h hch hc hs

/-- What every operation of an engine keeps that a database carries out. One that may only be read
is asked and closed, and nothing else. -/
structure Invariant (readOnly : Bool) (I : Engine → Disk → Prop) : Prop where
  get (key : Bytes) : Keeps I (Engine.get key)
  put (key value : Bytes) (hw : readOnly = false) : Keeps I (Engine.put key value)
  append (key value : Bytes) (hw : readOnly = false) : Keeps I (Engine.append key value)
  delete (key : Bytes) (hw : readOnly = false) : Keeps I (Engine.delete key)
  seek (key : Bytes) (mode : SeekMode) : Keeps I (Engine.seek key mode)
  first : Keeps I Engine.first
  last : Keeps I Engine.last
  next (key : Bytes) : Keeps I (Engine.next key)
  prev (key : Bytes) : Keeps I (Engine.prev key)
  begin (hw : readOnly = false) : Keeps I Engine.begin
  commit (hw : readOnly = false) : Keeps I Engine.commit
  rollback (hw : readOnly = false) : Keeps I Engine.rollback
  close : Keeps I Engine.close
  setCacheCapacity (pages : Nat) : Keeps I (Engine.setCacheCapacity pages)

theorem invariant_lasts [Codec.Lawful] : Invariant false (Lasts path) where
  get := keeps_lasts_get
  put key value _ := keeps_lasts_put key value
  append key value _ := keeps_lasts_append key value
  delete key _ := keeps_lasts_delete key
  seek := keeps_lasts_seek
  first := keeps_lasts_first
  last := keeps_lasts_last
  next := keeps_lasts_next
  prev := keeps_lasts_prev
  begin _ := keeps_lasts_begin
  commit _ := keeps_lasts_commit
  rollback _ := keeps_lasts_rollback
  close := keeps_lasts_close
  setCacheCapacity := keeps_lasts_setCacheCapacity

/-- **Whatever became of an engine, its file can be opened again** once it was given back. -/
theorem Lasts.reopen (h : e.Lasts path d) {o : Options} (ho : o.readOnly = false)
    (he : o.errorIfExists = false) :
    ∃ q d' m, (Pager.«open» path o).exec () (e.release d) = (.ok q, (), d') ∧
      Serves path q d' m m := by
  cases h with
  | serving c h =>
      obtain ⟨q, d', hopen, -, hq⟩ := h.reopen ho he
      exact ⟨q, d', _, hopen, hq⟩
  | @stopped p q d m old point c h hch hc hs =>
      obtain ⟨q', d', hopen, hq⟩ := h.reopen_stopped hch hc ho he rfl
      refine ⟨q', d', _, ?_, hq⟩
      -- Both pagers hold the same file.
      rw [release, Pager.release, hs.file]
      exact hopen

end Engine

namespace Database

open Engine

variable {path : String} {db : Database} {d : Disk} {α : Type}

/-! ## Uses -/

/-- What a cursor can be asked for. -/
inductive CursorMove where
  | seek (key : Bytes) (mode : SeekMode)
  | first
  | last
  | next
  | prev
  | reset
  | isValid
  | entry
  | delete

section

variable [Codec]

/-- Carries out a move. -/
def CursorMove.run : CursorMove → Action (Cursor × Database) Unit
  | seek key mode => Cursor.seek key mode
  | first => Cursor.first
  | last => Cursor.last
  | next => Cursor.next
  | prev => Cursor.prev
  | reset => Cursor.reset
  | isValid => do let _ ← Cursor.isValid
  | entry => do let _ ← Cursor.entry
  | delete => Cursor.delete

/-- What can be done with a database that is open. -/
inductive Use where
  | call (caller : Caller) (c : Call)
  | configure (s : DatabaseSetting)
  | move (c : Cursor) (m : CursorMove)
  | script (caller : Caller) (s : Script) (talk : Script.Conversation Script.Ending)

/-- What becomes of a database and of the disk, with or without success. -/
def Use.run (db : Database) (d : Disk) : Use → Database × Disk
  | call caller c => ((c.run caller).exec db d).2
  | configure s => ((Database.configure s).exec db d).2
  | move c m => ((m.run.exec (c, db) d).2.1.2, (m.run.exec (c, db) d).2.2)
  | script caller s talk =>
      (((Script.run caller talk).exec (s, db) d).2.1.2,
        ((Script.run caller talk).exec (s, db) d).2.2)

/-- What becomes of them when the database is used several times. -/
def Use.runAll : List Use → Database → Disk → Database × Disk
  | [], db, d => (db, d)
  | u :: uses, db, d => runAll uses (u.run db d).1 (u.run db d).2

end

/-! ## What is kept -/

/-- A database that may only be read, or may be changed, with an engine that keeps to `I`. -/
structure Guarded (readOnly : Bool) (I : Engine → Disk → Prop) (db : Database) (d : Disk) :
    Prop where
  readOnly_eq : db.readOnly = readOnly
  /-- No transaction is open where none can be begun. -/
  free : readOnly = true → db.transaction.owner? = none
  engine : I db.engine d

section

variable {readOnly : Bool} {I : Engine → Disk → Prop}

theorem keeps_onEngine {a : Action Engine α} (h : Keeps I a) :
    Keeps (Guarded readOnly I) (onEngine a) := fun _ _ hdb =>
  ⟨hdb.readOnly_eq, hdb.free, h _ _ hdb.engine⟩

theorem keeps_ensureWritable : Keeps (Guarded readOnly I) ensureWritable := by
  refine .self_bind fun db => ?_
  split
  · exact .throw _
  · exact .pure _

theorem keeps_update {f : Database → Database}
    (hf : ∀ db, (f db).readOnly = db.readOnly ∧ (f db).engine = db.engine)
    (hfree : readOnly = true → ∀ db : Database, db.transaction.owner? = none →
      (f db).transaction.owner? = none) : Keeps (Guarded readOnly I) (update f) :=
  .update fun db _ h => ⟨(hf db).1.trans h.readOnly_eq, fun hro => hfree hro db (h.free hro),
    (hf db).2.symm ▸ h.engine⟩

/-- What stands behind the guard is reached on a database that may be changed only. -/
theorem keeps_writable_bind {k : Unit → Action Database α}
    (hk : readOnly = false → Keeps (Guarded readOnly I) (k ())) :
    Keeps (Guarded readOnly I) (ensureWritable >>= k) := by
  cases readOnly with
  | false => exact .bind keeps_ensureWritable fun _ => hk rfl
  | true =>
      intro db d hdb
      rw [exec_bind_error (exec_ensureWritable_refused hdb.readOnly_eq d)]
      exact hdb

/-- Only a transaction that is open can be ended. -/
theorem keeps_finish_bind (caller : Caller) {k : Unit → Action Database α}
    (hk : readOnly = false → Keeps (Guarded readOnly I) (k ())) :
    Keeps (Guarded readOnly I) (finish caller >>= k) := by
  cases readOnly with
  | false =>
      have hfinish : Keeps (Guarded false I) (finish caller) :=
        .self_bind fun _ => .bind (.ofResult _) fun _ => keeps_update (fun _ => ⟨rfl, rfl⟩) nofun
      exact .bind hfinish fun _ => hk rfl
  | true =>
      intro db d hdb
      have hother : db.transaction.owner? ≠ some caller := by
        rw [hdb.free rfl]
        exact nofun
      obtain ⟨message, hrefused⟩ := (refused_finish hother).bind k
      have hexec : (finish caller >>= k).exec db d = (.error (.lockError message), db, d) :=
        hrefused db.engine d
      rw [hexec]
      exact hdb

theorem keeps_ensureOpen : Keeps (fun s d => Guarded readOnly I s.2 d) Cursor.ensureOpen := by
  refine .self_bind fun s => ?_
  split
  · exact .throw _
  · exact .pure _

theorem keeps_place (position : Cursor.Position) :
    Keeps (fun s d => Guarded readOnly I s.2 d) (Cursor.place position) := .update fun _ _ h => h

theorem keeps_onDatabase {a : Action Database α} (h : Keeps (Guarded readOnly I) a) :
    Keeps (fun s d => Guarded readOnly I s.2 d) (Cursor.onDatabase a) := h.zoom fun _ _ => rfl

theorem keeps_goTo {search : Action Engine (Option (Bytes × Bytes))} (h : Keeps I search)
    (miss : Error) : Keeps (fun s d => Guarded readOnly I s.2 d) (Cursor.goTo search miss) := by
  refine .bind (keeps_onDatabase (keeps_onEngine h)) fun found => ?_
  cases found with
  | none => exact .bind (keeps_place _) fun _ => .throw miss
  | some r => exact keeps_place _

theorem keeps_step {search : Bytes → Action Engine (Option (Bytes × Bytes))}
    (h : ∀ key, Keeps I (search key)) :
    Keeps (fun s d => Guarded readOnly I s.2 d) (Cursor.step search) := by
  refine .bind keeps_ensureOpen fun _ => .self_bind fun s => ?_
  cases s.1.position with
  | unplaced => exact .throw _
  | «at» key value => exact keeps_goTo (h key) _
  | detached key => exact keeps_goTo (h key) _
  | eof => exact .throw _

variable [Codec] (hI : Invariant readOnly I)

include hI

theorem keeps_settle (hw : readOnly = false) : Keeps (Guarded readOnly I) settle := by
  refine .bind (keeps_onEngine (hI.commit hw)).attempt fun r => ?_
  cases r with
  | ok _ => exact .pure _
  | error e => exact .bind (keeps_onEngine (hI.rollback hw)).attempt fun _ => .throw e

theorem keeps_mutate {a : Action Engine α} (h : readOnly = false → Keeps I a) :
    Keeps (Guarded readOnly I) (mutate a) := by
  refine keeps_writable_bind fun hw => .bind (keeps_onEngine (h hw)) fun x => ?_
  refine .self_bind fun db => ?_
  split
  · exact .bind (keeps_settle hI hw) fun _ => .pure x
  · exact .pure x

theorem keeps_find (key : Bytes) : Keeps (Guarded readOnly I) (find key) :=
  keeps_onEngine (hI.get key)

theorem keeps_fetch (key : Bytes) : Keeps (Guarded readOnly I) (fetch key) := by
  refine .bind (keeps_find hI key) fun value => ?_
  cases value with
  | none => exact .throw _
  | some value => exact .pure value

theorem keeps_contains (key : Bytes) : Keeps (Guarded readOnly I) (contains key) :=
  .bind (keeps_find hI key) fun _ => .pure _

theorem keeps_store (key value : Bytes) : Keeps (Guarded readOnly I) (store key value) :=
  keeps_mutate hI (hI.put key value)

theorem keeps_append (key value : Bytes) : Keeps (Guarded readOnly I) (Database.append key value) :=
  keeps_mutate hI (hI.append key value)

theorem keeps_delete (key : Bytes) : Keeps (Guarded readOnly I) (delete key) := by
  refine keeps_mutate hI fun hw => .bind (hI.delete key hw) fun found => ?_
  split
  · exact .throw _
  · exact .pure _

theorem keeps_start (hw : readOnly = false) (caller : Caller) :
    Keeps (Guarded readOnly I) (start caller) := by
  have hnever : ∀ {P : Prop}, readOnly = true → P := fun h => by cases hw.symm.trans h
  refine .self_bind fun db => .bind (.ofResult _) fun slot => ?_
  refine .bind (keeps_update (fun _ => ⟨rfl, rfl⟩) hnever) fun _ => ?_
  refine .bind (keeps_onEngine (hI.begin hw)).attempt fun r => ?_
  cases r with
  | ok _ => exact .pure _
  | error e => exact .bind (keeps_update (fun _ => ⟨rfl, rfl⟩) hnever) fun _ => .throw e

theorem keeps_begin (caller : Caller) : Keeps (Guarded readOnly I) (begin caller) :=
  keeps_writable_bind fun hw => keeps_start hI hw caller

theorem keeps_beginImplicit (caller : Caller) :
    Keeps (Guarded readOnly I) (beginImplicit caller) := by
  cases readOnly with
  | true =>
      intro db d hdb
      rw [beginImplicit, exec_bind, exec_self]
      dsimp only
      rw [hdb.readOnly_eq]
      exact hdb
  | false =>
      refine .self_bind fun db => ?_
      split
      · exact .pure _
      · exact .bind (keeps_start hI rfl caller) fun _ => .pure _

theorem keeps_commit (caller : Caller) : Keeps (Guarded readOnly I) (commit caller) :=
  keeps_finish_bind caller fun hw => keeps_settle hI hw

theorem keeps_rollback (caller : Caller) : Keeps (Guarded readOnly I) (rollback caller) :=
  keeps_finish_bind caller fun hw => keeps_onEngine (hI.rollback hw)

theorem keeps_configure (s : DatabaseSetting) : Keeps (Guarded readOnly I) (configure s) := by
  cases s with
  | pageCacheSize pages =>
      have hset : Keeps (Guarded readOnly I) (onEngine (Engine.setCacheCapacity pages)) :=
        keeps_onEngine (hI.setCacheCapacity pages)
      rw [configure]
      dsimp only
      split
      · exact .throw_bind _ _
      · exact hset
  | autoCommit on => exact keeps_update (fun _ => ⟨rfl, rfl⟩) fun _ _ => id
  | scriptTimeout timeout => exact keeps_update (fun _ => ⟨rfl, rfl⟩) fun _ _ => id

theorem keeps_shutdown : Keeps (Guarded readOnly I) shutdown := by
  have habandon : Keeps (Guarded readOnly I)
      (update fun db => { db with transaction := db.transaction.abandon }) :=
    keeps_update (fun _ => ⟨rfl, rfl⟩) fun _ _ _ => rfl
  have hclose : Keeps (Guarded readOnly I) (onEngine Engine.close) := keeps_onEngine hI.close
  cases readOnly with
  | false =>
      refine .self_bind fun db => .bind habandon fun _ => ?_
      split
      · exact .bind (keeps_settle hI rfl).attempt fun _ => hclose
      · exact hclose
  | true =>
      intro db d hdb
      rw [shutdown, exec_bind, exec_self]
      dsimp only
      rw [hdb.readOnly_eq, Bool.not_true, Bool.and_false, if_neg Bool.false_ne_true]
      exact Keeps.bind habandon (fun _ => hclose) db d hdb

theorem keeps_run (caller : Caller) (call : Call) :
    Keeps (Guarded readOnly I) (call.run caller) := by
  cases call with
  | store key value => exact .bind (keeps_store hI key value) fun _ => .pure _
  | append key value => exact .bind (keeps_append hI key value) fun _ => .pure _
  | fetch key => exact .bind (keeps_fetch hI key) fun _ => .pure _
  | find key => exact .bind (keeps_find hI key) fun _ => .pure _
  | contains key => exact .bind (keeps_contains hI key) fun _ => .pure _
  | delete key => exact .bind (keeps_delete hI key) fun _ => .pure _
  | size => exact .self_bind fun _ => .pure _
  | isEmpty => exact .self_bind fun _ => .pure _
  | begin => exact .bind (keeps_begin hI caller) fun _ => .pure _
  | commit => exact .bind (keeps_commit hI caller) fun _ => .pure _
  | rollback => exact .bind (keeps_rollback hI caller) fun _ => .pure _
  | inTransaction => exact .self_bind fun _ => .pure _

/-! ## Cursors and scripts -/

theorem keeps_isValid : Keeps (fun s d => Guarded readOnly I s.2 d) Cursor.isValid := by
  refine .self_bind fun s => ?_
  obtain ⟨c, db⟩ := s
  dsimp only
  cases c.position with
  | «at» key value =>
      dsimp only
      split
      · exact .pure _
      · refine .bind (keeps_onDatabase (keeps_contains hI key)).outcome fun r => ?_
        cases r with
        | ok found => exact .pure _
        | error e => exact .pure _
  | unplaced => exact .pure _
  | detached key => exact .pure _
  | eof => exact .pure _

theorem keeps_refresh : Keeps (fun s d => Guarded readOnly I s.2 d) Cursor.refresh := by
  refine .self_bind fun s => ?_
  cases s.1.position with
  | «at» key value =>
      refine .bind (keeps_onDatabase (keeps_find hI key)) fun found => ?_
      cases found with
      | none => exact keeps_place _
      | some value => exact keeps_place _
  | unplaced => exact .pure _
  | detached key => exact .pure _
  | eof => exact .pure _

theorem keeps_entry : Keeps (fun s d => Guarded readOnly I s.2 d) Cursor.entry := by
  refine .bind keeps_ensureOpen fun _ => .bind (keeps_refresh hI) fun _ => .self_bind fun s => ?_
  cases s.1.position with
  | «at» key value => exact .pure _
  | unplaced => exact .throw _
  | detached key => exact .throw _
  | eof => exact .throw _

theorem keeps_takeOut (key : Bytes) (hw : readOnly = false) : Keeps I (Cursor.takeOut key) := by
  refine .bind (hI.next key) fun next => .bind (hI.delete key hw) fun found => ?_
  split
  · exact .pure _
  · exact .pure _

theorem keeps_cursor_delete : Keeps (fun s d => Guarded readOnly I s.2 d) Cursor.delete := by
  refine .bind keeps_ensureOpen fun _ => .self_bind fun s => ?_
  cases s.1.position with
  | «at» key value =>
      refine .bind (keeps_onDatabase (keeps_mutate hI (keeps_takeOut hI key))) fun found => ?_
      match found with
      | some (some (key, value)) => exact keeps_place _
      | some none => exact keeps_place _
      | none => exact .bind (keeps_place _) fun _ => .throw _
  | unplaced => exact .throw _
  | detached key => exact .throw _
  | eof => exact .throw _

theorem keeps_hostCall (call : Script.HostCall) : Keeps (Guarded readOnly I) call.run := by
  have hattempt : Keeps (Guarded readOnly I) call.attempt := by
    cases call with
    | store key value => exact .bind (keeps_store hI key value) fun _ => .pure _
    | append key value => exact .bind (keeps_append hI key value) fun _ => .pure _
    | fetch key => exact .bind (keeps_find hI key) fun _ => .pure _
    | delete key =>
        refine .bind (keeps_delete hI key).attempt fun r => ?_
        match r with
        | .ok () => exact .pure _
        | .error e =>
            cases e with
            | notFound text => exact .pure _
            | _ => exact .throw _
    | contains key => exact .bind (keeps_contains hI key) fun _ => .pure _
    | size => exact .self_bind fun _ => .pure _
  refine .bind hattempt.outcome fun r => ?_
  cases r with
  | ok reply => exact .pure _
  | error e => exact .pure _

/-- A script does nothing to a database but call it. -/
theorem keeps_perform (c : Script.Conversation α) : Keeps (Guarded readOnly I) c.perform := by
  induction c with
  | done result => exact .pure result
  | ask call answered ih => exact .bind (keeps_hostCall hI call) ih

theorem keeps_script (caller : Caller) (talk : Script.Conversation Script.Ending) :
    Keeps (fun s d => Guarded readOnly I s.2 d) (Script.run caller talk) := by
  have hon : ∀ {β : Type} {a : Action Database β}, Keeps (Guarded readOnly I) a →
      Keeps (fun s d => Guarded readOnly I s.2 d) (Script.onDatabase a) :=
    fun h => h.zoom fun _ _ => rfl
  refine .self_bind fun s => ?_
  dsimp only
  split
  · exact .throw_bind _ _
  refine .bind (hon (keeps_beginImplicit hI caller)) fun own => ?_
  refine .bind (.bind (.update fun _ _ h => h) fun _ => ?_) fun outcome => ?_
  · exact .bind (hon (keeps_perform hI talk)) fun ending =>
      .bind (.update fun _ _ h => h) fun _ => .pure _
  -- The transaction that the run has begun ends with it.
  cases outcome with
  | ok _ =>
      rw [Script.conclude]
      split
      · exact hon (keeps_commit hI caller)
      · exact .pure _
  | error report =>
      rw [Script.conclude]
      split
      · exact .bind (hon (keeps_rollback hI caller)) fun _ => .throw _
      · exact .throw _

theorem keeps_move (m : CursorMove) : Keeps (fun s d => Guarded readOnly I s.2 d) m.run := by
  cases m with
  | seek key mode =>
      exact .bind keeps_ensureOpen fun _ => keeps_goTo (hI.seek key mode) _
  | first => exact .bind keeps_ensureOpen fun _ => keeps_goTo hI.first _
  | last => exact .bind keeps_ensureOpen fun _ => keeps_goTo hI.last _
  | next => exact keeps_step hI.next
  | prev => exact keeps_step hI.prev
  | reset => exact .bind keeps_ensureOpen fun _ => keeps_place _
  | isValid => exact .bind (keeps_isValid hI) fun _ => .pure _
  | entry => exact .bind (keeps_entry hI) fun _ => .pure _
  | delete => exact keeps_cursor_delete hI

/-- **One use of a database keeps what its engine keeps.** -/
theorem Guarded.run (h : Guarded readOnly I db d) (u : Use) :
    Guarded readOnly I (u.run db d).1 (u.run db d).2 := by
  cases u with
  | call caller c => exact keeps_run hI caller c db d h
  | configure s => exact keeps_configure hI s db d h
  | move c m => exact keeps_move hI m (c, db) d h
  | script caller s talk => exact keeps_script hI caller talk (s, db) d h

theorem Guarded.runAll (h : Guarded readOnly I db d) (uses : List Use) :
    Guarded readOnly I (Use.runAll uses db d).1 (Use.runAll uses db d).2 := by
  induction uses generalizing db d with
  | nil => exact h
  | cons u uses ih => exact ih (h.run hI u)

end

/-! ## Opening and closing -/

theorem exec_openEngine (hpath : path ≠ memoryPath) {o : Options} {p : Pager} {d' : Disk}
    (h : (Pager.«open» path o).exec () d = (.ok p, (), d')) :
    (openEngine path o).exec () d = (.ok (.tree p o.compression), (), d') := by
  rw [openEngine, if_neg hpath, Engine.«open», exec_bind_ok h]
  rfl

theorem exec_open {o : Options} (ho : o.validate = .ok ()) {e : Engine} {d' : Disk}
    (h : (openEngine path o).exec () d = (.ok e, (), d')) (l : Library) :
    («open» path o).exec l d = (.ok {
      path := path
      engine := e
      autoCommit := o.autoCommit
      readOnly := o.readOnly
      scriptTimeout := o.scriptTimeout }, l.register, d') := by
  rw [«open», ho, exec_bind, exec_ofResult]
  dsimp only
  rw [exec_bind, exec_alone, h]
  rfl

theorem exec_close {r : Except Error Unit} {db' : Database} {d' : Disk}
    (h : shutdown.exec db d = (r, db', d')) (l : Library) :
    db.close.exec l d = (r, l.deregister, db'.engine.release d') := by
  rw [close, exec_bind, exec_alone, h]
  rfl

variable [Codec]

/-- A database that was opened on the file of an engine lasts. -/
theorem lasting_of_reopen {e : Engine} (h : e.Lasts path d) (hpath : path ≠ memoryPath)
    {o : Options} (ho : o.readOnly = false) (he : o.errorIfExists = false) {l l' : Library}
    {d' : Disk} (hopen : («open» path o).exec l (e.release d) = (.ok db, l', d')) :
    Guarded false (Lasts path) db d' := by
  obtain ⟨q, d₁, m, hpager, hq⟩ := h.reopen ho he
  obtain ⟨hvalid, -⟩ := open_eq_ok hopen
  rw [exec_open hvalid (exec_openEngine hpath hpager)] at hopen
  obtain ⟨rfl, -, rfl⟩ := exec_ok_inj hopen
  exact ⟨ho, nofun, .serving _ hq⟩

/-! ## Histories -/

/-- The writable databases on the file at `path`, which was new when the first of them was opened,
and the disk. -/
inductive Reached (path : String) : Database → Disk → Prop where
  | opened {o : Options} {d d' : Disk} {l l' : Library} {db : Database} (hnew : d.New path)
      (hpath : path ≠ memoryPath) (ho : o.readOnly = false)
      (hopen : («open» path o).exec l d = (.ok db, l', d')) : Reached path db d'
  | used {db : Database} {d : Disk} (h : Reached path db d) (u : Use) :
      Reached path (u.run db d).1 (u.run db d).2
  /-- The database was closed, successfully or not, and the file opened again. -/
  | reopened {o : Options} {d d₁ d' : Disk} {l l₁ l₂ l' : Library} {db db' : Database}
      {r : Except Error Unit} (h : Reached path db d) (ho : o.readOnly = false)
      (he : o.errorIfExists = false) (hclose : db.close.exec l d = (r, l₁, d₁))
      (hopen : («open» path o).exec l₂ d₁ = (.ok db', l', d')) : Reached path db' d'
  /-- The process ended without closing the database, and the file was opened again. -/
  | recovered {o : Options} {d d' : Disk} {l l' : Library} {db db' : Database}
      (h : Reached path db d) (ho : o.readOnly = false) (he : o.errorIfExists = false)
      (hopen : («open» path o).exec l (db.engine.release d) = (.ok db', l', d')) :
      Reached path db' d'

/-- A database on a new file lasts. -/
theorem lasting_of_new (hnew : d.New path) (hpath : path ≠ memoryPath) {o : Options}
    (ho : o.readOnly = false) {l l' : Library} {d' : Disk}
    (hopen : («open» path o).exec l d = (.ok db, l', d')) : Guarded false (Lasts path) db d' := by
  obtain ⟨hvalid, e, hengine, rfl⟩ := open_eq_ok hopen
  refine ⟨ho, nofun, ?_⟩
  rw [openEngine, if_neg hpath] at hengine
  obtain ⟨p, ⟨⟩, d₁, hpager, hrest⟩ := of_exec_bind_ok hengine
  obtain ⟨rfl, -, rfl⟩ := exec_ok_inj hrest
  obtain ⟨file, log, rfl, hready⟩ := fresh_of_open hnew ho (pageSize_of_validate hvalid) hpager
  exact .serving _ (.of_fresh hready)

/-- **Every history of a database leaves it lasting.** -/
theorem Reached.lasting [Codec.Lawful] (h : Reached path db d) :
    path ≠ memoryPath ∧ Guarded false (Lasts path) db d := by
  induction h with
  | opened hnew hpath ho hopen => exact ⟨hpath, lasting_of_new hnew hpath ho hopen⟩
  | used h u ih => exact ⟨ih.1, ih.2.run invariant_lasts u⟩
  | @reopened o d d₁ d' l l₁ l₂ l' db db' r h ho he hclose hopen ih =>
      obtain ⟨hpath, hlasting⟩ := ih
      have hdown := keeps_shutdown invariant_lasts db d hlasting
      rw [exec_close rfl] at hclose
      cases hclose
      exact ⟨hpath, lasting_of_reopen hdown.engine hpath ho he hopen⟩
  | recovered h ho he hopen ih =>
      exact ⟨ih.1, lasting_of_reopen ih.2.engine ih.1 ho he hopen⟩

end Database

end PagedStore
