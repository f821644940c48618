import PagedStore.Proofs.CompressionRoundTrip
import PagedStore.Proofs.DatabaseLife

/-!
# Closing a database

Closing commits what is open and gives the file back, whatever comes of the commit. When the file is
opened again it shows the records that the database told of before, unless the commit was made to
stop before its mark was in the log; then it shows those of the last commit.

Without a transaction the answer is that of the commit. With a transaction it is not: the commit of
the transaction that was left open may fail, its changes are taken back, and what is answered is
only that after this there was nothing left to be done.
-/

set_option autoImplicit false

namespace PagedStore

open PagedStore.Action Pager

/-- No commit of the engine was made to stop. -/
def Engine.Usable (e : Engine) : Prop := ∀ p, e.pager? = some p → p.poisoned = none

/-- Whether the next commit is going to stop before its mark is in the log. -/
def Engine.losesChanges : Engine → Bool
  | .tree p _ => p.hasChanges && p.crashPoint == some .beforeLogCommit
  | .memory _ => false

namespace Database

open Engine

variable {path : String} {db : Database} {p q : Pager} {d d' : Disk} {m old : Contents}

/-! ## What a database tells about its records -/

/-- A database counts the records of the map and finds them. -/
structure Reports [Codec] (db : Database) (d : Disk) (m : Contents) : Prop where
  size : db.size = m.size
  find : ∀ key, ((find key).exec db d).1 = .ok m[key]?

/-- A database reports what its engine serves. -/
theorem reports_of_serves [Codec] {c : Compression} (he : db.engine = .tree p c)
    (h : Serves path p d m old) : Reports db d m where
  size := by
    rw [Database.size, he]
    exact h.current.size_eq
  find key := by
    obtain ⟨x, q, hexec, hx, -⟩ := h.asks (Tree.does_get h.current key)
    rw [Database.find, exec_onEngine, he, Engine.get, query, exec_either_tree, hexec, hx]

/-! ## The last commit -/

/-- A database whose transaction was taken from its owner. -/
def abandoned (db : Database) : Database := { db with transaction := db.transaction.abandon }

theorem engine_abandoned {e : Engine} (h : db.engine = e) : db.abandoned.engine = e := h

theorem exec_shutdown (h : db.readOnly = false) (d : Disk) :
    shutdown.exec db d =
      if db.transaction.isActive then
        let settled := settle.exec db.abandoned d
        (onEngine Engine.close).exec settled.2.1 settled.2.2
      else (onEngine Engine.close).exec db.abandoned d := by
  have hcommits : (db.transaction.isActive && !db.readOnly) = db.transaction.isActive := by
    rw [h]
    exact Bool.and_true _
  rw [shutdown, exec_bind, exec_self]
  dsimp only
  rw [exec_bind, exec_update, hcommits]
  cases db.transaction.isActive <;> rfl

theorem exec_engine_commit {c : Compression} (he : db.engine = .tree p c) {r : Except Error Unit}
    (h : Pager.commit.exec p d = (r, q, d')) :
    Engine.commit.exec db.engine d = (r, .tree q c, d') := by
  rw [he]
  exact exec_either h

theorem exec_onEngine_close {c : Compression} (he : db.engine = .tree p c) {r : Except Error Unit}
    (h : Tree.close.exec p d = (r, q, d')) :
    (onEngine Engine.close).exec db d = (r, { db with engine := .tree q c }, d') := by
  have hclose : Engine.close.exec db.engine d = (r, .tree q c, d') := by
    rw [he]
    exact exec_query h
  rw [exec_onEngine, hclose]

/-- When the last commit succeeds the files hold all that was reported. -/
theorem exec_shutdown_committed [Codec] {c : Compression} (he : db.engine = .tree p c)
    (hro : db.readOnly = false) (h : Serves path p d m old)
    (hc : p.hasChanges = false ∨ p.crashPoint = none) :
    ∃ q d', shutdown.exec db d = (.ok (), { db.abandoned with engine := .tree q c }, d') ∧
      Serves path q d' m m := by
  obtain ⟨q, d₁, hcommit, -, hclean, hq⟩ := h.commit hc
  rw [exec_shutdown hro]
  split
  · -- The transaction is committed first, so there is nothing left for the engine to commit.
    obtain ⟨q', d', hcommit', -, -, hq'⟩ := hq.commit (.inl hclean)
    rw [← hq.ready.exec_close] at hcommit'
    refine ⟨q', d', ?_, hq'⟩
    rw [exec_settle_ok (exec_engine_commit (engine_abandoned he) hcommit)]
    exact exec_onEngine_close rfl hcommit'
  · rw [← h.ready.exec_close] at hcommit
    exact ⟨q, d₁, exec_onEngine_close (engine_abandoned he) hcommit, hq⟩

/-- When the last commit fails only a database without a transaction says so. -/
theorem exec_shutdown_failed {c : Compression} (he : db.engine = .tree p c)
    (hro : db.readOnly = false) (h : Ready p d) {error : Error}
    (hcommit : Pager.commit.exec p d = (.error error, q, d')) {reason : String}
    (hq : q.poisoned = some reason) :
    ∃ q', shutdown.exec db d = (if db.transaction.isActive then .ok () else .error error,
        { db.abandoned with engine := .tree q' c }, d') ∧ q'.file = q.file := by
  rw [exec_shutdown hro]
  split
  · rw [exec_settle_error (exec_engine_commit (engine_abandoned he) hcommit)]
    have hback : q.rolledBack.poisoned = some reason := hq
    exact ⟨q.rolledBack, exec_onEngine_close rfl (exec_close_poisoned hback d'), rfl⟩
  · rw [← h.exec_close] at hcommit
    exact ⟨q, exec_onEngine_close (engine_abandoned he) hcommit, rfl⟩

/-- A database with an engine that was made to stop is closed without a word. -/
theorem exec_shutdown_poisoned {c : Compression} (he : db.engine = .tree p c)
    (hro : db.readOnly = false) {reason : String} (hp : p.poisoned = some reason) (d : Disk) :
    ∃ q, shutdown.exec db d = (.ok (), { db.abandoned with engine := .tree q c }, d) ∧
      q.file = p.file := by
  rw [exec_shutdown hro]
  split
  · obtain ⟨error, hcommit⟩ := exec_commit_poisoned hp d
    rw [exec_settle_error (exec_engine_commit (engine_abandoned he) hcommit)]
    have hback : p.rolledBack.poisoned = some reason := hp
    exact ⟨p.rolledBack, exec_onEngine_close rfl (exec_close_poisoned hback d), rfl⟩
  · exact ⟨p, exec_onEngine_close (engine_abandoned he) (exec_close_poisoned hp d), rfl⟩

/-- **What closing makes of a database that serves records**, and what its file then shows. -/
theorem closes_serving [Codec] {c : Compression} (he : db.engine = .tree p c)
    (hro : db.readOnly = false) (h : Serves path p d m old) {o : Options} (ho : o.readOnly = false)
    (hex : o.errorIfExists = false) (l : Library) :
    ∃ d₁ q d₂, db.close.exec l d = (
        if db.transaction.isActive then .ok () else (Engine.commit.exec db.engine d).1,
        l.deregister, d₁) ∧
      (Pager.«open» path o).exec () d₁ = (.ok q, (), d₂) ∧
      Serves path q d₂ (if db.engine.losesChanges then old else m)
        (if db.engine.losesChanges then old else m) := by
  have hanswer : (Engine.commit.exec db.engine d).1 = (Pager.commit.exec p d).1 := by
    rw [he, Engine.commit, exec_either_tree]
  have hloses : db.engine.losesChanges =
      (p.hasChanges && p.crashPoint == some .beforeLogCommit) := by rw [he, losesChanges]
  rw [hanswer, hloses]
  by_cases hc : p.hasChanges = false ∨ p.crashPoint = none
  · obtain ⟨q, d', hdown, hq⟩ := exec_shutdown_committed he hro h hc
    obtain ⟨q', d₂, hopen, -, hq'⟩ := hq.reopen ho hex
    obtain ⟨_, _, hcommit, -⟩ := h.commit hc
    have hkept : (p.hasChanges && p.crashPoint == some .beforeLogCommit) = false := by
      rcases hc with hc | hc <;> simp [hc]
    rw [hkept, if_neg Bool.false_ne_true, hcommit, ite_self]
    exact ⟨_, q', d₂, exec_close hdown l, hopen, hq'⟩
  · rw [not_or, Bool.not_eq_false] at hc
    obtain ⟨hch, point, hpoint⟩ := hc.imp_right Option.ne_none_iff_exists'.1
    obtain ⟨log, -, -, -, hcommit⟩ := Pager.exec_commit h.ready
    rw [if_pos hch, hpoint] at hcommit
    dsimp only at hcommit
    obtain ⟨q, hdown, hfile⟩ := exec_shutdown_failed he hro h.ready hcommit rfl
    obtain ⟨q', d₂, hopen, hq'⟩ := h.reopen_stopped hch hpoint ho hex rfl
    rw [hcommit] at hopen ⊢
    have hkept : (p.hasChanges && p.crashPoint == some .beforeLogCommit) = true ↔
        point = .beforeLogCommit := by simp [hch, hpoint]
    simp only [hkept]
    refine ⟨_, q', d₂, exec_close hdown l, ?_, hq'⟩
    rw [Engine.release, Pager.release, hfile]
    exact hopen

/-- What a commit loses it does not pretend to have made lasting. -/
theorem commit_ne_ok_of_loses {c : Compression} (he : db.engine = .tree p c) (h : Ready p d)
    (hl : db.engine.losesChanges = true) : (Engine.commit.exec db.engine d).1 ≠ .ok () := by
  rw [he, losesChanges, Bool.and_eq_true, beq_iff_eq] at hl
  obtain ⟨log, -, -, -, hcommit⟩ := Pager.exec_commit h
  rw [he, Engine.commit, exec_either_tree, hcommit, if_pos hl.1, hl.2]
  intro hok
  cases hok

/-! ## One record in a transaction -/

/-- The pager on the empty file, with commits that are made to stop or not. -/
def emptyPager (point : Option CrashPoint) : Pager :=
  ofHeader "a" 0 (some 1) { pageSize := 512, crashPoint := point } (Header.fresh 512)

/-- The database on the empty file. -/
def onEmptyFile (point : Option CrashPoint) : Database where
  path := "a"
  engine := .tree (emptyPager point) .snappy
  autoCommit := true
  readOnly := false
  scriptTimeout := none

/-- The disk on which it has been opened. -/
def openedFiles (point : Option CrashPoint) : Disk :=
  ((«open» "a" { pageSize := 512, crashPoint := point }).exec {} emptyFiles).2.2

theorem open_onEmptyFile (point : Option CrashPoint) :
    («open» "a" { pageSize := 512, crashPoint := point }).exec {} emptyFiles =
      (.ok (onEmptyFile point), Library.register {}, openedFiles point) := by
  obtain ⟨d, hpager⟩ := closed_emptyFiles.exec_open_empty
    (o := { pageSize := 512, crashPoint := point }) rfl rfl rfl rfl
  have hopen := exec_open (o := { pageSize := 512, crashPoint := point }) rfl
    (exec_openEngine (by decide) hpager) {}
  obtain rfl : openedFiles point = d := congrArg (·.2.2) hopen
  exact hopen

section

variable [Codec]

theorem reached_onEmptyFile (point : Option CrashPoint) :
    Reached "a" (onEmptyFile point) (openedFiles point) ∧
      Serves "a" (emptyPager point) (openedFiles point) ∅ ∅ := by
  let o : Options := { pageSize := 512, crashPoint := point }
  obtain ⟨d, hpager⟩ := closed_emptyFiles.exec_open_empty (o := o) rfl rfl rfl rfl
  have hopen := open_onEmptyFile point
  have hsize : o.pageSize ∈ pageSizes := List.mem_cons_self
  obtain ⟨_, _, -, hready⟩ := fresh_of_open new_emptyFiles rfl hsize hpager
  rw [exec_open (o := o) rfl (exec_openEngine (by decide) hpager)] at hopen
  obtain rfl : d = openedFiles point := congrArg (·.2.2) hopen
  exact ⟨.opened new_emptyFiles (by decide) rfl (open_onEmptyFile point), .of_fresh hready⟩

/-- The empty file has room for a record. -/
theorem put_onEmptyFile [Codec.Lawful] {point : Option CrashPoint} {d : Disk}
    (h : Serves "a" (emptyPager point) d ∅ ∅) :
    ∃ q, (Engine.put [1] [2]).exec (onEmptyFile point).engine d = (.ok (), .tree q .snappy, d) ∧
      q.crashPoint = point ∧ Serves "a" q d ((∅ : Contents).insert [1] [2]) ∅ := by
  have hput : Settles ((emptyPager point).face d) (Tree.put .snappy [1] [2]) Tree.Refused
      fun _ g => True ∧ Tree.Stores g ((∅ : Contents).insert [1] [2]) :=
    (Tree.settles_put h.current .snappy [1] [2]).post fun _ _ hs => ⟨trivial, hs⟩
  obtain ⟨r, q, hexec, hs, hr⟩ := h.settles (Q := fun _ => True) hput
  have hok : ((Tree.put .snappy [1] [2]).exec (emptyPager point) d).1 = .ok () := by
    with_unfolding_all rfl
  rw [hexec] at hok
  obtain rfl : r = .ok () := hok
  refine ⟨q, ?_, hs.crashPoint, hr.2⟩
  rw [Engine.put, onEmptyFile, exec_either_tree, hexec]

/-- A transaction is begun on the empty file. -/
theorem reached_begun (point : Option CrashPoint) :
    ∃ slot d, slot.isActive = true ∧
      Reached "a" { onEmptyFile point with transaction := slot } d ∧
      Serves "a" (emptyPager point) d ∅ ∅ := by
  obtain ⟨hreached, hserves⟩ := reached_onEmptyFile point
  have hready : Engine.begin.exec (onEmptyFile point).engine (openedFiles point) =
      (.ok (), (onEmptyFile point).engine, openedFiles point) := rfl
  obtain ⟨slot, hbegin, howner⟩ := exec_begin rfl rfl 0 hready
  have hactive : slot.isActive = true := by
    rw [isActive_eq_owner, howner]
    rfl
  have hused := hreached.used (.call 0 .begin)
  rw [Use.run, Call.run, exec_bind_ok hbegin] at hused
  exact ⟨slot, openedFiles point, hactive, hused, hserves⟩

/-- What is stored in a transaction belongs to it. -/
theorem Reached.store_pending (h : Reached path db d) (hro : db.readOnly = false)
    (hactive : db.transaction.isActive = true) {key value : Bytes} {e : Engine}
    (hput : (Engine.put key value).exec db.engine d = (.ok (), e, d')) :
    Reached path { db with engine := e } d' := by
  have hstore : (store key value).exec db d = (.ok (), { db with engine := e }, d') :=
    exec_mutate_pending hro hactive hput
  have hused := h.used (.call 0 (.store key value))
  rwa [Use.run, Call.run, exec_bind_ok hstore] at hused

/-- A record is stored in a transaction that stays open. -/
theorem reached_pending [Codec.Lawful] (point : Option CrashPoint) :
    ∃ db p d, Reached "a" db d ∧ db.transaction.isActive = true ∧ db.readOnly = false ∧
      db.engine = .tree p .snappy ∧ p.crashPoint = point ∧
      Serves "a" p d ((∅ : Contents).insert [1] [2]) ∅ := by
  obtain ⟨slot, d, hactive, hbegun, hserves⟩ := reached_begun point
  obtain ⟨q, hput, hpoint, hq⟩ := put_onEmptyFile hserves
  exact ⟨_, q, d, hbegun.store_pending rfl hactive hput, hactive, rfl, rfl, hpoint, hq⟩

end

/-- The records of the keys 1 and 3. -/
def pairOfRecords : Contents := ((∅ : Contents).insert [1] [2]).insert [3] [4]

theorem toList_pairOfRecords : pairOfRecords.toList = [([1], [2]), ([3], [4])] := by
  with_unfolding_all rfl

set_option maxRecDepth 4000 in
/-- Two records are stored in a transaction that stays open. -/
theorem reached_pairOfRecords :
    ∃ db q d, Reached "a" db d ∧ db.transaction.isActive = true ∧ db.readOnly = false ∧
      db.engine = .tree q .snappy ∧ Serves "a" q d pairOfRecords ∅ := by
  obtain ⟨slot, d, hactive, hbegun, hserves⟩ := reached_begun none
  obtain ⟨p, hput, -, hp⟩ := put_onEmptyFile hserves
  have hfirst : (Tree.put .snappy [1] [2]).exec (emptyPager none) d = (.ok (), p, d) := by
    rw [Engine.put, onEmptyFile, exec_either_tree] at hput
    match hout : (Tree.put .snappy [1] [2]).exec (emptyPager none) d with
    | (r, p', d') =>
        rw [hout] at hput
        cases hput
        rfl
  have hboth : ((Tree.put .snappy [1] [2] >>= fun _ => Tree.put .snappy [3] [4]).exec
      (emptyPager none) d).1 = .ok () := by with_unfolding_all rfl
  rw [exec_bind_ok hfirst] at hboth
  have hsettles : Settles (p.face d) (Tree.put .snappy [3] [4]) Tree.Refused
      fun _ g => True ∧ Tree.Stores g pairOfRecords :=
    (Tree.settles_put hp.current .snappy [3] [4]).post fun _ _ hs => ⟨trivial, hs⟩
  obtain ⟨r, q, hexec, -, hr⟩ := hp.settles (Q := fun _ => True) hsettles
  rw [hexec] at hboth
  obtain rfl : r = .ok () := hboth
  have hput' : (Engine.put [3] [4]).exec (.tree p .snappy) d = (.ok (), .tree q .snappy, d) :=
    exec_either hexec
  have hstored := (hbegun.store_pending rfl hactive hput).store_pending rfl hactive hput'
  exact ⟨_, q, d, hstored, hactive, rfl, rfl, hr.2⟩

theorem insert_ne_empty : (∅ : Contents).insert [1] [2] ≠ ∅ := by
  intro h
  have hfound : ((∅ : Contents).insert [1] [2])[([1] : Bytes)]? = some [2] :=
    Std.ExtTreeMap.getElem?_insert_self
  rw [h, Std.ExtTreeMap.getElem?_empty] at hfound
  cases hfound

/-! ## What is found afterwards -/

/-- **What is found after closing.** The file can be opened again. When no commit of the engine was
made to stop before, closing answers what the last commit answers, but with an open transaction it
answers `ok` in any case. If that commit succeeds the file shows what was reported before; if it
fails, the file shows the same or what a rollback would have left. An engine that was made to stop
before is given back as it is. -/
theorem records_after_close [Codec] [Codec.Lawful] (h : Reached path db d) {o : Options}
    (hv : o.validate = .ok ())
    (ho : o.readOnly = false) (hex : o.errorIfExists = false) (l : Library) :
    ∃ r d₁ db' l' d₂, db.close.exec l d = (r, l.deregister, d₁) ∧
      («open» path o).exec l.deregister d₁ = (.ok db', l', d₂) ∧
      (db.engine.Usable → ∃ m old, Reports db d m ∧
        Reports { db with engine := db.engine.rolledBack } d old ∧
        r = (if db.transaction.isActive then .ok () else (Engine.commit.exec db.engine d).1) ∧
        ((Engine.commit.exec db.engine d).1 = .ok () → Reports db' d₂ m) ∧
        Reports db' d₂ (if db.engine.losesChanges then old else m)) ∧
      (¬ db.engine.Usable → r = .ok () ∧ d₁ = db.engine.release d ∧ ∃ m, Reports db' d₂ m) := by
  obtain ⟨hpath, hro, -, hlasts⟩ := h.lasting
  generalize he : db.engine = e at hlasts
  cases hlasts with
  | @serving p d m old c h =>
      obtain ⟨d₁, q, d₂, hclose, hopen, hq⟩ := closes_serving he hro h ho hex l
      refine ⟨_, d₁, _, _, d₂, hclose, exec_open hv (exec_openEngine hpath hopen) _, ?_, ?_⟩
      · intro _
        refine ⟨m, old, reports_of_serves he h, ?_, by rw [he], ?_, ?_⟩
        · exact reports_of_serves (p := p.rolledBack) rfl h.rollback
        · intro hok
          have hkept : db.engine.losesChanges = false := by
            rw [← he] at hok
            exact Bool.eq_false_iff.2 fun hl => commit_ne_ok_of_loses he h.ready hl hok
          rw [hkept] at hq
          exact reports_of_serves rfl hq
        · rw [← he]
          exact reports_of_serves rfl hq
      · intro hu
        refine absurd (fun q hq => ?_) hu
        cases hq
        exact h.ready.usable
  | @stopped p q d m old point c hserves hch hc hs =>
      have hp := poisoned_of_interrupted hs
      obtain ⟨q', hdown, hfile⟩ := exec_shutdown_poisoned he hro hp (Pager.commit.exec p d).2.2
      obtain ⟨p', d₂, m', hopen, hq⟩ := (Lasts.stopped c hserves hch hc hs).reopen ho hex
      refine ⟨.ok (), (Engine.tree q c).release (Pager.commit.exec p d).2.2, _, _, d₂, ?_,
        exec_open hv (exec_openEngine hpath hopen) _, ?_, fun _ => ⟨rfl, rfl, m', ?_⟩⟩
      · rw [exec_close hdown, Engine.release, Engine.release, Pager.release, Pager.release, hfile]
      · exact fun hu => absurd (hp.symm.trans (hu q rfl)) (Option.some_ne_none _)
      · exact reports_of_serves rfl hq

/-- A transaction that is open is committed when no commit is made to stop. -/
theorem records_after_close_one_record :
    ∃ db d r d₁ db' l' d₂, Reached "a" db d ∧
      db.close.exec {} d = (r, ({} : Library).deregister, d₁) ∧
      («open» "a" { pageSize := 512 }).exec ({} : Library).deregister d₁ = (.ok db', l', d₂) ∧
      r = .ok () ∧ ((find [1]).exec db' d₂).1 = .ok (some [2]) := by
  obtain ⟨db, p, d, hreached, hactive, hro, he, hpoint, hserves⟩ := reached_pending none
  obtain ⟨r, d₁, db', l', d₂, hclose, hopen, hfound, -⟩ :=
    records_after_close hreached (o := { pageSize := 512 }) rfl rfl rfl {}
  have husable : db.engine.Usable := by
    rw [he]
    rintro _ ⟨⟩
    exact hserves.ready.usable
  obtain ⟨m, old, hm, -, hr, -, hkept⟩ := hfound husable
  have hloses : db.engine.losesChanges = false := by
    rw [he, losesChanges, hpoint]
    exact Bool.and_false _
  rw [if_pos hactive] at hr
  rw [hloses, if_neg Bool.false_ne_true] at hkept
  refine ⟨db, d, r, d₁, db', l', d₂, hreached, hclose, hopen, hr, ?_⟩
  -- What was reported before is the record that was stored.
  have hsame := (hm.find [1]).symm.trans ((reports_of_serves he hserves).find [1])
  rw [hkept.find, hsame, Std.ExtTreeMap.getElem?_insert_self]

/-- **Closing hides that a transaction was lost.** The database reports a record, it is closed
without an error, and when the file is opened again the record is not there. -/
theorem close_hides_failure :
    ∃ db d l d₁ db' l' d₂, Reached "a" db d ∧ ((find [1]).exec db d).1 = .ok (some [2]) ∧
      db.close.exec {} d = (.ok (), l, d₁) ∧
      («open» "a" { pageSize := 512 }).exec l d₁ = (.ok db', l', d₂) ∧
      ((find [1]).exec db' d₂).1 = .ok none := by
  obtain ⟨db, p, d, hreached, hactive, hro, he, hpoint, hserves⟩ :=
    reached_pending (some .beforeLogCommit)
  obtain ⟨d₁, q, d₂, hclose, hopen, hq⟩ := closes_serving he hro hserves (o := { pageSize := 512 })
    rfl rfl {}
  have hloses : db.engine.losesChanges = true := by
    rw [he, losesChanges, hserves.hasChanges_of_ne insert_ne_empty, hpoint]
    rfl
  rw [if_pos hactive] at hclose
  rw [if_pos hloses] at hq
  refine ⟨db, d, _, d₁, _, _, d₂, hreached, ?_, hclose,
    exec_open rfl (exec_openEngine (by decide) hopen) _, ?_⟩
  · rw [(reports_of_serves he hserves).find, Std.ExtTreeMap.getElem?_insert_self]
  · rw [(reports_of_serves rfl hq).find, Std.ExtTreeMap.getElem?_empty]

end Database

end PagedStore
