import PagedStore.Proofs.DetachedCursors
import PagedStore.Proofs.FailedScripts
import PagedStore.Proofs.HostCalls

/-!
# Scripts as transactions

A script that runs while no transaction is open is one. When it comes to its end, its calls have led
the records to where they say, and that is committed: the records are left whatever is taken back
afterwards, and found again when the file is opened anew. When it fails, the database goes on as if
the script had never been run and nothing had waited for a commit before it.
-/

set_option autoImplicit false

namespace PagedStore.Database

open PagedStore.Action Engine Script

/-! ## Where the records are -/

section

variable {place : Place} {path : String} {db : Database} {d : Disk} {m m' : Contents}
  {back : Option Contents}

variable [Codec]

/-- A database reports one map only. -/
theorem Reports.unique (h : Reports db d m) (h' : Reports db d m') : m = m' :=
  Std.ExtTreeMap.ext_getElem? fun key => Except.ok.inj ((h.find key).symm.trans (h'.find key))

/-- A database reports where its engine stands. -/
theorem reports_of_stands (h : Stands place db.engine d m back) : Reports db d m where
  size := h.size
  find key := by
    obtain ⟨e, hexec, -⟩ := h.get key
    rw [Database.find, exec_onEngine, hexec]

/-- Records in memory that are reported are those of the map. -/
theorem maps_of_reports {mem : Memory} (he : db.engine = .memory mem) (hs : mem.Sound)
    (h : Reports db d m) : mem.contents.Maps m where
  sound := hs.contents
  record key := by
    have hfind := h.find key
    rw [Database.find, exec_onEngine, he] at hfind
    exact Except.ok.inj hfind
  size := by
    have hsize := h.size
    rwa [Database.size, he] at hsize

/-- Where the records of a database are that no transaction is open on, and what a rollback would
bring back. -/
structure Placed (place : Place) (back : Option Contents) (db : Database) (d : Disk)
    (m : Contents) : Prop where
  stands : Stands place db.engine d m back
  writable : db.readOnly = false → place ≠ .reader
  kept : db.readOnly = true → back = place.kept m

/-- An engine on a file serves what is reported, or no transaction can be begun. -/
theorem placed_of_lasts (hdb : Guarded false (Lasts path) db d) (h : Reports db d m) :
    (∃ place back, Placed place back db d m) ∨
      db.readOnly = false ∧ (Engine.begin.exec db.engine d).1 ≠ .ok () := by
  have hlasts := hdb.engine
  generalize he : db.engine = e at hlasts ⊢
  cases hlasts with
  | @serving p d m₀ old c hserves =>
      obtain rfl := (reports_of_serves he hserves).unique h
      refine .inl ⟨.file path p.crashPoint, some old, ?_,
        fun _ => Place.file_ne_reader _ _, fun hro => ?_⟩
      · rw [he]
        exact .file c hserves
      · rw [hdb.readOnly_eq] at hro
        cases hro
  | stopped c hserves hch hc hs =>
      refine .inr ⟨hdb.readOnly_eq, ?_⟩
      rw [Engine.begin,
        exec_either (Pager.exec_ensureUsable_stopped (poisoned_of_interrupted hs) _)]
      intro hbegin
      cases hbegin

/-- A database in use has an engine that lasts, or one in memory that keeps a copy of the records
during a transaction only. -/
theorem InUse.lasting_or_sound [Codec.Lawful] (h : InUse db d) :
    (∃ path, Guarded false (Lasts path) db d) ∨
      (∃ readOnly, Guarded readOnly InMemory db d) ∧ Sound db d := by
  induction h with
  | onFile h => exact .inl ⟨_, h.lasting.2⟩
  | inMemory hopen =>
      obtain ⟨-, e, hengine, rfl⟩ := open_eq_ok hopen
      rw [openEngine, if_pos rfl] at hengine
      obtain ⟨rfl, -, rfl⟩ := exec_ok_inj hengine
      refine .inr ⟨⟨_, rfl, fun _ => rfl, .memory Memory.sound_empty _⟩, .memory _, trivial, ?_⟩
      intro _ mem hmem
      cases hmem
      rfl
  | used h u ih =>
      rcases ih with ⟨path, hdb⟩ | ⟨⟨readOnly, hdb⟩, hs⟩
      · exact .inl ⟨path, hdb.run invariant_lasts u⟩
      · exact .inr ⟨⟨readOnly, hdb.run (invariant_inMemory readOnly) u⟩, hs.run u⟩

/-- **What is reported is where the engine stands**, unless no transaction can be begun any more. -/
theorem placed_of_reports [Codec.Lawful] (h : FileBacked db d ∨ InUse db d)
    (hfree : db.transaction.isActive = false) (hm : Reports db d m) :
    (∃ place back, Placed place back db d m) ∨
      db.readOnly = false ∧ (Engine.begin.exec db.engine d).1 ≠ .ok () := by
  rcases h with hfile | huse
  · rcases hfile.guarded with ⟨path, hdb⟩ | ⟨m₀, hdb⟩
    · exact placed_of_lasts hdb hm
    · have hstands : Stands .reader db.engine d m₀ none := .reader hdb.engine
      obtain rfl := (reports_of_stands hstands).unique hm
      refine .inl ⟨_, _, hstands, fun hro => ?_, fun _ => rfl⟩
      rw [hdb.readOnly_eq] at hro
      cases hro
  · rcases huse.lasting_or_sound with ⟨path, hdb⟩ | ⟨⟨readOnly, hdb⟩, hs⟩
    · exact placed_of_lasts hdb hm
    · obtain ⟨mem, he, hsound⟩ := hdb.engine.exists_memory
      have hcopy : Option.Rel Memory.Contents.Maps mem.snapshot none := by
        rw [hs.noCopy hfree mem he]
        exact .none
      refine .inl ⟨.memory, none, ?_, fun _ => Place.memory_ne_reader, fun _ => rfl⟩
      rw [he]
      exact .memory mem (maps_of_reports he hsound hm) hcopy d

end

/-! ## Scripts that come to their end -/

/-- The records of a database are there for good: they are left when all is taken back that waits
for a commit, and found again when the file is opened anew although it was never closed. -/
structure Permanent [Codec] (db : Database) (d : Disk) (m : Contents) : Prop where
  kept : Reports { db with engine := db.engine.rolledBack } d m
  recovered : ∀ {p c} {o : Options}, db.engine = .tree p c → p.path ≠ memoryPath →
    o.validate = .ok () → o.readOnly = false → o.errorIfExists = false → ∀ l, ∃ db' l' d',
      («open» p.path o).exec l (db.engine.release d) = (.ok db', l', d') ∧ Reports db' d' m

/-- How the engine of a database refuses a record: a file may have no room for it. -/
def refuses (db : Database) : Error → Prop :=
  match db.engine with
  | .tree .. => Tree.Refused
  | .memory _ => fun _ => False

section

variable {place : Place} {auto : Bool} {db db' : Database} {d d' : Disk} {caller : Caller}
  {s s' : Script} {talk : Conversation Ending} {l : Ledger} {m : Contents}
  {back : Option Contents}

variable [Codec]

theorem refuses_of_stands (h : Stands place db.engine d m back) (e : Error)
    (he : place.Refuses e) : db.refuses e := by
  generalize hengine : db.engine = engine at h
  rw [refuses, hengine]
  cases h with
  | file c h => exact he
  | reader h => exact he.elim
  | memory mem h copy d => exact he.elim

/-- Records that nothing is to be taken back of are there for good. -/
theorem permanent_of_settled (h : Settled place db.engine d m) (hplace : place ≠ .reader) :
    Permanent db d m where
  kept := by
    cases place with
    | file path point =>
        have hback := Stands.rollback h
        exact reports_of_stands hback
    | reader => exact absurd rfl hplace
    | memory =>
        rw [Settled] at h
        generalize he : db.engine = e at h
        cases h with
        | memory mem hm copy d =>
            obtain ⟨contents, snapshot⟩ := mem
            cases copy with
            | none =>
                have hstands : Stands .memory (.memory ⟨contents, none⟩) d m none :=
                  .memory ⟨contents, none⟩ hm .none d
                exact reports_of_stands hstands
  recovered := by
    intro p c o he hpath hvalid ho hex library
    rw [Settled] at h
    rw [he] at h ⊢
    cases h with
    | file c h =>
        obtain ⟨q, d', hpager, -, hq⟩ := h.reopen ho hex
        rw [← h.path_eq] at hpager
        exact ⟨_, _, d', exec_open hvalid (exec_openEngine hpath hpager) library,
          reports_of_serves rfl hq⟩
    | reader => exact absurd rfl hplace

/-- What a script says to a database that follows a ledger leads to where the ledger says. -/
theorem Follows.attend [Codec.Lawful] (h : Follows place auto db d l)
    (hjoined : (l.readOnly || l.slot.isActive) = true) (talk : Conversation Ending) (s : Script) :
    ∃ ending s' db' d' m',
      (Script.attend talk).exec (s, db) d = (.ok ending.outcome, (s', db'), d') ∧
      talk.Leads place.Refuses l.readOnly l.current ending m' ∧
      Follows place auto db' d' { l with current := m' } := by
  obtain ⟨ending, db', d', m', hperform, hleads, hfollows⟩ := h.perform hjoined talk
  have hattend := exec_attend_eq talk s db d
  rw [hperform] at hattend
  exact ⟨ending, _, db', d', m', hattend, hleads, hfollows⟩

/-- Where nothing may be changed a script comes to its end with the records as they were. -/
theorem Placed.completed_reader [Codec.Lawful] (h : Placed place back db d m)
    (hro : db.readOnly = true) (hfree : db.transaction.isActive = false)
    (hexec : (Script.run caller talk).exec (s, db) d = (.ok (), (s', db'), d')) :
    ∃ ending m', talk.Leads place.Refuses db.readOnly m ending m' ∧ ending.outcome = .ok () ∧
      db'.transaction.isActive = false ∧
      Stands place db'.engine d' m' (place.kept m') := by
  have hjoined : (db.readOnly || db.transaction.isActive) = true := by simp [hro]
  let l : Ledger := { readOnly := db.readOnly, current := m, slot := db.transaction }
  have hfollows : Follows place db.autoCommit db d l := by
    refine Agrees.follows ⟨rfl, rfl, rfl, h.writable, fun ha => ?_⟩ hfree ?_
    · rw [hfree] at ha
      cases ha
    · rw [Settled, ← h.kept hro]
      exact h.stands
  obtain ⟨ending, s₁, db₁, d₁, m', hattend, hleads, hnext⟩ := hfollows.attend hjoined talk s
  rw [exec_run_joined hjoined, attendOnly, exec_bind, exec_self] at hexec
  dsimp only at hexec
  split at hexec
  · cases hexec
  rw [exec_bind_ok hattend] at hexec
  cases houtcome : ending.outcome with
  | error report =>
      rw [houtcome] at hexec
      cases hexec
  | ok _ =>
      rw [houtcome] at hexec
      cases hexec
      have hfree' : db'.transaction.isActive = false := by
        rw [hnext.slot]
        exact hfree
      have hstands := hnext.engine
      rw [Ledger.back, if_neg (by simp [l, hfree])] at hstands
      exact ⟨ending, m', hleads, houtcome, hfree', hstands⟩

/-- A script does not come to its end where its transaction cannot be begun. -/
theorem ne_completed_of_stuck (hro : db.readOnly = false)
    (hfree : db.transaction.isActive = false)
    (hstuck : (Engine.begin.exec db.engine d).1 ≠ .ok ()) :
    (Script.run caller talk).exec (s, db) d ≠ (.ok (), (s', db'), d') := by
  intro hexec
  have hrun := ownRun caller talk s hro hfree d
  rw [hexec] at hrun
  cases hrun with
  | held hbegin => exact hstuck (congrArg Prod.fst hbegin)

/-- A script that comes to its end within its own transaction has its changes committed. -/
theorem Placed.completed_writer [Codec.Lawful] (h : Placed place back db d m)
    (hro : db.readOnly = false) (hfree : db.transaction.isActive = false)
    (hexec : (Script.run caller talk).exec (s, db) d = (.ok (), (s', db'), d')) :
    ∃ ending m', talk.Leads place.Refuses db.readOnly m ending m' ∧ ending.outcome = .ok () ∧
      db'.transaction.isActive = false ∧
      Stands place db'.engine d' m' (place.kept m') := by
  have hrun := ownRun caller talk s hro hfree d
  rw [hexec] at hrun
  cases hrun with
  | @held e f slot outcome s₁ _ hbegin howner _ _ hattend hend =>
      obtain ⟨_, old, hbegin', hstands, -⟩ := h.stands.begin (h.writable hro)
      rw [hbegin] at hbegin'
      cases hbegin'
      have hactive : slot.isActive = true := by
        rw [isActive_eq_owner, howner]
        rfl
      let l : Ledger := { readOnly := false, current := m, committed := old, slot := slot }
      have hfollows : Follows place db.autoCommit
          { db with engine := e, transaction := slot } d l := by
        refine ⟨⟨hro, rfl, rfl, fun _ => h.writable hro, fun _ => rfl⟩, ?_⟩
        rw [Ledger.back, if_pos hactive]
        exact hstands
      have hjoined : (l.readOnly || l.slot.isActive) = true := hactive
      obtain ⟨ending, _, _, _, m', hheld, hleads, hnext⟩ := hfollows.attend hjoined talk s
      rw [hattend] at hheld
      obtain ⟨houtcome, hstates⟩ := Prod.mk.inj hheld
      obtain rfl := Except.ok.inj houtcome
      cases hstates
      cases hresult : ending.outcome with
      | error report =>
          rw [hresult, exec_conclude_failed howner] at hend
          cases hend
      | ok _ =>
          rw [hresult, exec_conclude_ok howner] at hend
          -- The commit at the end leaves nothing that could be taken back.
          let ended : Ledger := { l with current := m', slot := slot.abandon }
          have hagrees : Agrees place db.autoCommit
              { db with engine := f, transaction := slot.abandon } ended :=
            ⟨hro, rfl, rfl, fun _ => h.writable hro, fun _ => rfl⟩
          obtain ⟨r, db₂, d₂, hsettle, hr⟩ := hagrees.settles rfl rfl hnext.engine
          have hends := congrArg (fun out => (out.1, out.2.1.2, out.2.2)) hend
          rw [abandoned] at hends
          cases hsettle.symm.trans hends
          refine ⟨ending, m', hro ▸ hleads, hresult, ?_, hr.engine⟩
          rw [hr.slot]
          rfl

/-! ## The main result -/

/-- **A script is a transaction**, whatever it says to the database, and whatever that depends on.
It is run while none is open, on a database over any engine, with changes committed at once or not,
and with any records.

If it fails, or the names that it found cannot be given back after it, the files are untouched, no
transaction is open, and whatever is done from then on is answered as if the script had never been
run and nothing had waited for a commit before it. So the records are those from before the script
unless changes were pending in a file.

If it comes to its end, the records are those that its calls lead to, one after the other, no
transaction is open, and they are there for good; where nothing may be changed they are those from
before. -/
theorem script_is_transaction [Codec.Lawful] {r : Except Error Unit}
    (hfree : db.transaction.isActive = false)
    (hexec : (Script.run caller talk).exec (s, db) d = (r, (s', db'), d')) :
    (Used db d → ∀ report, r = .error (.vm report) →
      d' = d ∧ db'.transaction.isActive = false ∧
      ∀ later, ((perform later).exec db' d).1 = ((perform later).exec db.withoutPending d).1 ∧
        ((perform later).exec db' d).2.2 = ((perform later).exec db.withoutPending d).2.2) ∧
    (FileBacked db d ∨ InUse db d → r = .ok () → ∀ m, Reports db d m →
      ∃ ending m', talk.Leads db.refuses db.readOnly m ending m' ∧ ending.outcome = .ok () ∧
        db'.transaction.isActive = false ∧ Reports db' d' m' ∧
        (db.readOnly = false → Permanent db' d' m') ∧ (db.readOnly = true → m' = m)) := by
  constructor
  · rintro hused report rfl
    have hs := hused.sound
    obtain ⟨rfl, hended, hmatching⟩ : d' = d ∧ db'.transaction.isActive = false ∧
        Matching d db.withoutPending db' := by
      cases hro : db.readOnly with
      | true =>
          obtain ⟨hd, hsame, hm⟩ := hs.failed_reader hro hexec
          rw [withoutPending_eq_self (.inr hro), hsame]
          exact ⟨hd, hfree, hm⟩
      | false => exact hs.failed_writer hro hfree hexec
    refine ⟨rfl, hended, fun later => ?_⟩
    obtain ⟨answers, t, t', d₁, hleft, hright, -⟩ := matching_perform later _ _ _ hmatching
    rw [hleft, hright]
    exact ⟨rfl, rfl⟩
  · rintro huse rfl m hm
    rcases placed_of_reports huse hfree hm with ⟨place, back, hplaced⟩ | ⟨hro, hstuck⟩
    · have hrefuses := refuses_of_stands hplaced.stands
      cases hro : db.readOnly with
      | true =>
          obtain ⟨ending, m', hleads, houtcome, hended, hstands⟩ :=
            hplaced.completed_reader hro hfree hexec
          rw [hro] at hleads
          exact ⟨ending, m', hleads.mono hrefuses, houtcome, hended, reports_of_stands hstands,
            nofun, fun _ => hleads.records_eq⟩
      | false =>
          obtain ⟨ending, m', hleads, houtcome, hended, hstands⟩ :=
            hplaced.completed_writer hro hfree hexec
          rw [hro] at hleads
          exact ⟨ending, m', hleads.mono hrefuses, houtcome, hended, reports_of_stands hstands,
            fun _ => permanent_of_settled hstands (hplaced.writable hro), nofun⟩
    · exact absurd hexec (ne_completed_of_stuck hro hfree hstuck)

end

/-! ## Scripts that store a record -/

/-- The call `db.store('k','v')`. -/
def storing : Expr :=
  .call (.index (.name .global (Bytes.ofString "db")) (.string (Bytes.ofString "store")) 1)
    [.string (Bytes.ofString "k"), .string (Bytes.ofString "v")] 1

/-- The call `error('x')`. -/
def failing : Expr :=
  .call (.name .global (Bytes.ofString "error")) [.string (Bytes.ofString "x")] 1

/-- A script that stores a record. -/
def storesOnce : Script where
  source := "db.store('k','v')"
  program := .mk [] true [.perform storing]

/-- A script that stores a record and fails. -/
def storesAndFails : Script where
  source := "db.store('k','v') error('x')"
  program := .mk [] true [.perform storing, .perform failing]

set_option maxRecDepth 10000 in
theorem compile_storesOnce : Script.compile storesOnce.source = .ok storesOnce := by
  with_unfolding_all rfl

set_option maxRecDepth 10000 in
theorem compile_storesAndFails : Script.compile storesAndFails.source = .ok storesAndFails := by
  with_unfolding_all rfl

section

variable [Codec]

/-- What a script leaves of a database and of the disk. -/
def runAlone (s : Script) (db : Database) (d : Disk) : Database × Disk :=
  Use.run db d (.script 0 s (s.conversation db.scriptTimeout))

theorem exec_runAlone (s : Script) (db : Database) (d : Disk) :
    (Script.run 0 (s.conversation db.scriptTimeout)).exec (s, db) d =
      (((Script.execute 0).exec (s, db) d).1,
        (((Script.execute 0).exec (s, db) d).2.1.1, (runAlone s db d).1), (runAlone s db d).2) := by
  rw [← exec_execute]
  rfl

set_option maxRecDepth 4000 in
theorem fails_storesAndFails (d : Disk) :
    ((Script.execute 0).exec (storesAndFails, onEmptyFile none) d).1 =
      .error (.vm "runtime error: [string \"script\"]:1: x") := by
  with_unfolding_all rfl

set_option maxRecDepth 4000 in
theorem completes_storesOnce (d : Disk) :
    ((Script.execute 0).exec (storesOnce, onEmptyFile none) d).1 = .ok () := by
  with_unfolding_all rfl

set_option maxRecDepth 4000 in
theorem find_storesOnce (d : Disk) :
    ((find (Bytes.ofString "k")).exec (runAlone storesOnce (onEmptyFile none) d).1
      (runAlone storesOnce (onEmptyFile none) d).2).1 = .ok (some (Bytes.ofString "v")) := by
  with_unfolding_all rfl

end

/-- A look-up of the record. -/
def lookUp : List Operation := [.call 0 (.find (Bytes.ofString "k")) rfl]

theorem script_is_transaction_one_record :
    Script.compile storesAndFails.source = .ok storesAndFails ∧
      Script.compile storesOnce.source = .ok storesOnce ∧
      ∃ d, Used (onEmptyFile none) d ∧
      (runAlone storesAndFails (onEmptyFile none) d).2 = d ∧
      (runAlone storesAndFails (onEmptyFile none) d).1.transaction.isActive = false ∧
      ((perform lookUp).exec (runAlone storesAndFails (onEmptyFile none) d).1 d).1 =
        .ok [.reply (.ok (.perhaps none))] ∧
      ∃ m, m[Bytes.ofString "k"]? = some (Bytes.ofString "v") ∧
        Permanent (runAlone storesOnce (onEmptyFile none) d).1
          (runAlone storesOnce (onEmptyFile none) d).2 m := by
  let d := openedFiles none
  have hused : Used (onEmptyFile none) d :=
    .opened Pager.namesLive_emptyFiles Pager.namesApart_emptyFiles (open_onEmptyFile none)
  obtain ⟨hreached, hserves⟩ := reached_onEmptyFile none
  have hreports : Reports (onEmptyFile none) d ∅ := reports_of_serves rfl hserves
  obtain ⟨hfailed, -⟩ :=
    script_is_transaction rfl (exec_runAlone storesAndFails (onEmptyFile none) d)
  obtain ⟨hd, hended, hlater⟩ := hfailed hused _ (fails_storesAndFails d)
  obtain ⟨-, hcompleted⟩ :=
    script_is_transaction rfl (exec_runAlone storesOnce (onEmptyFile none) d)
  obtain ⟨ending, m, -, -, -, hm, hpermanent, -⟩ :=
    hcompleted (.inl (.writer hreached)) (completes_storesOnce d) ∅ hreports
  refine ⟨compile_storesAndFails, compile_storesOnce, d, hused, hd, hended,
    (hlater lookUp).1.trans ?_, m, ?_, hpermanent rfl⟩
  · with_unfolding_all rfl
  · exact Except.ok.inj ((hm.find _).symm.trans (find_storesOnce d))

/-! ## A record that waits for a commit -/

/-- A script that fails. -/
def onlyFails : Script where
  source := "error('x')"
  program := .mk [] true [.perform failing]

set_option maxRecDepth 10000 in
theorem compile_onlyFails : Script.compile onlyFails.source = .ok onlyFails := by
  with_unfolding_all rfl

/-- The database on the empty file, with changes that are not committed at once. -/
def holdingBack : Database := { onEmptyFile none with autoCommit := false }

section

variable [Codec]

/-- It, with a record that waits for a commit. -/
def withPending (d : Disk) : Database :=
  (Use.run holdingBack d (.call 0 (.store (Bytes.ofString "k") (Bytes.ofString "v")))).1

set_option maxRecDepth 4000 in
theorem fails_onlyFails (d : Disk) :
    ((Script.execute 0).exec (onlyFails, withPending d) d).1 =
      .error (.vm "runtime error: [string \"script\"]:1: x") := by
  with_unfolding_all rfl

set_option maxRecDepth 4000 in
theorem size_withPending (d : Disk) : (withPending d).size = 1 := by
  with_unfolding_all rfl

set_option maxRecDepth 4000 in
theorem size_onlyFails (d : Disk) : (runAlone onlyFails (withPending d) d).1.size = 0 := by
  with_unfolding_all rfl

end

theorem used_withPending : Used (withPending (openedFiles none)) (openedFiles none) := by
  have hused : Used (onEmptyFile none) (openedFiles none) :=
    .opened Pager.namesLive_emptyFiles Pager.namesApart_emptyFiles (open_onEmptyFile none)
  have hheld : Used holdingBack (openedFiles none) := hused.used (.configure (.autoCommit false))
  have hdisk : ∀ d, (Use.run holdingBack d
      (.call 0 (.store (Bytes.ofString "k") (Bytes.ofString "v")))).2 = d := by
    intro d
    with_unfolding_all rfl
  have hpending := hheld.used (.call 0 (.store (Bytes.ofString "k") (Bytes.ofString "v")))
  rwa [hdisk] at hpending

/-- A script that writes nothing and fails takes a record away that was stored before it. -/
theorem failed_script_drops_pending :
    Script.compile onlyFails.source = .ok onlyFails ∧
      Used (withPending (openedFiles none)) (openedFiles none) ∧
      (withPending (openedFiles none)).transaction.isActive = false ∧
      ((Script.execute 0).exec (onlyFails, withPending (openedFiles none)) (openedFiles none)).1 =
        .error (.vm "runtime error: [string \"script\"]:1: x") ∧
      (withPending (openedFiles none)).size = 1 ∧
      (runAlone onlyFails (withPending (openedFiles none)) (openedFiles none)).1.size = 0 := by
  refine ⟨compile_onlyFails, used_withPending, ?_, fails_onlyFails _, size_withPending _,
    size_onlyFails _⟩
  with_unfolding_all rfl

end PagedStore.Database
