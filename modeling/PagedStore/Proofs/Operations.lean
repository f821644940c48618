import PagedStore.Proofs.DatabaseLife
import PagedStore.Proofs.RecordPrograms

/-!
# Operations on records

What can be done with the records of an open database by calls, by cursors, by scans and by scripts,
with the answers. Every operation but the run of a script is a program on records, and so is the
run of a script as long as a transaction is open; without one it is a transaction of its own
(`OwnRun`). A script may say to the database whatever it likes.

Within a transaction, and where nothing may be changed, every operation leaves the settings, the
owner of the transaction and the disk alone (`Stays`), and two databases that match answer any
operation alike (`matching_run`).
-/

set_option autoImplicit false

namespace PagedStore.Database

open PagedStore.Action Engine

/-! ## Operations and their answers -/

/-- What a cursor answers. -/
inductive CursorReply where
  | done
  | truth (b : Bool)
  | record (key value : Bytes)

section

variable [Codec]

/-- Carries out a move and gives what it tells. -/
def CursorMove.tell : CursorMove → Action (Cursor × Database) CursorReply
  | isValid => return .truth (← Cursor.isValid)
  | entry => do
      let (key, value) ← Cursor.entry
      return .record key value
  | m => do
      m.run
      return .done

/-- The records that a cursor meets by a first move and the moves after it, as far as the end, but
no more than `limit`. -/
def collect (start onward : Action (Cursor × Database) Unit) :
    (limit : Nat) → Action (Cursor × Database) (List (Bytes × Bytes))
  | 0 => return []
  | limit + 1 => do
      match ← attempt start with
      | .error .eof => return []
      | .error e => throw e
      | .ok () => do
          let record ← Cursor.entry
          return record :: (← collect onward onward limit)

/-- A scan of the records by a new cursor, from the first one on or from the last one back. -/
def scan (forward : Bool) (limit : Nat) : Action (Cursor × Database) (List (Bytes × Bytes)) :=
  if forward then collect Cursor.first Cursor.next limit else collect Cursor.last Cursor.prev limit

/-- What can be done with the records of a database. -/
inductive Operation where
  | call (caller : Caller) (c : Call) (touches : c.touchesRecords = true)
  | move (c : Cursor) (m : CursorMove)
  | scan (forward : Bool) (limit : Nat)
  | script (caller : Caller) (s : Script) (talk : Script.Conversation Script.Ending)

/-- What is answered, with the cursor or the script as it is then. -/
inductive Answer where
  | reply (r : Except Error Reply)
  | moved (r : Except Error CursorReply) (c : Cursor)
  | records (r : Except Error (List (Bytes × Bytes)))
  | executed (r : Except Error Unit) (s : Script)

/-- Carries out an operation; a failure is an answer too. -/
def Operation.run : Operation → Action Database Answer
  | call caller c _ => return .reply (← attempt (c.run caller))
  | move c m => do
      let (r, c) ← holding m.tell c
      return .moved r c
  | scan forward limit => do
      let (r, _) ← holding (Database.scan forward limit) {}
      return .records r
  | script caller s talk => do
      let (r, s) ← holding (Script.run caller talk) s
      return .executed r s

/-- Carries out operations one after the other. -/
def perform : List Operation → Action Database (List Answer)
  | [] => return []
  | op :: ops => do
      let answer ← op.run
      return answer :: (← perform ops)

/-! ## Cursors and scans are programs on records -/

theorem handles_move (m : CursorMove) : Handles m.run := by
  cases m with
  | seek key mode => exact .bind handles_ensureOpen fun _ => handles_goTo (question_seek key mode) _
  | first => exact .bind handles_ensureOpen fun _ => handles_goTo question_first _
  | last => exact .bind handles_ensureOpen fun _ => handles_goTo question_last _
  | next => exact handles_step question_next
  | prev => exact handles_step question_prev
  | reset => exact .bind handles_ensureOpen fun _ => handles_place _
  | isValid => exact .bind handles_isValid fun _ => .pure _
  | entry => exact .bind handles_entry fun _ => .pure _
  | delete => exact handles_delete

theorem handles_tell (m : CursorMove) : Handles m.tell := by
  cases m with
  | isValid => exact .bind handles_isValid fun _ => .pure _
  | entry => exact .bind handles_entry fun _ => .pure _
  | _ => exact .bind (handles_move _) fun _ => .pure _

theorem handles_collect {start onward : Action (Cursor × Database) Unit} (hs : Handles start)
    (ho : Handles onward) (limit : Nat) : Handles (collect start onward limit) := by
  induction limit generalizing start with
  | zero => exact .pure _
  | succ limit ih =>
      refine .bind hs.attempt fun r => ?_
      match r with
      | .ok () => exact .bind handles_entry fun record => .bind (ih ho) fun rest => .pure _
      | .error e =>
          cases e with
          | eof => exact .pure _
          | _ => exact .throw _

theorem handles_scan (forward : Bool) (limit : Nat) : Handles (scan forward limit) := by
  rw [scan]
  split
  · exact handles_collect (handles_move .first) (handles_move .next) limit
  · exact handles_collect (handles_move .last) (handles_move .prev) limit

/-! ## Scripts -/

/-- A script is run by way of what its program says. -/
theorem exec_execute (caller : Caller) (s : Script) (db : Database) (d : Disk) :
    (Script.execute caller).exec (s, db) d =
      (Script.run caller (s.conversation db.scriptTimeout)).exec (s, db) d := by
  rw [Script.execute, exec_bind, exec_self]

theorem handles_attend (talk : Script.Conversation Script.Ending) : Handles (Script.attend talk) :=
  .bind (.update fun _ _ => rfl) fun _ => .bind (.zoom (records_perform talk)) fun _ =>
    .bind (.update fun _ _ => rfl) fun _ => .pure _

/-- What is left of a run that begins no transaction. -/
def attendOnly (caller : Caller) (talk : Script.Conversation Script.Ending) :
    Action (Script × Database) Unit := do
  let (s, _) ← self
  if s.executed then throw (.invalidState "script already executed; reset it first")
  else
    let outcome ← Script.attend talk
    Script.conclude caller false outcome

theorem handles_attendOnly (caller : Caller) (talk : Script.Conversation Script.Ending) :
    Handles (attendOnly caller talk) := by
  refine .self_bind (fun _ _ _ => rfl) fun s => ?_
  obtain ⟨s, db⟩ := s
  dsimp only
  split
  · exact .throw _
  · refine .bind (handles_attend talk) fun outcome => ?_
    cases outcome with
    | ok _ => exact .pure _
    | error report => exact .throw _

end

section

variable {db : Database} {d d' : Disk} {caller : Caller} {s : Script}
  {talk : Script.Conversation Script.Ending}

section

variable [Codec]

theorem exec_run_executed (h : s.executed = true) (caller : Caller)
    (talk : Script.Conversation Script.Ending) (db : Database) (d : Disk) :
    (Script.run caller talk).exec (s, db) d =
      (.error (.invalidState "script already executed; reset it first"), (s, db), d) := by
  rw [Script.run, exec_bind, exec_self]
  dsimp only
  rw [h]
  rfl

theorem exec_run (h : s.executed = false) (caller : Caller)
    (talk : Script.Conversation Script.Ending) (db : Database) (d : Disk) :
    (Script.run caller talk).exec (s, db) d =
      (Script.onDatabase (beginImplicit caller) >>= fun own =>
        Script.attend talk >>= Script.conclude caller own).exec (s, db) d := by
  rw [Script.run, exec_bind, exec_self]
  dsimp only
  rw [h, if_neg Bool.false_ne_true]

/-- **Within a transaction, and where nothing may be changed, a script does no more than to say what
it says.** -/
theorem exec_run_joined (h : (db.readOnly || db.transaction.isActive) = true) (caller : Caller)
    (talk : Script.Conversation Script.Ending) (s : Script) (d : Disk) :
    (Script.run caller talk).exec (s, db) d = (attendOnly caller talk).exec (s, db) d := by
  rw [attendOnly, exec_bind, exec_self]
  cases hexecuted : s.executed with
  | true =>
      rw [exec_run_executed hexecuted]
      dsimp only
      rw [hexecuted]
      rfl
  | false =>
      have hnone : (beginImplicit caller).exec db d = (.ok false, db, d) := by
        rw [beginImplicit, exec_bind, exec_self]
        dsimp only
        rw [if_pos h]
        rfl
      have hbegin : (Script.onDatabase (beginImplicit caller)).exec (s, db) d =
          (.ok false, (s, db), d) := by
        rw [Script.onDatabase, exec_zoom, hnone]
      rw [exec_run hexecuted, exec_bind_ok hbegin]
      dsimp only
      rw [hexecuted]
      rfl

/-! ### What is heard -/

/-- A script always hears an answer, unless the program stops. -/
theorem exec_perform {α : Type} (c : Script.Conversation α) (db : Database) (d : Disk) :
    (∃ x, (c.perform.exec db d).1 = .ok x) ∨ (c.perform.exec db d).1 = .error .panicked := by
  induction c generalizing db d with
  | done result => exact .inl ⟨result, rfl⟩
  | ask call answered ih =>
      unfold Script.Conversation.perform Script.HostCall.run
      by_cases hpanicked : (call.attempt.exec db d).1 = .error .panicked
      · have hstops : (outcome call.attempt).exec db d =
            (.error .panicked, (call.attempt.exec db d).2) := by
          unfold outcome
          rw [exec_bind_ok (exec_attempt call.attempt db d), hpanicked]
          rfl
        rw [bind_assoc, exec_bind_error hstops]
        exact .inr rfl
      · rw [bind_assoc, exec_bind_ok (exec_outcome hpanicked)]
        cases (call.attempt.exec db d).1 with
        | ok reply => exact ih reply _ _
        | error e => exact ih (.failed e) _ _

/-- What is kept of what a script said. -/
theorem exec_attend_eq (talk : Script.Conversation Script.Ending) (s : Script) (db : Database)
    (d : Disk) :
    (Script.attend talk).exec (s, db) d =
      match talk.perform.exec db d with
      | (.ok ending, db', d') => (.ok ending.outcome, ({ s with
          executed := true
          output := s.output ++ ending.output
          assigned := ending.assigned }, db'), d')
      | (.error e, db', d') => (.error e, ({ s with executed := true }, db'), d') := by
  unfold Script.attend
  rw [exec_bind_ok (exec_update _ _ _), exec_bind, Script.onDatabase, exec_zoom]
  match talk.perform.exec db d with
  | (.ok ending, db', d') => rfl
  | (.error e, db', d') => rfl

/-- What a script says comes to an outcome, unless the program stops. -/
theorem exec_attend (talk : Script.Conversation Script.Ending) (s : Script) (db : Database)
    (d : Disk) :
    ∃ r s' e d', (Script.attend talk).exec (s, db) d = (r, (s', { db with engine := e }), d') ∧
      Left db d e d' ∧ ((∃ outcome, r = .ok outcome) ∨ r = .error .panicked) := by
  obtain ⟨r, s', e, d', hexec, hleft⟩ := (handles_attend talk).leaves s db d
  refine ⟨r, s', e, d', hexec, hleft, ?_⟩
  have hperform := exec_perform talk db d
  rw [exec_attend_eq] at hexec
  match hout : talk.perform.exec db d with
  | (.ok ending, db', d₁) =>
      rw [hout] at hexec
      exact .inl ⟨_, (congrArg Prod.fst hexec).symm⟩
  | (.error error, db', d₁) =>
      rw [hout] at hexec hperform
      rcases hperform with ⟨x, hx⟩ | hpanicked
      · cases hx
      · exact .inr ((congrArg Prod.fst hexec).symm.trans (by rw [Except.error.inj hpanicked]))

/-! ### A run that is a transaction -/

omit [Codec] in
/-- Nobody owns the transaction where none is open. -/
theorem nobody_of_free (h : db.transaction.isActive = false) : db.transaction.owner? = none := by
  rwa [isActive_eq_owner, Option.isSome_eq_false_iff, Option.isNone_iff_eq_none] at h

/-- Where a transaction can be begun the run of a script is one. -/
theorem exec_run_free (caller : Caller) (talk : Script.Conversation Script.Ending)
    (hs : s.executed = false) (hro : db.readOnly = false) (hfree : db.transaction.owner? = none)
    {e : Engine} {r : Except Error Unit} (hbegin : Engine.begin.exec db.engine d = (r, e, d')) :
    ∃ slot : TransactionSlot, slot.owner? = (if r.isOk then some caller else none) ∧
      (Script.run caller talk).exec (s, db) d =
        (ofResult r >>= fun _ => Script.attend talk >>= Script.conclude caller true).exec
          (s, { db with engine := e, transaction := slot }) d' := by
  obtain ⟨slot, hexec, howner⟩ := exec_begin hro hfree caller hbegin
  refine ⟨slot, howner, ?_⟩
  rw [begin, exec_bind_ok (exec_ensureWritable hro d)] at hexec
  have himplicit : (beginImplicit caller).exec db d =
      (r.map fun _ => true, { db with engine := e, transaction := slot }, d') := by
    have hcan : ¬ (db.readOnly || db.transaction.isActive) = true := by
      simp [hro, isActive_eq_owner, hfree]
    rw [beginImplicit, exec_bind, exec_self]
    dsimp only
    rw [if_neg hcan]
    exact exec_bind_pure hexec fun _ => true
  have hon : (Script.onDatabase (beginImplicit caller)).exec (s, db) d =
      (r.map fun _ => true, (s, { db with engine := e, transaction := slot }), d') := by
    rw [Script.onDatabase, exec_zoom, himplicit]
  rw [exec_run hs]
  cases r with
  | ok _ => rw [exec_bind_ok hon, exec_bind_ok (exec_ofResult (.ok ()) _ _)]
  | error error => rw [exec_bind_error hon, exec_bind_error (exec_ofResult (.error error) _ _)]

/-- What may come of a script that runs as a transaction of its own. What it says to the database
leaves the disk alone, and the end of the transaction follows, unless the program stops before. -/
inductive OwnRun (caller : Caller) (talk : Script.Conversation Script.Ending) (s : Script)
    (db : Database) (d : Disk) : Except Error Unit × (Script × Database) × Disk → Prop where
  | refused : OwnRun caller talk s db d
      (.error (.invalidState "script already executed; reset it first"), (s, db), d)
  /-- The engine allows no transaction. -/
  | stuck {error : Error} {slot : TransactionSlot}
      (hbegin : Engine.begin.exec db.engine d = (.error error, db.engine, d)) :
      OwnRun caller talk s db d (.error error, (s, { db with transaction := slot }), d)
  | stopped {e f : Engine} {slot : TransactionSlot} {s' : Script}
      (hbegin : Engine.begin.exec db.engine d = (.ok (), e, d))
      (howner : slot.owner? = some caller) (hreworked : Reworked e f)
      (hidle : Idle db.engine → Idle f) :
      OwnRun caller talk s db d
        (.error .panicked, (s', { db with engine := f, transaction := slot }), d)
  | held {e f : Engine} {slot : TransactionSlot} {outcome : Except String Unit} {s' : Script}
      {out : Except Error Unit × (Script × Database) × Disk}
      (hbegin : Engine.begin.exec db.engine d = (.ok (), e, d))
      (howner : slot.owner? = some caller) (hreworked : Reworked e f)
      (hidle : Idle db.engine → Idle f)
      (hattend : (Script.attend talk).exec (s, { db with engine := e, transaction := slot }) d =
        (.ok outcome, (s', { db with engine := f, transaction := slot }), d))
      (hend : (Script.conclude caller true outcome).exec
          (s', { db with engine := f, transaction := slot }) d = out) :
      OwnRun caller talk s db d out

/-- **A script is a transaction of its own** where one can be begun. -/
theorem ownRun (caller : Caller) (talk : Script.Conversation Script.Ending) (s : Script)
    (hro : db.readOnly = false) (hfree : db.transaction.isActive = false) (d : Disk) :
    OwnRun caller talk s db d ((Script.run caller talk).exec (s, db) d) := by
  cases hexecuted : s.executed with
  | true =>
      rw [exec_run_executed hexecuted]
      exact .refused
  | false =>
      match hbegin : Engine.begin.exec db.engine d with
      | (r, e, d₁) =>
          obtain ⟨rfl, -, hfailed, hbegun⟩ := of_exec_begin hbegin
          obtain ⟨slot, howner, hrun⟩ :=
            exec_run_free caller talk hexecuted hro (nobody_of_free hfree) hbegin
          rw [hrun]
          cases r with
          | error error =>
              obtain rfl := hfailed (by simp)
              rw [exec_bind_error (exec_ofResult (.error error) _ _)]
              exact .stuck hbegin
          | ok _ =>
              obtain ⟨r, s', f, d₂, hattend, hleft, hr⟩ := exec_attend talk s
                { db with engine := e, transaction := slot } d₁
              have hactive : slot.isActive = true := by
                rw [isActive_eq_owner, howner]
                rfl
              obtain ⟨rfl, hreworked⟩ := hleft.joined hactive
              have hidle : Idle db.engine → Idle f := fun h => hleft.idle (hbegun h)
              rw [exec_bind_ok (exec_ofResult (.ok ()) _ _)]
              rcases hr with ⟨outcome, rfl⟩ | rfl
              · rw [exec_bind_ok hattend]
                exact .held hbegin howner hreworked hidle hattend rfl
              · rw [exec_bind_error hattend]
                exact .stopped hbegin howner hreworked hidle

end

/-- Without its changes since the last commit an engine has nothing to take back. -/
theorem clean_rolledBack (e : Engine) : Clean e.rolledBack := by
  cases e with
  | tree p c => exact ⟨rfl, rfl, rfl⟩
  | memory m =>
      rw [Engine.rolledBack, Memory.rollback]
      cases hs : m.snapshot with
      | none => exact hs
      | some contents => rfl

/-- The end of a run leaves nothing that could be taken back, and no transaction. -/
theorem exec_conclude (howner : db.transaction.owner? = some caller)
    (outcome : Except String Unit) (s : Script) (d : Disk) :
    ∃ r e d', (Script.conclude caller true outcome).exec (s, db) d = (r, (s, { db with
        engine := e, transaction := db.transaction.abandon }), d') ∧
      (Idle db.engine → Clean e) := by
  cases outcome with
  | ok _ =>
      obtain ⟨r, e, d', hsettle, hclean⟩ :=
        exec_settle { db with transaction := db.transaction.abandon } d
      refine ⟨r, e, d', ?_, hclean⟩
      rw [Script.conclude, if_pos rfl, Script.onDatabase, exec_zoom, exec_commit howner, hsettle]
  | error report =>
      have hback : (Script.onDatabase (rollback caller)).exec (s, db) d = (.ok (), (s, { db with
          engine := db.engine.rolledBack, transaction := db.transaction.abandon }), d) := by
        rw [Script.onDatabase, exec_zoom, exec_rollback howner]
      refine ⟨.error (.vm report), db.engine.rolledBack, d, ?_, fun _ => clean_rolledBack _⟩
      rw [Script.conclude, if_pos rfl, exec_bind_ok hback]
      rfl

end

/-! ## What an operation leaves -/

/-- The settings, the owner of the transaction and what `Left` says stay. -/
structure Stays (db : Database) (d : Disk) (db' : Database) (d' : Disk) : Prop where
  readOnly : db'.readOnly = db.readOnly
  autoCommit : db'.autoCommit = db.autoCommit
  scriptTimeout : db'.scriptTimeout = db.scriptTimeout
  owner : db'.transaction.owner? = db.transaction.owner?
  left : Left db d db'.engine d'

section

variable {db db' db'' : Database} {d d' d'' : Disk}

theorem Stays.refl (db : Database) (d : Disk) : Stays db d db d :=
  ⟨rfl, rfl, rfl, rfl, .refl db d⟩

theorem Stays.trans (h : Stays db d db' d') (h' : Stays db' d' db'' d'') : Stays db d db'' d'' where
  readOnly := h'.readOnly.trans h.readOnly
  autoCommit := h'.autoCommit.trans h.autoCommit
  scriptTimeout := h'.scriptTimeout.trans h.scriptTimeout
  owner := h'.owner.trans h.owner
  left := by
    have hactive : db'.transaction.isActive = db.transaction.isActive := by
      rw [isActive_eq_owner, isActive_eq_owner, h.owner]
    exact h.left.trans hactive h'.left

theorem stays_of_left {e : Engine} (h : Left db d e d') :
    Stays db d { db with engine := e } d' := ⟨rfl, rfl, rfl, rfl, h⟩

/-- Whether an operation begins no transaction of its own, as is so within a transaction and where
nothing may be changed. -/
def joins (db : Database) : Bool := db.readOnly || db.transaction.isActive

theorem Stays.joins_eq (h : Stays db d db' d') : db'.joins = db.joins := by
  rw [joins, joins, h.readOnly, isActive_eq_owner, isActive_eq_owner, h.owner]

/-- **Within a transaction, and where nothing may be changed, an operation leaves what a program on
records leaves.** -/
theorem stays_run [Codec] (op : Operation) (db : Database) (d : Disk) (h : db.joins = true) :
    ∃ answer db' d', op.run.exec db d = (.ok answer, db', d') ∧ Stays db d db' d' := by
  have handles : ∀ {σ α : Type} {a : Action (σ × Database) α} (_ : Handles a) (s : σ)
      (f : Except Error α × σ → Answer), ∃ answer db' d',
        (holding a s >>= fun out => pure (f out)).exec db d = (.ok answer, db', d') ∧
          Stays db d db' d' := by
    intro σ α a h s f
    obtain ⟨r, s', e, d', hexec, hleft⟩ := h.leaves s db d
    have hholding : (holding a s).exec db d = (.ok (r, s'), { db with engine := e }, d') := by
      rw [exec_holding, hexec]
    exact ⟨f (r, s'), _, d', exec_bind_ok hholding, stays_of_left hleft⟩
  cases op with
  | call caller c touches =>
      obtain ⟨r, e, d', hexec, hleft⟩ := (records_run touches caller).leaves db d
      refine ⟨.reply r, _, d', ?_, stays_of_left hleft⟩
      rw [Operation.run, exec_bind_ok (exec_attempt _ db d), hexec]
      rfl
  | move c m => exact handles (handles_tell m) c fun out => .moved out.1 out.2
  | scan forward limit => exact handles (handles_scan forward limit) {} fun out => .records out.1
  | script caller s talk =>
      obtain ⟨r, s', e, d', hexec, hleft⟩ := (handles_attendOnly caller talk).leaves s db d
      have hholding : (holding (Script.run caller talk) s).exec db d =
          (.ok (r, s'), { db with engine := e }, d') := by
        rw [exec_holding, exec_run_joined h, hexec]
      exact ⟨.executed r s', _, d', exec_bind_ok hholding, stays_of_left hleft⟩

/-- **A list of operations leaves what each of them leaves.** -/
theorem stays_perform [Codec] (ops : List Operation) (db : Database) (d : Disk)
    (h : db.joins = true) :
    ∃ answers db' d', (perform ops).exec db d = (.ok answers, db', d') ∧ Stays db d db' d' := by
  induction ops generalizing db d with
  | nil => exact ⟨[], db, d, rfl, .refl db d⟩
  | cons op ops ih =>
      obtain ⟨answer, db₁, d₁, hop, hstays⟩ := stays_run op db d h
      obtain ⟨answers, db₂, d₂, hops, hstays'⟩ := ih db₁ d₁ (hstays.joins_eq.trans h)
      refine ⟨answer :: answers, db₂, d₂, ?_, hstays.trans hstays'⟩
      rw [perform, exec_bind_ok hop, exec_bind_ok hops]
      rfl

end

/-! ## Operations do not see the cache -/

/-- Two databases that are alike and give their scripts the same time. -/
structure Matching (d : Disk) (db db' : Database) : Prop extends Like d db db' where
  scriptTimeout : db'.scriptTimeout = db.scriptTimeout

theorem matching_records {α : Type} {a : Action Database α} (h : Records a) :
    Respects Matching a := by
  intro d db db' hm
  obtain ⟨r, t, t', d', hexec, hexec', hlike⟩ := h.respects d db db' hm.toLike
  obtain ⟨_, _, _, hleaves, -⟩ := h.leaves db d
  obtain ⟨_, _, _, hleaves', -⟩ := h.leaves db' d
  refine ⟨r, t, t', d', hexec, hexec', hlike, ?_⟩
  rw [hexec] at hleaves
  rw [hexec'] at hleaves'
  cases hleaves
  cases hleaves'
  exact hm.scriptTimeout

section

variable {db db' : Database} {d : Disk} {caller : Caller}

/-- Two runs end their transactions alike. -/
theorem Matching.conclude (hm : Matching d db db') (howner : db.transaction.owner? = some caller)
    (outcome : Except String Unit) (s : Script) :
    ∃ r t t' d', (Script.conclude caller true outcome).exec (s, db) d = (r, (s, t), d') ∧
      (Script.conclude caller true outcome).exec (s, db') d = (r, (s, t'), d') ∧
      Matching d' t t' := by
  have howner' : db'.transaction.owner? = some caller := hm.owner.trans howner
  cases outcome with
  | ok _ =>
      let t : Database := { db with transaction := db.transaction.abandon }
      let t' : Database := { db' with transaction := db'.transaction.abandon }
      have hlike : Like d t t' := ⟨hm.readOnly, hm.autoCommit, rfl, hm.akin⟩
      obtain ⟨r, u, u', d', hexec, hexec', hlike'⟩ := respects_settle d t t' hlike
      obtain ⟨_, _, _, hsettle, -⟩ := exec_settle t d
      obtain ⟨_, _, _, hsettle', -⟩ := exec_settle t' d
      refine ⟨r, u, u', d', ?_, ?_, hlike', ?_⟩
      · rw [Script.conclude, if_pos rfl, Script.onDatabase, exec_zoom, exec_commit howner, hexec]
      · rw [Script.conclude, if_pos rfl, Script.onDatabase, exec_zoom, exec_commit howner',
          hexec']
      · rw [hexec] at hsettle
        rw [hexec'] at hsettle'
        cases hsettle
        cases hsettle'
        exact hm.scriptTimeout
  | error report =>
      have hback : ∀ {t : Database}, t.transaction.owner? = some caller →
          (Script.conclude caller true (.error report)).exec (s, t) d =
            (.error (.vm report), (s, { t with
              engine := t.engine.rolledBack, transaction := t.transaction.abandon }), d) := by
        intro t ht
        have hon : (Script.onDatabase (rollback caller)).exec (s, t) d = (.ok (), (s, { t with
            engine := t.engine.rolledBack, transaction := t.transaction.abandon }), d) := by
          rw [Script.onDatabase, exec_zoom, exec_rollback ht]
        rw [Script.conclude, if_pos rfl, exec_bind_ok hon]
        rfl
      obtain ⟨r, e, e', d', he, he', hakin⟩ := respects_rollback d _ _ hm.akin
      rw [Engine.exec_rollback] at he he'
      cases he
      cases he'
      exact ⟨_, _, _, d, hback howner, hback howner', ⟨hm.readOnly, hm.autoCommit, rfl, hakin⟩,
        hm.scriptTimeout⟩

/-- **Two databases that match run a script alike.** -/
theorem Matching.script [Codec] (hm : Matching d db db') (caller : Caller) (s : Script)
    (talk : Script.Conversation Script.Ending) :
    ∃ r s' t t' d', (Script.run caller talk).exec (s, db) d = (r, (s', t), d') ∧
      (Script.run caller talk).exec (s, db') d = (r, (s', t'), d') ∧ Matching d' t t' := by
  by_cases hjoined : (db.readOnly || db.transaction.isActive) = true
  · have hjoined' : (db'.readOnly || db'.transaction.isActive) = true := by
      rw [hm.readOnly, hm.isActive, hjoined]
    obtain ⟨r, s', t, t', d', hexec, hexec', hm'⟩ :=
      of_respects_holding (matching_records (handles_attendOnly caller talk s)) hm
    exact ⟨r, s', t, t', d', (exec_run_joined hjoined caller talk s d).trans hexec,
      (exec_run_joined hjoined' caller talk s d).trans hexec', hm'⟩
  cases hs : s.executed with
  | true =>
      exact ⟨_, s, db, db', d, exec_run_executed hs caller talk db d,
        exec_run_executed hs caller talk db' d, hm⟩
  | false =>
      rw [Bool.not_eq_true, Bool.or_eq_false_iff, isActive_eq_owner, Option.isSome_eq_false_iff,
        Option.isNone_iff_eq_none] at hjoined
      obtain ⟨hro, hfree⟩ := hjoined
      obtain ⟨r, e, e', d₁, hbegin, hbegin', hakin⟩ := respects_begin d _ _ hm.akin
      obtain ⟨slot, howner, hexec⟩ := exec_run_free caller talk hs hro hfree hbegin
      obtain ⟨slot', howner', hexec'⟩ := exec_run_free caller talk hs
        (hm.readOnly.trans hro) (hm.owner.trans hfree) hbegin'
      have hbegun : Matching d₁ { db with engine := e, transaction := slot }
          { db' with engine := e', transaction := slot' } :=
        ⟨⟨hm.readOnly, hm.autoCommit, howner'.trans howner.symm, hakin⟩, hm.scriptTimeout⟩
      cases r with
      | error error =>
          exact ⟨_, s, _, _, d₁, hexec.trans (exec_bind_error rfl),
            hexec'.trans (exec_bind_error rfl), hbegun⟩
      | ok _ =>
          rw [exec_bind_ok (exec_ofResult (.ok ()) _ _)] at hexec hexec'
          obtain ⟨r, s', f, d₂, hattend, -, hr⟩ :=
            exec_attend talk s { db with engine := e, transaction := slot } d₁
          obtain ⟨_, _, t, t', _, hleft, hright, hm₂⟩ :=
            of_respects_holding (matching_records (handles_attend talk s)) hbegun
          rw [hattend] at hleft
          cases hleft
          rcases hr with ⟨outcome, rfl⟩ | rfl
          · have hown : ({ db with engine := f, transaction := slot } :
                Database).transaction.owner? = some caller := howner
            obtain ⟨r, u, u', d₃, hend, hend', hm₃⟩ := hm₂.conclude hown outcome s'
            exact ⟨r, s', u, u', d₃, hexec.trans ((exec_bind_ok hattend).trans hend),
              hexec'.trans ((exec_bind_ok hright).trans hend'), hm₃⟩
          · exact ⟨_, s', _, t', d₂, hexec.trans (exec_bind_error hattend),
              hexec'.trans (exec_bind_error hright), hm₂⟩

end

/-- **Databases that match answer every operation alike.** -/
theorem matching_run [Codec] (op : Operation) : Respects Matching op.run := by
  cases op with
  | call caller c touches =>
      exact matching_records (.bind (records_run touches caller).attempt fun _ => .pure _)
  | move c m => exact matching_records (.bind (handles_tell m c) fun _ => .pure _)
  | scan forward limit =>
      exact matching_records (.bind (handles_scan forward limit {}) fun _ => .pure _)
  | script caller s talk =>
      intro d db db' hm
      obtain ⟨r, s', t, t', d', hexec, hexec', hm'⟩ := hm.script caller s talk
      refine ⟨.ok (.executed r s'), t, t', d', ?_, ?_, hm'⟩
      · rw [Operation.run, exec_bind_ok (exec_holding _ s db d), hexec]
        rfl
      · rw [Operation.run, exec_bind_ok (exec_holding _ s db' d), hexec']
        rfl

theorem matching_perform [Codec] (ops : List Operation) : Respects Matching (perform ops) := by
  induction ops with
  | nil => exact .pure []
  | cons op ops ih => exact .bind (matching_run op) fun answer => .bind ih fun answers => .pure _

end PagedStore.Database
