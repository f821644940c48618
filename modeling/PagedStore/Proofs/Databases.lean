import PagedStore.Database.Call
import PagedStore.Proofs.Engines

/-!
# Databases that differ in their caches

Two databases are alike when they have the same settings, a transaction of the same owner or none,
and engines that are akin. A call that reads or changes records gives the same answer to both and
leaves them alike. It does nothing but to the engine, and there it belongs to the transaction that
is open; when none is open, its changes are committed or taken back before it ends.
-/

set_option autoImplicit false

namespace PagedStore.Database

open PagedStore.Action Engine

variable {α β : Type} {d : Disk} {db db' : Database}

/-! ## Databases that are alike -/

/-- Two databases that differ in their caches and in the numbers of their transactions at most. -/
structure Like (d : Disk) (db db' : Database) : Prop where
  readOnly : db'.readOnly = db.readOnly
  autoCommit : db'.autoCommit = db.autoCommit
  owner : db'.transaction.owner? = db.transaction.owner?
  akin : Akin d db.engine db'.engine

theorem isActive_eq_owner (s : TransactionSlot) : s.isActive = s.owner?.isSome := by
  rw [TransactionSlot.isActive, TransactionSlot.owner?, Option.isSome_map]

theorem isActive_of_free (h : db.transaction.owner? = none) : db.transaction.isActive = false := by
  rw [isActive_eq_owner, h]
  rfl

theorem isActive_of_owner {owner : Caller} (h : db.transaction.owner? = some owner) :
    db.transaction.isActive = true := by
  rw [isActive_eq_owner, h]
  rfl

namespace Like

theorem isActive (h : Like d db db') : db'.transaction.isActive = db.transaction.isActive := by
  rw [isActive_eq_owner, isActive_eq_owner, h.owner]

theorem enabled (h : Like d db db') (caller : Caller) (call : Call) :
    call.enabled db' caller = call.enabled db caller := by
  rw [Call.enabled, Call.enabled, waits, waits, TransactionSlot.isForeign,
    TransactionSlot.isForeign, h.owner]

theorem size (h : Like d db db') : db'.size = db.size := h.akin.size

end Like

/-! ## Steps of a call -/

theorem exec_onEngine (a : Action Engine α) (db : Database) (d : Disk) :
    (onEngine a).exec db d =
      ((a.exec db.engine d).1, { db with engine := (a.exec db.engine d).2.1 },
        (a.exec db.engine d).2.2) := rfl

theorem respects_onEngine {a : Action Engine α} (h : Respects Akin a) :
    Respects Like (onEngine a) := by
  intro d db db' hlike
  obtain ⟨r, e, e', d', he, he', hakin⟩ := h d _ _ hlike.akin
  refine ⟨r, { db with engine := e }, { db' with engine := e' }, d', ?_, ?_,
    hlike.readOnly, hlike.autoCommit, hlike.owner, hakin⟩
  · rw [exec_onEngine, he]
  · rw [exec_onEngine, he']

/-- A call may look at the settings, and whether a transaction is open. -/
theorem respects_self_bind {k : Database → Action Database β}
    (hsame : ∀ {d db db'}, Like d db db' → k db' = k db) (hk : ∀ db, Respects Like (k db)) :
    Respects Like (self >>= k) := by
  intro d db db' h
  have hboth : Together Like d db db' (k db) (k db') := by
    rw [hsame h]
    exact hk db d db db' h
  exact hboth

theorem respects_ensureWritable : Respects Like ensureWritable := by
  refine respects_self_bind (fun h => by rw [h.readOnly]) fun db => ?_
  split
  · exact .throw _
  · exact .pure _

theorem respects_settle : Respects Like settle := by
  refine .bind (respects_onEngine respects_commit).attempt fun r => ?_
  cases r with
  | ok _ => exact .pure _
  | error e => exact .bind (respects_onEngine respects_rollback).attempt fun _ => .throw e

theorem respects_mutate {a : Action Engine α} (h : Respects Akin a) : Respects Like (mutate a) := by
  refine .bind respects_ensureWritable fun _ => .bind (respects_onEngine h) fun x => ?_
  refine respects_self_bind (fun h => by rw [h.autoCommit, h.isActive]) fun db => ?_
  split
  · exact .bind respects_settle fun _ => .pure x
  · exact .pure x

section

variable {a : Action Engine α} {d' : Disk} {e : Engine}

theorem exec_ensureWritable (h : db.readOnly = false) (d : Disk) :
    ensureWritable.exec db d = (.ok (), db, d) := by
  rw [ensureWritable, exec_bind, exec_self]
  dsimp only
  rw [h]
  rfl

theorem exec_ensureWritable_refused (h : db.readOnly = true) (d : Disk) :
    ensureWritable.exec db d = (.error .readOnly, db, d) := by
  rw [ensureWritable, exec_bind, exec_self]
  dsimp only
  rw [h]
  rfl

theorem exec_mutate_refused (h : db.readOnly = true) (d : Disk) :
    (mutate a).exec db d = (.error .readOnly, db, d) :=
  exec_bind_error (exec_ensureWritable_refused h d)

/-- A change that fails is not followed by anything. -/
theorem exec_mutate_failed (h : db.readOnly = false) {error : Error}
    (ha : a.exec db.engine d = (.error error, e, d')) :
    (mutate a).exec db d = (.error error, { db with engine := e }, d') := by
  have hengine : (onEngine a).exec db d = (.error error, { db with engine := e }, d') := by
    rw [exec_onEngine, ha]
  rw [mutate, exec_bind_ok (exec_ensureWritable h d), exec_bind_error hengine]

/-- A change that succeeds is settled, unless a transaction is open or that is switched off. -/
theorem exec_mutate (h : db.readOnly = false) {x : α} (ha : a.exec db.engine d = (.ok x, e, d')) :
    (mutate a).exec db d =
      (if db.autoCommit && !db.transaction.isActive then settle >>= fun _ => pure x
        else pure x).exec { db with engine := e } d' := by
  have hengine : (onEngine a).exec db d = (.ok x, { db with engine := e }, d') := by
    rw [exec_onEngine, ha]
  rw [mutate, exec_bind_ok (exec_ensureWritable h d), exec_bind_ok hengine, exec_bind, exec_self]

/-- In a transaction it is not settled. -/
theorem exec_mutate_pending (h : db.readOnly = false) (hactive : db.transaction.isActive = true)
    {x : α} (ha : a.exec db.engine d = (.ok x, e, d')) :
    (mutate a).exec db d = (.ok x, { db with engine := e }, d') := by
  have hjoins : ¬ (db.autoCommit && !db.transaction.isActive) = true := by simp [hactive]
  rw [exec_mutate h ha, if_neg hjoins]
  rfl

end

theorem exec_settle_ok {e : Engine} {d' : Disk}
    (h : Engine.commit.exec db.engine d = (.ok (), e, d')) :
    settle.exec db d = (.ok (), { db with engine := e }, d') := by
  rw [settle, exec_bind, exec_attempt, exec_onEngine, h]
  rfl

/-- What cannot be committed is taken back. -/
theorem exec_settle_error {e : Engine} {d' : Disk} {error : Error}
    (h : Engine.commit.exec db.engine d = (.error error, e, d')) :
    settle.exec db d = (.error error, { db with engine := e.rolledBack }, d') := by
  rw [settle, exec_bind, exec_attempt, exec_onEngine, h]
  dsimp only
  rw [exec_bind, exec_attempt, exec_onEngine, Engine.exec_rollback]
  rfl

/-- **To settle leaves nothing that could be taken back**, whether the commit succeeds or not. -/
theorem exec_settle (db : Database) (d : Disk) :
    ∃ r e d', settle.exec db d = (r, { db with engine := e }, d') ∧ (Idle db.engine → Clean e) := by
  match hexec : Engine.commit.exec db.engine d with
  | (.ok (), e, d') =>
      exact ⟨_, e, d', exec_settle_ok hexec, fun hidle => (clean_of_commit hidle hexec).1 rfl⟩
  | (.error error, e, d') =>
      exact ⟨_, e.rolledBack, d', exec_settle_error hexec,
        fun hidle => (clean_of_commit hidle hexec).2⟩

/-! ## Calls for records -/

/-- A program that reads or changes records and does nothing else to the database. What it changes
belongs to the open transaction, or is settled when none is open and it returns. -/
structure OnRecords (a : Action Database α) : Prop where
  respects : Respects Like a
  joins : ∀ {db : Database} (d : Disk), db.transaction.isActive = true →
    db.autoCommit = true → ∃ r e, a.exec db d = (r, { db with engine := e }, d) ∧
      Reworked db.engine e ∧ (Idle db.engine → Idle e)
  settles : ∀ {db : Database} (d : Disk), db.transaction.isActive = false →
    db.autoCommit = true → ∃ r e d', a.exec db d = (r, { db with engine := e }, d') ∧
      (r ≠ .error .panicked → db.readOnly = false → Clean db.engine → Clean e)

/-! ## Calls for transactions -/

/-- A program that is refused whatever the records are, and changes nothing. -/
def Refused (a : Action Database α) (db : Database) : Prop :=
  ∃ message, ∀ e d, a.exec { db with engine := e } d =
    (.error (.lockError message), { db with engine := e }, d)

theorem Refused.bind {a : Action Database α} (h : Refused a db) (k : α → Action Database β) :
    Refused (a >>= k) db := by
  obtain ⟨message, hexec⟩ := h
  exact ⟨message, fun e d => exec_bind_error (hexec e d)⟩

theorem Refused.unchanged {a : Action Database α} (h : Refused a db) {d' : Disk}
    {r : Except Error α} (hexec : a.exec db d = (r, db', d')) : db' = db ∧ d' = d := by
  obtain ⟨message, hrefused⟩ := h
  have hsame : a.exec db d = (.error (.lockError message), db, d) := hrefused db.engine d
  rw [hsame] at hexec
  cases hexec
  exact ⟨rfl, rfl⟩

section

variable {caller owner : Caller}

/-- Nobody ends a transaction but its owner. -/
theorem refused_finish (h : db.transaction.owner? ≠ some caller) : Refused (finish caller) db := by
  obtain ⟨message, hslot⟩ :
      ∃ message, db.transaction.finish caller = .error (.lockError message) := by
    rw [TransactionSlot.finish]
    cases hcurrent : db.transaction.current with
    | none => exact ⟨_, rfl⟩
    | some t =>
        have hother : t.owner ≠ caller := by
          intro heq
          rw [TransactionSlot.owner?, hcurrent, Option.map_some, heq] at h
          exact h rfl
        dsimp only
        rw [if_neg hother]
        exact ⟨_, rfl⟩
  refine ⟨message, fun e d => ?_⟩
  rw [finish, exec_bind, exec_self]
  dsimp only
  rw [hslot]
  rfl

theorem exec_finish (h : db.transaction.owner? = some caller) (d : Disk) :
    (finish caller).exec db d =
      (.ok (), { db with transaction := db.transaction.abandon }, d) := by
  rw [TransactionSlot.owner?, Option.map_eq_some_iff] at h
  obtain ⟨t, hcurrent, howner⟩ := h
  rw [finish, exec_bind, exec_self]
  dsimp only
  rw [exec_bind, exec_ofResult, TransactionSlot.finish, hcurrent]
  dsimp only
  rw [if_pos howner]
  rfl

theorem exec_commit (h : db.transaction.owner? = some caller) (d : Disk) :
    (commit caller).exec db d =
      settle.exec { db with transaction := db.transaction.abandon } d := by
  rw [commit, exec_bind_ok (exec_finish h d)]

/-- There is no place for a second transaction. -/
theorem refused_begin (hro : db.readOnly = false) (h : db.transaction.owner? = some owner)
    (caller : Caller) : Refused (begin caller) db := by
  rw [TransactionSlot.owner?, Option.map_eq_some_iff] at h
  obtain ⟨t, hcurrent, -⟩ := h
  refine ⟨s!"transaction {t.id} is already active", fun e d => ?_⟩
  have hro' : ({ db with engine := e } : Database).readOnly = false := hro
  rw [begin, exec_bind_ok (exec_ensureWritable hro' d), start, exec_bind, exec_self]
  dsimp only
  rw [exec_bind, exec_ofResult, TransactionSlot.begin, hcurrent]

/-- Where the place is free, a transaction is opened if the engine allows it. -/
theorem exec_begin (hro : db.readOnly = false) (h : db.transaction.owner? = none)
    (caller : Caller) {d' : Disk} {e : Engine} {r : Except Error Unit}
    (hbegin : Engine.begin.exec db.engine d = (r, e, d')) :
    ∃ slot, (begin caller).exec db d = (r, { db with engine := e, transaction := slot }, d') ∧
      slot.owner? = if r.isOk then some caller else none := by
  rw [TransactionSlot.owner?, Option.map_eq_none_iff] at h
  rw [begin, exec_bind_ok (exec_ensureWritable hro d), start, exec_bind, exec_self]
  dsimp only
  rw [exec_bind, exec_ofResult, TransactionSlot.begin, h]
  dsimp only
  rw [exec_bind, exec_update]
  dsimp only
  rw [exec_bind, exec_attempt, exec_onEngine]
  dsimp only
  rw [hbegin]
  cases r with
  | ok _ => exact ⟨_, rfl, rfl⟩
  | error error => exact ⟨_, rfl, rfl⟩

theorem exec_rollback (h : db.transaction.owner? = some caller) (d : Disk) :
    (rollback caller).exec db d = (.ok (), { db with
      engine := db.engine.rolledBack, transaction := db.transaction.abandon }, d) := by
  rw [rollback, exec_bind_ok (exec_finish h d), exec_onEngine, Engine.exec_rollback]

end

/-! ## Opening -/

/-- What it takes to open a database. -/
theorem open_eq_ok {path : String} {o : Options} {l l' : Library} {d' : Disk}
    (h : («open» path o).exec l d = (.ok db, l', d')) :
    o.validate = .ok () ∧ ∃ e, (openEngine path o).exec () d = (.ok e, (), d') ∧
      db = {
        path := path
        engine := e
        autoCommit := o.autoCommit
        readOnly := o.readOnly
        scriptTimeout := o.scriptTimeout } := by
  rw [«open»] at h
  obtain ⟨⟨⟩, l₁, d₁, hresult, h⟩ := of_exec_bind_ok h
  obtain ⟨hvalid, hsame⟩ := Prod.mk.inj hresult
  obtain ⟨rfl, rfl⟩ := Prod.mk.inj hsame
  refine ⟨hvalid, ?_⟩
  rw [exec_bind, exec_alone] at h
  match hexec : (openEngine path o).exec () d with
  | (.error error, _, d₁) =>
      rw [hexec] at h
      cases h
  | (.ok e, _, d₁) =>
      rw [hexec] at h
      cases h
      exact ⟨e, rfl, rfl⟩

end PagedStore.Database
