import PagedStore.Proofs.Closing
import PagedStore.Proofs.RolledBackTransactions

/-!
# Scripts that fail

A script that fails takes its writes back, as a rollback of its transaction would. On a file that is
more than the writes of the script: a rollback returns to the last commit, not to the beginning of
the transaction, so changes that were made before and were never committed go with them
(`withoutPending`). In memory they stay, and where nothing may be changed there is nothing to be
taken back.
-/

set_option autoImplicit false

namespace PagedStore

open PagedStore.Action

/-! ## Failures of the engine -/

namespace Engine

open Pager

variable {e f : Engine} {p q : Pager} {d d' : Disk} {error : Error} {report : String}

theorem Unmoved.refl (e : Engine) : Unmoved e e := by
  cases e with
  | tree p c => exact .tree c ⟨.refl p, rfl, rfl, .inr rfl⟩
  | memory m => exact .memory m

/-- What nothing has moved is akin to what it was. -/
theorem Unmoved.akin (h : Unmoved e f) (hidle : Idle e) (he : Akin d e e) (hf : Akin d f f) :
    Akin d e f := by
  cases h with
  | tree c hu =>
      cases he with
      | tree _ hp =>
          cases hf with
          | tree _ hq => exact .tree c ⟨hu.alike hidle, hp.left, hq.left⟩
  | memory m => exact .memory m

/-- A commit fails where nothing may be changed, and where the pager must not be used any more. -/
theorem of_exec_commit_error (h : Pager.commit.exec p d = (.error error, q, d')) :
    error = .readOnly ∨ ∃ text, error = .aborted text := by
  have hguard := exec_ensureWritable_eq p d
  by_cases hro : p.readOnly = true
  · rw [if_pos hro] at hguard
    rw [Pager.commit, exec_bind_error hguard] at h
    cases h
    exact .inl rfl
  rw [if_neg hro] at hguard
  cases hu : p.poisoned with
  | some reason =>
      rw [Pager.commit, exec_bind_error (hguard.trans (exec_ensureUsable_stopped hu d))] at h
      cases h
      exact .inr ⟨_, rfl⟩
  | none =>
      have hout := commitOutcome p d
      rw [h] at hout
      cases hout with
      | refused hbad =>
          rw [Pager.readOnly, Option.isNone_iff_eq_none] at hro
          rcases hbad with hlog | hp
          · exact absurd hlog hro
          · exact absurd hu hp
      | stopped => exact .inr ⟨_, rfl⟩

/-- The failure of a commit is no report of a script. -/
theorem commit_ne_vm (h : Engine.commit.exec e d = (.error error, f, d')) : error ≠ .vm report := by
  obtain ⟨p, c, q, -, -, hexec⟩ := of_exec_either_error h
  rcases of_exec_commit_error hexec with rfl | ⟨text, rfl⟩
  · nofun
  · nofun

theorem begin_ne_vm (h : Engine.begin.exec e d = (.error error, f, d')) : error ≠ .vm report := by
  obtain ⟨p, c, q, -, -, hexec⟩ := of_exec_either_error h
  cases hu : p.poisoned with
  | none =>
      rw [exec_ensureUsable hu] at hexec
      cases hexec
  | some reason =>
      rw [exec_ensureUsable_stopped hu] at hexec
      cases hexec
      nofun

/-- Without its changes since the last commit, an engine is one that a transaction begins with. -/
theorem within_rolledBack (hcopy : Database.NoCopy e)
    (h : Engine.begin.exec e d = (.ok (), f, d')) : Within e.rolledBack f := by
  cases e with
  | tree p c =>
      rw [Engine.begin, exec_either_tree] at h
      rcases hexec : ensureUsable.exec p d with ⟨r, q, d₁⟩
      obtain ⟨rfl, -⟩ := (leaves_ensureUsable (R := Eq)).of_exec hexec
      rw [hexec] at h
      cases h
      have hsame : Same p.rolledBack p := ⟨rfl, rfl, rfl, rfl, rfl, rfl, rfl, rfl⟩
      exact .tree c (Database.clean_rolledBack (.tree p c)) hsame
  | memory m =>
      have hsame : m.rollback = m := by rw [Memory.rollback, hcopy m rfl]
      cases h
      rw [rolledBack, hsame]
      exact .memory (hcopy m rfl) rfl

theorem Akin.rolledBack (h : Akin d e e) : Akin d e.rolledBack e.rolledBack := by
  obtain ⟨_, _, _, _, hback, hback', hakin⟩ := respects_rollback d _ _ h
  rw [exec_rollback] at hback hback'
  cases hback
  cases hback'
  exact hakin

end Engine

namespace Database

open Engine Script

/-! ## Where nothing may be changed -/

section

variable {σ α : Type} {db : Database} {d : Disk}

/-- A program on records moves nothing where nothing may be changed. -/
theorem Records.unmoved {a : Action Database α} (h : Records a) (hro : db.readOnly = true)
    (d : Disk) :
    ∃ r e, a.exec db d = (r, { db with engine := e }, d) ∧ Unmoved db.engine e := by
  induction h generalizing db with
  | ofResult r => exact ⟨r, db.engine, rfl, .refl _⟩
  | size f => exact ⟨_, db.engine, rfl, .refl _⟩
  | attempt inner ih =>
      obtain ⟨r, e, hexec, hleft⟩ := ih hro
      exact ⟨.ok r, e, by rw [exec_attempt, hexec], hleft⟩
  | ask question =>
      obtain ⟨hleft, hd⟩ := question.leaves db.engine d
      exact ⟨_, _, by rw [exec_onEngine, hd], hleft⟩
  | change change => exact ⟨_, db.engine, exec_mutate_refused hro d, .refl _⟩
  | bind first next ihfirst ihnext =>
      obtain ⟨r, e, hexec, hleft⟩ := ihfirst hro
      cases r with
      | error error => exact ⟨_, e, exec_bind_error hexec, hleft⟩
      | ok x =>
          have hro' : ({ db with engine := e } : Database).readOnly = true := hro
          obtain ⟨r', f, hexec', hleft'⟩ := ihnext x hro'
          exact ⟨r', f, (exec_bind_ok hexec).trans hexec', hleft.trans hleft'⟩

theorem Handles.unmoved {a : Action (σ × Database) α} (h : Handles a) (hro : db.readOnly = true)
    (s : σ) (d : Disk) :
    ∃ r s' e, a.exec (s, db) d = (r, (s', { db with engine := e }), d) ∧ Unmoved db.engine e := by
  obtain ⟨r, e, hexec, hleft⟩ := (h s).unmoved hro d
  rw [exec_holding] at hexec
  match hout : a.exec (s, db) d with
  | (r', (s', db'), d') =>
      rw [hout] at hexec
      cases hexec
      exact ⟨r', s', e, rfl, hleft⟩

end

/-! ## How a run that is a transaction ends -/

section

variable {db db' : Database} {d : Disk} {caller : Caller} {s : Script}

/-- The failure of a commit is no report of a script, and neither is that of what follows it. -/
theorem settle_ne_vm (db : Database) (d : Disk) (report : String) :
    (settle.exec db d).1 ≠ .error (.vm report) := by
  intro h
  match hcommit : Engine.commit.exec db.engine d with
  | (.ok (), e, d₁) =>
      rw [exec_settle_ok hcommit] at h
      cases h
  | (.error error, e, d₁) =>
      rw [exec_settle_error hcommit] at h
      exact commit_ne_vm hcommit (Except.error.inj h)

theorem exec_conclude_ok (howner : db.transaction.owner? = some caller) (s : Script) (d : Disk) :
    (conclude caller true (.ok ())).exec (s, db) d =
      ((settle.exec db.abandoned d).1, (s, (settle.exec db.abandoned d).2.1),
        (settle.exec db.abandoned d).2.2) := by
  rw [conclude, if_pos rfl, Script.onDatabase, exec_zoom, exec_commit howner]
  rfl

theorem exec_conclude_failed (howner : db.transaction.owner? = some caller) (report : String)
    (s : Script) (d : Disk) :
    (conclude caller true (.error report)).exec (s, db) d =
      (.error (.vm report), (s, { db.abandoned with engine := db.engine.rolledBack }), d) := by
  have hback : (Script.onDatabase (rollback caller)).exec (s, db) d =
      (.ok (), (s, { db.abandoned with engine := db.engine.rolledBack }), d) := by
    rw [Script.onDatabase, exec_zoom, exec_rollback howner]
    rfl
  rw [conclude, if_pos rfl, exec_bind_ok hback]
  rfl

end

/-! ## Scripts that fail -/

/-- A database without the changes that wait for a commit. -/
def withoutPending (db : Database) : Database :=
  if db.hasPending && !db.readOnly then { db with engine := db.engine.rolledBack } else db

section

variable {db db' : Database} {d d' : Disk} {caller : Caller} {s s' : Script} {e : Engine}
  {report : String} {talk : Conversation Ending}

/-- Without a pending change nothing is taken away. -/
theorem withoutPending_eq_self (h : db.hasPending = false ∨ db.readOnly = true) :
    db.withoutPending = db := by
  have hkept : (db.hasPending && !db.readOnly) = false := by
    rcases h with h | h <;> simp [h]
  rw [withoutPending, hkept, if_neg Bool.false_ne_true]

/-- A transaction begins with the changes that wait for a commit, but returns to where they were not
made yet. -/
theorem Sound.within_withoutPending (hs : Sound db d) (hro : db.readOnly = false)
    (hfree : db.transaction.isActive = false)
    (hbegin : Engine.begin.exec db.engine d = (.ok (), e, d')) :
    ∃ base, db.withoutPending = { db with engine := base } ∧ Within base e ∧ Akin d base base := by
  cases hpending : db.hasPending with
  | false =>
      refine ⟨db.engine, withoutPending_eq_self (.inl hpending), ?_, hs.akin⟩
      exact (of_exec_begin hbegin).2.1 (hs.clean hpending hfree) rfl
  | true =>
      refine ⟨db.engine.rolledBack, ?_, within_rolledBack (hs.noCopy hfree) hbegin,
        hs.akin.rolledBack⟩
      rw [withoutPending, hpending, hro]
      rfl

variable [Codec]

/-- What a script has said within its own transaction leaves the engine akin to itself. -/
theorem Sound.akin_of_attend (hs : Sound db d) {f : Engine} {slot : TransactionSlot}
    {outcome : Except String Unit}
    (hbegin : Engine.begin.exec db.engine d = (.ok (), e, d))
    (hattend : (attend talk).exec (s, { db with engine := e, transaction := slot }) d =
      (.ok outcome, (s', { db with engine := f, transaction := slot }), d)) : Akin d f f := by
  obtain ⟨_, _, _, _, hleft, hright, hakin⟩ := respects_begin d _ _ hs.akin
  rw [hbegin] at hleft hright
  cases hleft
  cases hright
  let begun : Database := { db with engine := e, transaction := slot }
  have hmatching : Matching d begun begun := ⟨⟨rfl, rfl, rfl, hakin⟩, rfl⟩
  obtain ⟨_, _, t, t', _, hheld, hheld', hm⟩ := of_respects_holding
    (matching_records (handles_attend talk s)) hmatching
  rw [hattend] at hheld hheld'
  cases hheld
  cases hheld'
  exact hm.akin

/-- Where nothing may be changed a script that fails has changed nothing. -/
theorem Sound.failed_reader (hs : Sound db d) (hro : db.readOnly = true)
    (hexec : (Script.run caller talk).exec (s, db) d = (.error (.vm report), (s', db'), d')) :
    d' = d ∧ db'.transaction = db.transaction ∧ Matching d db db' := by
  have hsound := hs.script caller s talk
  have hjoined : (db.readOnly || db.transaction.isActive) = true := by simp [hro]
  rw [hexec] at hsound
  rw [exec_run_joined hjoined] at hexec
  obtain ⟨r, s₁, e, hattend, hleft⟩ := (handles_attendOnly caller talk).unmoved hro s d
  rw [hattend] at hexec
  cases hexec
  exact ⟨rfl, rfl, ⟨rfl, rfl, rfl, hleft.akin hs.idle hs.akin hsound.akin⟩, rfl⟩

/-- A script that fails takes its writes back, and with them what waited for a commit. -/
theorem Sound.failed_writer (hs : Sound db d) (hro : db.readOnly = false)
    (hfree : db.transaction.isActive = false)
    (hexec : (Script.run caller talk).exec (s, db) d = (.error (.vm report), (s', db'), d')) :
    d' = d ∧ db'.transaction.isActive = false ∧ Matching d db.withoutPending db' := by
  have hrun := ownRun caller talk s hro hfree d
  rw [hexec] at hrun
  cases hrun with
  | stuck hbegin => exact absurd rfl (begin_ne_vm hbegin)
  | @held e f slot outcome s₁ _ hbegin howner hreworked hidle hattend hend =>
      obtain ⟨base, hbase, hwithin, hakin⟩ := hs.within_withoutPending hro hfree hbegin
      have hback := (hwithin.reworked hreworked).rolledBack hakin (hs.akin_of_attend hbegin hattend)
      cases outcome with
      | ok _ =>
          rw [exec_conclude_ok howner] at hend
          exact absurd (congrArg Prod.fst hend) (settle_ne_vm _ _ _)
      | error text =>
          rw [exec_conclude_failed howner] at hend
          cases hend
          refine ⟨rfl, rfl, ?_⟩
          rw [hbase]
          exact ⟨⟨rfl, rfl, (nobody_of_free hfree).symm, hback.1⟩, rfl⟩

end

end Database

end PagedStore
