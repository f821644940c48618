import PagedStore.Proofs.MapEngines

/-!
# Ledgers

What a database does for its callers can be told without an engine, by two maps and the place for a
transaction. Such a ledger says what each call is answered and what becomes of it. A database
follows its ledger whatever its engine is: each call is answered as the ledger says, unless it
stores a record that the file refuses, which changes nothing, or a commit is made to stop.

A change that is not committed at once leaves a file with another way back than memory. So outside
of transactions a file follows a ledger only if changes are committed (`Ledger.Prompt`).
-/

set_option autoImplicit false

namespace PagedStore

namespace TransactionSlot

variable {s t : TransactionSlot} {caller : Caller} {id : Nat}

/-- A transaction begins where none is open. -/
theorem of_begin (h : s.begin caller = .ok (id, t)) : s.isActive = false ∧ t.isActive = true := by
  rw [begin] at h
  cases hs : s.current with
  | some o =>
      rw [hs] at h
      cases h
  | none =>
      rw [hs] at h
      cases h
      exact ⟨by rw [isActive, hs]; rfl, rfl⟩

/-- A transaction that ends was open, and no other one is. -/
theorem of_finish (h : s.finish caller = .ok (id, t)) :
    s.isActive = true ∧ t.isActive = false := by
  rw [finish] at h
  cases hs : s.current with
  | none =>
      rw [hs] at h
      cases h
  | some o =>
      rw [hs] at h
      dsimp only at h
      split at h
      · cases h
        exact ⟨by rw [isActive, hs]; rfl, rfl⟩
      · cases h

end TransactionSlot

namespace Database

open PagedStore.Action Engine

/-- The records that are there, those that a rollback of the open transaction brings back, and the
transaction. -/
structure Ledger where
  readOnly : Bool
  current : Contents := ∅
  committed : Contents := ∅
  slot : TransactionSlot := {}

namespace Ledger

/-! ## What a ledger says -/

/-- The answer to a change, which is refused where nothing may be changed. -/
def guarded (l : Ledger) (answer : Except Error Reply) : Except Error Reply :=
  if l.readOnly then .error .readOnly else answer

/-- What a call is answered. -/
def answer (l : Ledger) (caller : Caller) : Call → Except Error Reply
  | .store .. => l.guarded (.ok .done)
  | .append .. => l.guarded (.ok .done)
  | .delete key =>
      l.guarded (if l.current.contains key then .ok .done else .error (missing key))
  | .fetch key =>
      match l.current[key]? with
      | some value => .ok (.value value)
      | none => .error (missing key)
  | .find key => .ok (.perhaps l.current[key]?)
  | .contains key => .ok (.truth (l.current.contains key))
  | .size => .ok (.count l.current.size)
  | .isEmpty => .ok (.truth (l.current.size == 0))
  | .begin => l.guarded ((l.slot.begin caller).map fun _ => .done)
  | .commit => (l.slot.finish caller).map fun _ => .done
  | .rollback => (l.slot.finish caller).map fun _ => .done
  | .inTransaction => .ok (.truth l.slot.isActive)

/-- What a call for records makes of them where they may be changed. -/
def changed (l : Ledger) : Call → Contents
  | .store key value => l.current.insert key value
  | .append key value => l.current.insert key (l.current[key]?.getD [] ++ value)
  | .delete key => l.current.erase key
  | _ => l.current

/-- What becomes of a ledger by a call. -/
def after (l : Ledger) (caller : Caller) (c : Call) : Ledger :=
  match c with
  | .begin =>
      if l.readOnly then l
      else
        match l.slot.begin caller with
        | .ok (_, slot) => { l with committed := l.current, slot := slot }
        | .error _ => l
  | .commit =>
      match l.slot.finish caller with
      | .ok (_, slot) => { l with slot := slot }
      | .error _ => l
  | .rollback =>
      match l.slot.finish caller with
      | .ok (_, slot) => { l with current := l.committed, slot := slot }
      | .error _ => l
  | c => if l.readOnly then l else { l with current := l.changed c }

/-- The records that a rollback of the engine brings back. -/
def back (l : Ledger) (place : Place) : Option Contents :=
  if l.slot.isActive then some l.committed else place.kept l.current

/-- A change is committed at once, unless it belongs to a transaction or there is nothing to be
committed. -/
def Prompt (l : Ledger) (place : Place) (auto : Bool) : Prop :=
  auto = true ∨ place = .memory ∨ (l.readOnly || l.slot.isActive) = true

theorem after_of_touches {c : Call} (h : c.touchesRecords = true) (l : Ledger) (caller : Caller) :
    l.after caller c = if l.readOnly then l else { l with current := l.changed c } := by
  cases c with
  | begin => cases h
  | commit => cases h
  | rollback => cases h
  | _ => rfl

end Ledger

/-- Whether a call stores a record. -/
def storesRecord : Call → Bool
  | .store .. => true
  | .append .. => true
  | _ => false

/-! ## Following a ledger -/

/-- A database whose settings and whose transaction are those of a ledger. -/
structure Agrees (place : Place) (auto : Bool) (db : Database) (l : Ledger) : Prop where
  readOnly : db.readOnly = l.readOnly
  autoCommit : db.autoCommit = auto
  slot : db.transaction = l.slot
  writable : l.readOnly = false → place ≠ .reader
  taken : l.slot.isActive = true → l.readOnly = false

/-- A database that is what its ledger says. -/
structure Follows [Codec] (place : Place) (auto : Bool) (db : Database) (d : Disk) (l : Ledger) :
    Prop extends Agrees place auto db l where
  engine : Stands place db.engine d l.current (l.back place)

/-- What becomes of a call on a database that follows a ledger. -/
inductive Served [Codec] (place : Place) (auto : Bool) (l : Ledger) (caller : Caller) (c : Call) :
    Except Error Reply × Database × Disk → Prop where
  | answered {db : Database} {d : Disk} (h : Follows place auto db d (l.after caller c)) :
      Served place auto l caller c (l.answer caller c, db, d)
  /-- The file has no room for the record. -/
  | refused {db : Database} {d : Disk} {e : Error} (stores : storesRecord c = true)
      (writable : l.readOnly = false) (reason : place.Refuses e) (h : Follows place auto db d l) :
      Served place auto l caller c (.error e, db, d)
  /-- A commit was made to stop. -/
  | stopped {db : Database} {d : Disk} {e : Error} (reason : place.Stops e)
      (commits : c = .commit ∨ (l.readOnly || l.slot.isActive) = false) :
      Served place auto l caller c (.error e, db, d)

section

variable {place : Place} {auto : Bool} {db db' : Database} {d d' : Disk} {l : Ledger}
  {caller : Caller} {c : Call} {m : Contents} {back : Option Contents} {e : Engine} {α : Type}

theorem Agrees.withEngine (h : Agrees place auto db l) (e : Engine) :
    Agrees place auto { db with engine := e } l :=
  ⟨h.readOnly, h.autoCommit, h.slot, h.writable, h.taken⟩

theorem Agrees.changed (h : Agrees place auto db l) (m : Contents) :
    Agrees place auto db { l with current := m } :=
  ⟨h.readOnly, h.autoCommit, h.slot, h.writable, h.taken⟩

section

variable [Codec]

/-- Without a transaction there is nothing to be taken back. -/
theorem Agrees.follows (h : Agrees place auto db l) (hfree : l.slot.isActive = false)
    (he : Settled place db.engine d l.current) : Follows place auto db d l where
  toAgrees := h
  engine := by
    rw [Ledger.back, hfree, if_neg Bool.false_ne_true]
    exact he

/-- To settle leaves nothing that could be taken back, or the commit is made to stop. -/
theorem Agrees.settles (h : Agrees place auto db l) (hro : l.readOnly = false)
    (hfree : l.slot.isActive = false) (he : Stands place db.engine d l.current back) :
    ∃ r db' d', settle.exec db d = (r, db', d') ∧
      match r with
      | .ok () => Follows place auto db' d' l
      | .error error => place.Stops error := by
  obtain ⟨r, e, d', hcommit, hr⟩ := he.commit (h.writable hro)
  cases r with
  | ok _ => exact ⟨_, _, d', exec_settle_ok hcommit, (h.withEngine e).follows hfree hr⟩
  | error error => exact ⟨_, _, d', exec_settle_error hcommit, hr⟩

/-! ### Calls for records -/

theorem Follows.exec_find (h : Follows place auto db d l) (key : Bytes) :
    ∃ db', (find key).exec db d = (.ok l.current[key]?, db', d) ∧ Follows place auto db' d l := by
  obtain ⟨e, hexec, he⟩ := h.engine.get key
  exact ⟨_, by rw [find, exec_onEngine, hexec], h.withEngine e, he⟩

/-- A change that the engine has made joins the transaction or is settled, unless its commit is made
to stop. -/
theorem Follows.exec_mutate {a : Action Engine Unit} (h : Follows place auto db d l)
    (hro : l.readOnly = false) (hprompt : l.Prompt place auto)
    (ha : a.exec db.engine d = (.ok (), e, d)) (he : Stands place e d m (l.back place)) :
    ∃ r db' d', (mutate a).exec db d = (r, db', d') ∧
      match r with
      | .ok () => Follows place auto db' d' { l with current := m }
      | .error error => place.Stops error ∧ (l.readOnly || l.slot.isActive) = false := by
  have hagrees := (h.toAgrees.withEngine e).changed m
  have hmutate := Database.exec_mutate (h.readOnly.trans hro) ha
  by_cases hsettles : (db.autoCommit && !db.transaction.isActive) = true
  · obtain ⟨-, hfree⟩ := Bool.and_eq_true_iff.1 hsettles
    rw [Bool.not_eq_true', h.slot] at hfree
    obtain ⟨r, db', d', hsettle, hr⟩ := hagrees.settles hro hfree he
    rw [if_pos hsettles] at hmutate
    cases r with
    | ok _ => exact ⟨_, db', d', hmutate.trans (exec_bind_ok hsettle), hr⟩
    | error error =>
        exact ⟨_, db', d', hmutate.trans (exec_bind_error hsettle), hr,
          Bool.or_eq_false_iff.2 ⟨hro, hfree⟩⟩
  · rw [if_neg hsettles] at hmutate
    refine ⟨_, _, d, hmutate, hagrees, ?_⟩
    -- What a rollback brings back does not depend on the change.
    have hback : ({ l with current := m } : Ledger).back place = l.back place := by
      rw [Ledger.back, Ledger.back]
      split
      · rfl
      · rename_i hfree
        rcases hprompt with hauto | rfl | hjoined
        · rw [h.autoCommit, h.slot, hauto, Bool.true_and, Bool.not_eq_true', Bool.not_eq_false]
            at hsettles
          exact absurd hsettles hfree
        · rfl
        · rw [hro, Bool.false_or] at hjoined
          exact absurd hjoined hfree
    rw [hback]
    exact he

theorem served_of_answer {r : Except Error Reply} (hr : r = l.answer caller c)
    (h : Follows place auto db d (l.after caller c)) : Served place auto l caller c (r, db, d) := by
  subst hr
  exact .answered h

/-- A change of records is served when the engine makes it, refuses it for want of room or finds
nothing to be changed. -/
theorem Follows.served_change {a : Action Engine Unit} (h : Follows place auto db d l)
    (hprompt : l.Prompt place auto) (hc : c.touchesRecords = true)
    (hrun : c.run caller = (mutate a >>= fun _ => pure .done))
    {answer : Except Error Reply} (hanswer : l.answer caller c = l.guarded answer)
    (ha : l.readOnly = false → ∃ r e, a.exec db.engine d = (r, e, d) ∧
      match r with
      | .ok () => answer = .ok .done ∧ Stands place e d (l.changed c) (l.back place)
      | .error error => (storesRecord c = true ∧ place.Refuses error ∨
          answer = .error error ∧ l.changed c = l.current) ∧
        Stands place e d l.current (l.back place)) :
    Served place auto l caller c ((c.run caller).exec db d) := by
  have hafter := l.after_of_touches hc caller
  rw [hrun]
  cases hro : l.readOnly with
  | true =>
      rw [Ledger.guarded, hro, if_pos rfl] at hanswer
      rw [hro, if_pos rfl] at hafter
      rw [exec_bind_pure (exec_mutate_refused (h.readOnly.trans hro) d)]
      exact served_of_answer hanswer.symm (hafter.symm ▸ h)
  | false =>
      have hwrites : ¬ l.readOnly = true := by simp [hro]
      rw [Ledger.guarded, if_neg hwrites] at hanswer
      rw [if_neg hwrites] at hafter
      obtain ⟨r, e, hexec, hr⟩ := ha hro
      cases r with
      | ok _ =>
          obtain ⟨rfl, he⟩ := hr
          obtain ⟨r, db', d', hmutate, hr'⟩ := h.exec_mutate hro hprompt hexec he
          rw [exec_bind_pure hmutate]
          cases r with
          | ok _ => exact served_of_answer hanswer.symm (hafter.symm ▸ hr')
          | error error => exact .stopped hr'.1 (.inr hr'.2)
      | error error =>
          obtain ⟨hreason, he⟩ := hr
          have hleft : Follows place auto { db with engine := e } d l := ⟨h.withEngine e, he⟩
          rw [exec_bind_pure (exec_mutate_failed (h.readOnly.trans hro) hexec)]
          rcases hreason with ⟨hstores, hrefuses⟩ | ⟨rfl, hsame⟩
          · exact .refused hstores hro hrefuses hleft
          · rw [hsame] at hafter
            exact served_of_answer hanswer.symm (hafter.symm ▸ hleft)

/-- **A call for records is answered as the ledger says**, wherever the records are. -/
theorem Follows.serve_record [Codec.Lawful] (h : Follows place auto db d l)
    (hprompt : l.Prompt place auto) (hc : c.touchesRecords = true) (caller : Caller) :
    Served place auto l caller c ((c.run caller).exec db d) := by
  -- A question leaves the ledger as it is.
  have asked : ∀ {a : Action Database Reply} {db' : Database} {r : Except Error Reply},
      a.exec db d = (r, db', d) → r = l.answer caller c → Follows place auto db' d l →
      l.changed c = l.current → Served place auto l caller c (a.exec db d) := by
    intro a db' r hexec hr hleft hsame
    have hafter := l.after_of_touches hc caller
    rw [hsame, ite_self] at hafter
    rw [hexec]
    exact served_of_answer hr (hafter.symm ▸ hleft)
  cases c with
  | store key value =>
      refine h.served_change hprompt hc rfl rfl fun hro => ?_
      obtain ⟨r, e, hexec, hr⟩ := h.engine.put (h.writable hro) key value
      refine ⟨r, e, hexec, ?_⟩
      cases r with
      | ok _ => exact ⟨rfl, hr⟩
      | error error => exact ⟨.inl ⟨rfl, hr.1⟩, hr.2⟩
  | append key value =>
      refine h.served_change hprompt hc rfl rfl fun hro => ?_
      obtain ⟨r, e, hexec, hr⟩ := h.engine.append (h.writable hro) key value
      refine ⟨r, e, hexec, ?_⟩
      cases r with
      | ok _ => exact ⟨rfl, hr⟩
      | error error => exact ⟨.inl ⟨rfl, hr.1⟩, hr.2⟩
  | delete key =>
      refine h.served_change hprompt hc rfl rfl fun hro => ?_
      obtain ⟨e, hexec, he⟩ := h.engine.delete (h.writable hro) key
      cases hfound : l.current.contains key with
      | true =>
          rw [hfound] at hexec
          exact ⟨.ok (), e, exec_bind_ok hexec, rfl, he⟩
      | false =>
          have hsame : l.current.erase key = l.current :=
            Contents.erase_of_none (Std.ExtTreeMap.getElem?_eq_none_of_contains_eq_false hfound)
          rw [hfound] at hexec
          rw [hsame] at he
          exact ⟨.error (missing key), e, exec_bind_ok hexec, .inr ⟨rfl, hsame⟩, he⟩
  | fetch key =>
      obtain ⟨db', hexec, hleft⟩ := h.exec_find key
      cases hvalue : l.current[key]? with
      | some value =>
          rw [hvalue] at hexec
          have hfetch : (fetch key).exec db d = (.ok value, db', d) := exec_bind_ok hexec
          refine asked (exec_bind_ok hfetch) ?_ hleft rfl
          rw [Ledger.answer, hvalue]
      | none =>
          rw [hvalue] at hexec
          have hfetch : (fetch key).exec db d = (.error (missing key), db', d) :=
            exec_bind_ok hexec
          refine asked (exec_bind_error hfetch) ?_ hleft rfl
          rw [Ledger.answer, hvalue]
  | find key =>
      obtain ⟨db', hexec, hleft⟩ := h.exec_find key
      exact asked (exec_bind_ok hexec) rfl hleft rfl
  | contains key =>
      obtain ⟨db', hexec, hleft⟩ := h.exec_find key
      have hcontains : (contains key).exec db d = (.ok l.current[key]?.isSome, db', d) :=
        exec_bind_ok hexec
      refine asked (exec_bind_ok hcontains) ?_ hleft rfl
      rw [Ledger.answer, Std.ExtTreeMap.contains_eq_isSome_getElem?]
  | size => exact asked rfl (by rw [Ledger.answer, Database.size, h.engine.size]) h rfl
  | isEmpty => exact asked rfl (by rw [Ledger.answer, Database.size, h.engine.size]) h rfl
  | begin => cases hc
  | commit => cases hc
  | rollback => cases hc
  | inTransaction => cases hc

end

/-! ### Calls for transactions -/

theorem exec_finish_ok {id : Nat} {slot : TransactionSlot}
    (h : db.transaction.finish caller = .ok (id, slot)) (d : Disk) :
    (finish caller).exec db d = (.ok (), { db with transaction := slot }, d) := by
  rw [finish, exec_bind, exec_self]
  dsimp only
  rw [exec_bind, exec_ofResult, h]
  rfl

theorem exec_finish_error {error : Error} (h : db.transaction.finish caller = .error error)
    (d : Disk) : (finish caller).exec db d = (.error error, db, d) := by
  rw [finish, exec_bind, exec_self]
  dsimp only
  rw [exec_bind, exec_ofResult, h]

theorem exec_start_ok {id : Nat} {slot : TransactionSlot}
    (h : db.transaction.begin caller = .ok (id, slot))
    (hbegin : Engine.begin.exec db.engine d = (.ok (), e, d')) :
    (start caller).exec db d = (.ok (), { db with engine := e, transaction := slot }, d') := by
  rw [start, exec_bind, exec_self]
  dsimp only
  rw [exec_bind, exec_ofResult, h]
  dsimp only
  rw [exec_bind, exec_update]
  dsimp only
  rw [exec_bind, exec_attempt, exec_onEngine]
  dsimp only
  rw [hbegin]
  rfl

theorem exec_start_error {error : Error} (h : db.transaction.begin caller = .error error)
    (d : Disk) : (start caller).exec db d = (.error error, db, d) := by
  rw [start, exec_bind, exec_self]
  dsimp only
  rw [exec_bind, exec_ofResult, h]

variable [Codec]

/-- Where a transaction begins the ledger keeps the records of that moment. -/
theorem Follows.serve_begin (h : Follows place auto db d l) (caller : Caller) :
    Served place auto l caller .begin ((Call.begin.run caller).exec db d) := by
  rw [Call.run]
  cases hro : l.readOnly with
  | true =>
      have hrefused : (begin caller).exec db d = (.error .readOnly, db, d) :=
        exec_bind_error (exec_ensureWritable_refused (h.readOnly.trans hro) d)
      rw [exec_bind_error hrefused]
      refine served_of_answer ?_ ?_
      · rw [Ledger.answer, Ledger.guarded, if_pos hro]
      · rw [Ledger.after, if_pos hro]
        exact h
  | false =>
      have hwrites : ¬ l.readOnly = true := by simp [hro]
      have hstart : (begin caller).exec db d = (start caller).exec db d :=
        exec_bind_ok (exec_ensureWritable (h.readOnly.trans hro) d)
      have hanswer : l.answer caller .begin = (l.slot.begin caller).map fun _ => .done := by
        rw [Ledger.answer, Ledger.guarded, if_neg hwrites]
      cases hslot : l.slot.begin caller with
      | error error =>
          rw [exec_bind_error (hstart.trans (exec_start_error (h.slot ▸ hslot) d))]
          refine served_of_answer ?_ ?_
          · rw [hanswer, hslot]
            rfl
          · rw [Ledger.after, if_neg hwrites, hslot]
            exact h
      | ok opened =>
          obtain ⟨id, slot⟩ := opened
          obtain ⟨hfree, hactive⟩ := TransactionSlot.of_begin hslot
          obtain ⟨e, old, hbegin, he, hold⟩ := h.engine.begin (h.writable hro)
          have hkept : l.back place = place.kept l.current := by
            rw [Ledger.back, hfree, if_neg Bool.false_ne_true]
          obtain rfl := hold hkept
          rw [exec_bind_ok (hstart.trans (exec_start_ok (h.slot ▸ hslot) hbegin))]
          refine served_of_answer ?_ ?_
          · rw [hanswer, hslot]
            rfl
          · rw [Ledger.after, if_neg hwrites, hslot]
            refine ⟨⟨h.readOnly, h.autoCommit, rfl, h.writable, fun _ => hro⟩, ?_⟩
            rw [Ledger.back, if_pos hactive]
            exact he

/-- Where a transaction ends nothing is left that could be taken back. -/
theorem Follows.serve_finish (h : Follows place auto db d l) {a : Action Database Unit}
    {m : Contents} (hrun : c.run caller = (finish caller >>= fun _ => a) >>= fun _ => pure .done)
    (hanswer : l.answer caller c = (l.slot.finish caller).map fun _ => .done)
    (hafter : l.after caller c = match l.slot.finish caller with
      | .ok (_, slot) => { l with current := m, slot := slot }
      | .error _ => l)
    (ha : ∀ {db : Database}, l.readOnly = false →
      Stands place db.engine d l.current (some l.committed) →
      ∃ r e d', a.exec db d = (r, { db with engine := e }, d') ∧
        match r with
        | .ok () => Settled place e d' m
        | .error error => place.Stops error ∧ c = .commit) :
    Served place auto l caller c ((c.run caller).exec db d) := by
  rw [hrun]
  cases hslot : l.slot.finish caller with
  | error error =>
      rw [hslot] at hanswer hafter
      rw [exec_bind_error (exec_bind_error (exec_finish_error (h.slot ▸ hslot) d))]
      exact served_of_answer hanswer.symm (hafter.symm ▸ h)
  | ok closed =>
      obtain ⟨id, slot⟩ := closed
      obtain ⟨hactive, hfree⟩ := TransactionSlot.of_finish hslot
      have hro := h.taken hactive
      have he := h.engine
      rw [Ledger.back, if_pos hactive] at he
      rw [hslot] at hanswer hafter
      have hfinish := exec_finish_ok (h.slot ▸ hslot) d
      obtain ⟨r, e, d', hexec, hr⟩ := @ha { db with transaction := slot } hro he
      rw [exec_bind_pure ((exec_bind_ok hfinish).trans hexec)]
      cases r with
      | ok _ =>
          have hagrees : Agrees place auto { db with engine := e, transaction := slot }
              { l with current := m, slot := slot } :=
            ⟨h.readOnly, h.autoCommit, rfl, h.writable, fun _ => hro⟩
          exact served_of_answer hanswer.symm (hafter.symm ▸ hagrees.follows hfree hr)
      | error error => exact .stopped hr.1 (.inl hr.2)

theorem Follows.serve_commit (h : Follows place auto db d l) (caller : Caller) :
    Served place auto l caller .commit ((Call.commit.run caller).exec db d) := by
  refine h.serve_finish (a := settle) rfl rfl rfl fun {db} hro he => ?_
  obtain ⟨r, e, d', hcommit, hr⟩ := he.commit (h.writable hro)
  cases r with
  | ok _ => exact ⟨_, e, d', exec_settle_ok hcommit, hr⟩
  | error error => exact ⟨_, _, d', exec_settle_error hcommit, hr, rfl⟩

theorem Follows.serve_rollback (h : Follows place auto db d l) (caller : Caller) :
    Served place auto l caller .rollback ((Call.rollback.run caller).exec db d) := by
  refine h.serve_finish (a := onEngine Engine.rollback) rfl rfl rfl fun {db} hro he => ?_
  exact ⟨.ok (), _, d, by rw [exec_onEngine, Engine.exec_rollback], he.rollback⟩

/-- **Every call is served as the ledger says.** -/
theorem Follows.serve [Codec.Lawful] (h : Follows place auto db d l) (hprompt : l.Prompt place auto)
    (caller : Caller) (c : Call) : Served place auto l caller c ((c.run caller).exec db d) := by
  cases c with
  | begin => exact h.serve_begin caller
  | commit => exact h.serve_commit caller
  | rollback => exact h.serve_rollback caller
  | inTransaction =>
      have hsame : l.after caller .inTransaction = l := ite_self l
      refine served_of_answer ?_ (hsame.symm ▸ h)
      rw [Ledger.answer, ← h.slot]
  | _ => exact h.serve_record hprompt rfl caller

end

end Database

end PagedStore
