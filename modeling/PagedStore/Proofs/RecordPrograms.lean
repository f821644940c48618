import PagedStore.Cursor
import PagedStore.Script
import PagedStore.Proofs.Databases

/-!
# Programs on records

Whatever reads or changes the records of a database is made of questions to the engine, of changes
by way of `mutate` and of looks at the number of records, in sequence and with a choice at every
result (`Records`). So what holds of these holds of every call for records, of every move of a
cursor and of every conversation of a script: two databases that are alike give the same answers
and stay alike, nothing but the engine is touched, and what is changed belongs to the transaction
that is open.
-/

set_option autoImplicit false

namespace PagedStore.Database

open PagedStore.Action Engine

/-! ## The programs -/

/-- A program that does nothing but to ask for records and to change them. -/
inductive Records : {α : Type} → Action Database α → Prop where
  | ofResult {α : Type} (r : Except Error α) : Records (Action.ofResult r)
  | bind {α β : Type} {a : Action Database α} {k : α → Action Database β} (first : Records a)
      (next : ∀ x, Records (k x)) : Records (a >>= k)
  | attempt {α : Type} {a : Action Database α} (inner : Records a) : Records (Action.attempt a)
  | size {α : Type} (f : Nat → α) : Records (self >>= fun db => pure (f db.size))
  | ask {α : Type} {a : Action Engine α} (question : Question a) : Records (onEngine a)
  | change {α : Type} {a : Action Engine α} (change : Change a) : Records (mutate a)

namespace Records

variable {α : Type}

theorem pure (x : α) : Records (pure x : Action Database α) := ofResult (.ok x)

theorem throw (e : Error) : Records (throw e : Action Database α) := ofResult (.error e)

theorem outcome {a : Action Database α} (ha : Records a) : Records (Action.outcome a) := by
  refine .bind ha.attempt fun r => ?_
  split
  · exact .throw _
  · exact .pure _

end Records

/-! ## What they leave -/

/-- No copy of the records is kept. -/
def NoCopy (e : Engine) : Prop := ∀ m, e = .memory m → m.snapshot = none

theorem noCopy_of_clean {e : Engine} (h : Clean e) : NoCopy e := by
  rintro m rfl
  exact h

theorem NoCopy.reworked {e f : Engine} (h : NoCopy e) (hr : Reworked e f) : NoCopy f := by
  rintro n rfl
  cases hr with
  | memory kept => exact kept.trans (h _ rfl)

/-- What is left by a program on records: in a transaction the disk is left alone, and without one
no copy of the records is kept. -/
structure Left (db : Database) (d : Disk) (e : Engine) (d' : Disk) : Prop where
  idle : Idle db.engine → Idle e
  joined : db.transaction.isActive = true → d' = d ∧ Reworked db.engine e
  noCopy : db.transaction.isActive = false → Idle db.engine → NoCopy db.engine → NoCopy e

section

variable {α : Type} {db : Database} {d d' d'' : Disk} {e f : Engine}

theorem Left.refl (db : Database) (d : Disk) : Left db d db.engine d :=
  ⟨id, fun _ => ⟨rfl, .refl _⟩, fun _ _ => id⟩

/-- What is left by one program is what the next one begins with. -/
theorem Left.trans {db' : Database} (h : Left db d db'.engine d')
    (hactive : db'.transaction.isActive = db.transaction.isActive) (h' : Left db' d' f d'') :
    Left db d f d'' where
  idle hidle := h'.idle (h.idle hidle)
  joined ha := by
    obtain ⟨rfl, hfirst⟩ := h.joined ha
    obtain ⟨rfl, hsecond⟩ := h'.joined (hactive.trans ha)
    exact ⟨rfl, hfirst.trans hsecond⟩
  noCopy ha hidle hcopy := h'.noCopy (hactive.trans ha) (h.idle hidle) (h.noCopy ha hidle hcopy)

/-- What was changed and is not settled leaves the disk alone. -/
theorem left_of_reworked (h : Reworked db.engine e) (hidle : Idle db.engine → Idle e) :
    Left db d e d where
  idle := hidle
  joined _ := ⟨rfl, h⟩
  noCopy _ _ hcopy := hcopy.reworked h

theorem left_of_unmoved (h : Unmoved db.engine e) : Left db d e d :=
  left_of_reworked h.reworked h.idle

/-- What is settled is left clean. -/
theorem left_of_clean (hclean : Idle db.engine → Clean e)
    (hfree : db.transaction.isActive = false) : Left db d e d' where
  idle hidle := (hclean hidle).idle
  joined hactive := by
    rw [hfree] at hactive
    cases hactive
  noCopy _ hidle _ := noCopy_of_clean (hclean hidle)

/-- A change that succeeds is settled where changes are committed at once. -/
theorem exec_mutate_settled {a : Action Engine α} {x : α} (h : Change a)
    (hro : db.readOnly = false) (hexec : a.exec db.engine d = (.ok x, e, d'))
    (hsettles : (db.autoCommit && !db.transaction.isActive) = true) :
    ∃ r f d'', (mutate a).exec db d = (r, { db with engine := f }, d'') ∧
      (Idle db.engine → Clean f) := by
  have hidle := h.keeps_idle db.engine d
  rw [hexec] at hidle
  obtain ⟨r, f, d'', hsettle, hclean⟩ := exec_settle { db with engine := e } d'
  refine ⟨r.map fun _ => x, f, d'', ?_, fun hi => hclean (hidle hi)⟩
  rw [exec_mutate hro hexec, hsettles, if_pos rfl, exec_bind, hsettle]
  cases r <;> rfl

/-- A change is settled, joined to the open transaction or refused. -/
theorem left_of_change {a : Action Engine α} (h : Change a) (db : Database) (d : Disk) :
    ∃ r e d', (mutate a).exec db d = (r, { db with engine := e }, d') ∧ Left db d e d' := by
  by_cases hro : db.readOnly = true
  · exact ⟨_, db.engine, d, exec_mutate_refused hro d, .refl db d⟩
  rw [Bool.not_eq_true] at hro
  have hidle := h.keeps_idle db.engine d
  match hexec : a.exec db.engine d with
  | (.error error, e, d') =>
      obtain ⟨hleft, rfl⟩ := h.leaves.of_exec hexec
      rw [hexec] at hidle
      exact ⟨_, e, d', exec_mutate_failed hro hexec, left_of_reworked hleft hidle⟩
  | (.ok x, e, d') =>
      cases hsettles : db.autoCommit && !db.transaction.isActive with
      | false =>
          obtain ⟨hleft, rfl⟩ := h.leaves.of_exec hexec
          rw [hexec] at hidle
          refine ⟨.ok x, e, d', ?_, left_of_reworked hleft hidle⟩
          rw [exec_mutate hro hexec, hsettles]
          rfl
      | true =>
          obtain ⟨r, f, d'', hmutate, hclean⟩ := exec_mutate_settled h hro hexec hsettles
          rw [Bool.and_eq_true, Bool.not_eq_true'] at hsettles
          exact ⟨r, f, d'', hmutate, left_of_clean hclean hsettles.2⟩

/-- **A program on records touches nothing but the engine**, and leaves there what `Left` says. -/
theorem Records.leaves {a : Action Database α} (h : Records a) (db : Database) (d : Disk) :
    ∃ r e d', a.exec db d = (r, { db with engine := e }, d') ∧ Left db d e d' := by
  induction h generalizing db d with
  | ofResult r => exact ⟨r, db.engine, d, rfl, .refl db d⟩
  | size f => exact ⟨_, db.engine, d, rfl, .refl db d⟩
  | attempt inner ih =>
      obtain ⟨r, e, d', hexec, hleft⟩ := ih db d
      exact ⟨.ok r, e, d', by rw [exec_attempt, hexec], hleft⟩
  | ask question =>
      obtain ⟨hleft, hd⟩ := question.leaves db.engine d
      exact ⟨_, _, d, by rw [exec_onEngine, hd], left_of_unmoved hleft⟩
  | change change => exact left_of_change change db d
  | bind first next ihfirst ihnext =>
      obtain ⟨r, e, d', hexec, hleft⟩ := ihfirst db d
      cases r with
      | error error => exact ⟨_, e, d', exec_bind_error hexec, hleft⟩
      | ok x =>
          obtain ⟨r', f, d'', hexec', hleft'⟩ := ihnext x { db with engine := e } d'
          have hfirst : Left db d ({ db with engine := e } : Database).engine d' := hleft
          exact ⟨r', f, d'', (exec_bind_ok hexec).trans hexec', hfirst.trans rfl hleft'⟩

/-- **A program on records does not see the cache.** -/
theorem Records.respects {a : Action Database α} (h : Records a) : Respects Like a := by
  induction h with
  | ofResult r => exact .ofResult r
  | size f => exact respects_self_bind (fun h => by rw [h.size]) fun _ => .pure _
  | attempt inner ih => exact ih.attempt
  | ask question => exact respects_onEngine question.respects
  | change change => exact respects_mutate change.respects
  | bind first next ihfirst ihnext => exact ihfirst.bind ihnext

end

/-! ## What is settled -/

/-- A program that has settled what it changed when it returns: where changes are committed at once
and no transaction is open, it leaves nothing that a rollback would take back. -/
def Settling {α : Type} (a : Action Database α) : Prop :=
  ∀ (db : Database) (d : Disk), db.transaction.isActive = false → db.autoCommit = true →
    ∃ r e d', a.exec db d = (r, { db with engine := e }, d') ∧
      (r ≠ .error .panicked → db.readOnly = false → Clean db.engine → Clean e)

namespace Settling

variable {α β : Type}

theorem ofResult (r : Except Error α) : Settling (Action.ofResult r) := fun db d _ _ =>
  ⟨r, db.engine, d, rfl, fun _ _ h => h⟩

theorem pure (x : α) : Settling (pure x : Action Database α) := ofResult (.ok x)

theorem throw (e : Error) : Settling (throw e : Action Database α) := ofResult (.error e)

theorem size (f : Nat → α) : Settling (self >>= fun db => Pure.pure (f db.size)) :=
  fun db d _ _ => ⟨_, db.engine, d, rfl, fun _ _ h => h⟩

theorem bind {a : Action Database α} {k : α → Action Database β} (ha : Settling a)
    (hk : ∀ x, Settling (k x)) : Settling (a >>= k) := by
  intro db d hfree hauto
  obtain ⟨r, e, d', hexec, hclean⟩ := ha db d hfree hauto
  cases r with
  | error error =>
      refine ⟨_, e, d', exec_bind_error hexec, fun hr => hclean fun h => hr ?_⟩
      rw [Except.error.inj h]
  | ok x =>
      obtain ⟨r', f, d'', hexec', hclean'⟩ := hk x { db with engine := e } d' hfree hauto
      exact ⟨r', f, d'', (exec_bind_ok hexec).trans hexec',
        fun hr hro h => hclean' hr hro (hclean nofun hro h)⟩

theorem ask {a : Action Engine α} (h : Question a) : Settling (onEngine a) := by
  intro db d _ _
  obtain ⟨hleft, hd⟩ := h.leaves db.engine d
  exact ⟨_, _, d, by rw [exec_onEngine, hd], fun _ _ => hleft.clean⟩

theorem change {a : Action Engine α} (h : Change a) : Settling (mutate a) := by
  intro db d hfree hauto
  by_cases hro : db.readOnly = true
  · exact ⟨_, db.engine, d, exec_mutate_refused hro d, fun _ _ h => h⟩
  rw [Bool.not_eq_true] at hro
  match hexec : a.exec db.engine d with
  | (.error error, e, d') =>
      refine ⟨_, e, d', exec_mutate_failed hro hexec, fun hr _ => ?_⟩
      exact (h.failed (fun he => hr (by rw [he])) hexec).clean
  | (.ok x, e, d') =>
      have hsettles : (db.autoCommit && !db.transaction.isActive) = true := by
        rw [hfree, hauto]
        rfl
      obtain ⟨r, f, d'', hmutate, hclean⟩ := exec_mutate_settled h hro hexec hsettles
      exact ⟨r, f, d'', hmutate, fun _ _ hstart => hclean hstart.idle⟩

end Settling

theorem Records.onRecords {α : Type} {a : Action Database α} (h : Records a) (hs : Settling a) :
    OnRecords a where
  respects := h.respects
  joins d hactive _ := by
    obtain ⟨r, e, d', hexec, hleft⟩ := h.leaves _ d
    obtain ⟨rfl, hreworked⟩ := hleft.joined hactive
    exact ⟨r, e, hexec, hreworked, hleft.idle⟩
  settles d hfree hauto := hs _ d hfree hauto

/-! ## Calls -/

section

variable [Codec]

theorem records_find (key : Bytes) : Records (find key) := .ask (question_get key)

theorem records_fetch (key : Bytes) : Records (fetch key) := by
  refine .bind (records_find key) fun value => ?_
  cases value with
  | none => exact .throw _
  | some value => exact .pure value

theorem records_contains (key : Bytes) : Records (contains key) :=
  .bind (records_find key) fun _ => .pure _

theorem records_store (key value : Bytes) : Records (store key value) :=
  .change (change_put key value)

theorem records_append (key value : Bytes) : Records (append key value) :=
  .change (change_append key value)

omit [Codec] in
theorem records_delete (key : Bytes) : Records (delete key) :=
  .change (change_delete key (missing key))

/-- **A call for records is a program on records.** -/
theorem records_run {call : Call} (h : call.touchesRecords = true) (caller : Caller) :
    Records (call.run caller) := by
  cases call with
  | store key value => exact .bind (records_store key value) fun _ => .pure _
  | append key value => exact .bind (records_append key value) fun _ => .pure _
  | fetch key => exact .bind (records_fetch key) fun _ => .pure _
  | find key => exact .bind (records_find key) fun _ => .pure _
  | contains key => exact .bind (records_contains key) fun _ => .pure _
  | delete key => exact .bind (records_delete key) fun _ => .pure _
  | size => exact .size Reply.count
  | isEmpty => exact .size fun n => Reply.truth (n == 0)
  | begin => cases h
  | commit => cases h
  | rollback => cases h
  | inTransaction => cases h

theorem settling_find (key : Bytes) : Settling (find key) := .ask (question_get key)

/-- A call for records has settled what it changed. -/
theorem settling_run {call : Call} (h : call.touchesRecords = true) (caller : Caller) :
    Settling (call.run caller) := by
  cases call with
  | store key value => exact .bind (.change (change_put key value)) fun _ => .pure _
  | append key value => exact .bind (.change (change_append key value)) fun _ => .pure _
  | fetch key =>
      refine .bind (.bind (settling_find key) fun value => ?_) fun _ => .pure _
      cases value with
      | none => exact .throw _
      | some value => exact .pure value
  | find key => exact .bind (settling_find key) fun _ => .pure _
  | contains key => exact .bind (.bind (settling_find key) fun _ => .pure _) fun _ => .pure _
  | delete key => exact .bind (.change (change_delete key (missing key))) fun _ => .pure _
  | size => exact .size Reply.count
  | isEmpty => exact .size fun n => Reply.truth (n == 0)
  | begin => cases h
  | commit => cases h
  | rollback => cases h
  | inTransaction => cases h

theorem onRecords_run {call : Call} (h : call.touchesRecords = true) (caller : Caller) :
    OnRecords (call.run caller) := (records_run h caller).onRecords (settling_run h caller)

/-! ## Conversations of scripts -/

theorem records_hostCall (call : Script.HostCall) : Records call.run := by
  have hattempt : Records call.attempt := by
    cases call with
    | store key value => exact .bind (records_store key value) fun _ => .pure _
    | append key value => exact .bind (records_append key value) fun _ => .pure _
    | fetch key => exact .bind (records_find key) fun _ => .pure _
    | contains key => exact .bind (records_contains key) fun _ => .pure _
    | size => exact .size Script.HostReply.count
    | delete key =>
        refine .bind (records_delete key).attempt fun r => ?_
        match r with
        | .ok () => exact .pure _
        | .error e =>
            cases e with
            | notFound text => exact .pure _
            | _ => exact .throw _
  refine .bind hattempt.outcome fun r => ?_
  cases r with
  | ok reply => exact .pure _
  | error e => exact .pure _

/-- **Whatever a script says to a database is a program on records.** -/
theorem records_perform {α : Type} (c : Script.Conversation α) : Records c.perform := by
  induction c with
  | done result => exact .pure result
  | ask call answered ih => exact .bind (records_hostCall call) ih

end

/-! ## Programs with a state of their own -/

section

variable {σ α β : Type}

/-- Runs a program that has a state of its own beside the database; the state is given back with
the outcome. -/
def holding (a : Action (σ × Database) α) (s : σ) : Action Database (Except Error α × σ) :=
  fun (db, d) =>
    match a.exec (s, db) d with
    | (r, (s, db), d) => (.ok (r, s), db, d)

theorem exec_holding (a : Action (σ × Database) α) (s : σ) (db : Database) (d : Disk) :
    (holding a s).exec db d = (.ok ((a.exec (s, db) d).1, (a.exec (s, db) d).2.1.1),
      (a.exec (s, db) d).2.1.2, (a.exec (s, db) d).2.2) := rfl

/-- Two runs side by side, with the state that is held. -/
theorem of_respects_holding {T : Disk → Database → Database → Prop} {a : Action (σ × Database) α}
    {s : σ} (h : Respects T (holding a s)) {db db' : Database} {d : Disk} (hT : T d db db') :
    ∃ r s' t t' d', a.exec (s, db) d = (r, (s', t), d') ∧
      a.exec (s, db') d = (r, (s', t'), d') ∧ T d' t t' := by
  obtain ⟨r, t, t', d', hexec, hexec', hT'⟩ := h d db db' hT
  rw [exec_holding] at hexec hexec'
  match hout : a.exec (s, db) d, hout' : a.exec (s, db') d with
  | (r₁, (s₁, t₁), d₁), (r₂, (s₂, t₂), d₂) =>
      rw [hout] at hexec
      rw [hout'] at hexec'
      cases hexec
      cases hexec'
      exact ⟨r₁, s₁, t₁, t₂, d₁, rfl, rfl, hT'⟩

/-- A program with a state of its own that does nothing else to the database but to ask for records
and to change them. -/
def Handles (a : Action (σ × Database) α) : Prop := ∀ s, Records (holding a s)

namespace Handles

theorem ofResult (r : Except Error α) : Handles (Action.ofResult r : Action (σ × Database) α) :=
  fun s => .pure (r, s)

theorem pure (x : α) : Handles (pure x : Action (σ × Database) α) := ofResult (.ok x)

theorem throw (e : Error) : Handles (throw e : Action (σ × Database) α) := ofResult (.error e)

/-- The state of its own may be changed in any way. -/
theorem update {f : σ × Database → σ × Database} {g : σ → σ} (hf : ∀ s db, f (s, db) = (g s, db)) :
    Handles (Action.update f) := by
  intro s
  have heq : holding (Action.update f) s = Pure.pure (.ok (), g s) := by
    funext ⟨db, d⟩
    show (holding (Action.update f) s).exec db d = _
    rw [exec_holding, exec_update, hf]
    rfl
  rw [heq]
  exact .pure _

/-- The state of its own may be looked at, as long as the database beside it is not. -/
theorem self_bind {k : σ × Database → Action (σ × Database) α}
    (hsame : ∀ s db db', k (s, db) = k (s, db')) (hk : ∀ x, Handles (k x)) :
    Handles (self >>= k) := by
  intro s
  let other : Database :=
    { path := "", engine := .memory {}, autoCommit := true, readOnly := false,
      scriptTimeout := none }
  have heq : holding (self >>= k) s = holding (k (s, other)) s := by
    funext ⟨db, d⟩
    show (holding (self >>= k) s).exec db d = (holding (k (s, other)) s).exec db d
    rw [exec_holding, exec_holding, exec_bind_ok (exec_self (s, db) d), hsame s db other]
  rw [heq]
  exact hk _ s

theorem bind {a : Action (σ × Database) α} {k : α → Action (σ × Database) β} (ha : Handles a)
    (hk : ∀ x, Handles (k x)) : Handles (a >>= k) := by
  intro s
  have heq : holding (a >>= k) s = holding a s >>= fun out =>
      match out with
      | (.ok x, s') => holding (k x) s'
      | (.error e, s') => Pure.pure (.error e, s') := by
    funext ⟨db, d⟩
    show (holding (a >>= k) s).exec db d = Action.exec _ db d
    rw [exec_bind_ok (exec_holding a s db d), exec_holding, exec_bind]
    match a.exec (s, db) d with
    | (.ok x, (s', db'), d') => rfl
    | (.error e, (s', db'), d') => rfl
  rw [heq]
  refine .bind (ha s) fun out => ?_
  match out with
  | (.ok x, s') => exact hk x s'
  | (.error e, s') => exact .pure _

theorem attempt {a : Action (σ × Database) α} (ha : Handles a) : Handles (Action.attempt a) := by
  intro s
  have heq : holding (Action.attempt a) s =
      holding a s >>= fun out => Pure.pure (.ok out.1, out.2) := by
    funext ⟨db, d⟩
    show _ = Action.exec _ db d
    rw [exec_bind_ok (exec_holding a s db d)]
    rfl
  rw [heq]
  exact .bind (ha s) fun out => .pure _

theorem outcome {a : Action (σ × Database) α} (ha : Handles a) : Handles (Action.outcome a) := by
  refine .bind ha.attempt fun r => ?_
  split
  · exact .throw _
  · exact .pure _

/-- A program on records may be carried out. -/
theorem zoom {a : Action Database α} (ha : Records a) :
    Handles (Action.zoom (·.2) (fun db (s : σ × Database) => (s.1, db)) a) := by
  intro s
  have heq : holding (Action.zoom (·.2) (fun db (s : σ × Database) => (s.1, db)) a) s =
      Action.attempt a >>= fun r => Pure.pure (r, s) := by
    funext ⟨db, d⟩
    show _ = Action.exec _ db d
    rw [exec_bind_ok (exec_attempt a db d)]
    rfl
  rw [heq]
  exact .bind ha.attempt fun r => .pure _

theorem leaves {a : Action (σ × Database) α} (h : Handles a) (s : σ) (db : Database) (d : Disk) :
    ∃ r s' e d', a.exec (s, db) d = (r, (s', { db with engine := e }), d') ∧ Left db d e d' := by
  obtain ⟨r, e, d', hexec, hleft⟩ := (h s).leaves db d
  rw [exec_holding] at hexec
  match hout : a.exec (s, db) d with
  | (r', (s', db'), d'') =>
      rw [hout] at hexec
      cases hexec
      exact ⟨r', s', e, _, rfl, hleft⟩

end Handles

end

/-! ## Cursors -/

theorem handles_ensureOpen : Handles Cursor.ensureOpen := by
  refine .self_bind (fun _ _ _ => rfl) fun s => ?_
  split
  · exact .throw _
  · exact .pure _

theorem handles_place (position : Cursor.Position) : Handles (Cursor.place position) :=
  .update fun _ _ => rfl

theorem handles_goTo {search : Action Engine (Option (Bytes × Bytes))} (h : Question search)
    (miss : Error) : Handles (Cursor.goTo search miss) := by
  refine .bind (.zoom (.ask h)) fun found => ?_
  cases found with
  | none => exact .bind (handles_place _) fun _ => .throw miss
  | some r => exact handles_place _

theorem handles_step {search : Bytes → Action Engine (Option (Bytes × Bytes))}
    (h : ∀ key, Question (search key)) : Handles (Cursor.step search) := by
  refine .bind handles_ensureOpen fun _ => .self_bind (fun _ _ _ => rfl) fun s => ?_
  cases s.1.position with
  | unplaced => exact .throw _
  | «at» key value => exact handles_goTo (h key) _
  | detached key => exact handles_goTo (h key) _
  | eof => exact .throw _

variable [Codec]

theorem handles_isValid : Handles Cursor.isValid := by
  refine .self_bind (fun _ _ _ => rfl) fun s => ?_
  obtain ⟨c, db⟩ := s
  dsimp only
  cases c.position with
  | «at» key value =>
      dsimp only
      split
      · exact .pure _
      · refine .bind (Handles.zoom (records_contains key)).outcome fun r => ?_
        cases r with
        | ok found => exact .pure _
        | error e => exact .pure _
  | unplaced => exact .pure _
  | detached key => exact .pure _
  | eof => exact .pure _

theorem handles_entry : Handles Cursor.entry := by
  have hrefresh : Handles Cursor.refresh := by
    refine .self_bind (fun _ _ _ => rfl) fun s => ?_
    cases s.1.position with
    | «at» key value =>
        refine .bind (.zoom (records_find key)) fun found => ?_
        cases found with
        | none => exact handles_place _
        | some value => exact handles_place _
    | unplaced => exact .pure _
    | detached key => exact .pure _
    | eof => exact .pure _
  refine .bind handles_ensureOpen fun _ => .bind hrefresh fun _ => ?_
  refine .self_bind (fun _ _ _ => rfl) fun s => ?_
  cases s.1.position with
  | «at» key value => exact .pure _
  | unplaced => exact .throw _
  | detached key => exact .throw _
  | eof => exact .throw _

/-- To take out a record and find the one after it is a change like any other. -/
theorem change_takeOut (key : Bytes) : Change (Cursor.takeOut key) where
  respects := by
    refine .bind (respects_next key) fun next => .bind (respects_delete key) fun found => ?_
    cases found with
    | true => exact .pure _
    | false => exact .pure _
  leaves := by
    refine .bind ((question_next key).leaves.mono fun _ _ h => h.reworked) fun next => ?_
    refine .bind (leaves_delete key) fun found => ?_
    cases found with
    | true => exact .ofResult _
    | false => exact .ofResult _
  keeps_idle := by
    refine .bind (keeps_either fun _ => (Tree.reading_next key).orderly.keeps_idle) fun next => ?_
    refine .bind (keeps_either fun _ => Tree.keeps_idle_delete key) fun found => ?_
    cases found with
    | true => exact .pure _
    | false => exact .pure _
  failed := by
    intro e f d d' error herror h
    obtain ⟨hnext, hd⟩ := (question_next key).leaves e d
    rw [Cursor.takeOut, exec_bind] at h
    match hexec : (Engine.next key).exec e d with
    | (.error error', g, d₁) =>
        rw [hexec] at h hnext
        cases h
        exact hnext
    | (.ok next, g, d₁) =>
        rw [hexec] at h hnext
        dsimp only at h
        rw [exec_bind] at h
        match hexec' : (Engine.delete key).exec g d₁ with
        | (.error error', g', d₂) =>
            rw [hexec'] at h
            cases h
            exact hnext.trans (unmoved_of_error Tree.unchanged_of_delete herror hexec').1
        | (.ok found, g', d₂) =>
            rw [hexec'] at h
            cases found <;> cases h

theorem handles_delete : Handles Cursor.delete := by
  refine .bind handles_ensureOpen fun _ => .self_bind (fun _ _ _ => rfl) fun s => ?_
  cases s.1.position with
  | «at» key value =>
      refine .bind (.zoom (.change (change_takeOut key))) fun found => ?_
      match found with
      | some (some (key, value)) => exact handles_place _
      | some none => exact handles_place _
      | none => exact .bind (handles_place _) fun _ => .throw _
  | unplaced => exact .throw _
  | detached key => exact .throw _
  | eof => exact .throw _

end PagedStore.Database
