import PagedStore.Compression.Block
import PagedStore.Proofs.PagerHistory
import PagedStore.Proofs.Readers
import PagedStore.Proofs.RecordPrograms

/-!
# Serial histories

Several callers make their calls on one database in any order; each call is one step, and one that
needs the records waits while a transaction of someone else is open. From such a history a serial
one is made: the calls of a transaction stand together, those of a transaction that was rolled back
are left out, and so is every call that neither touches records nor begins or ends a transaction.

Whoever made the calls, the serial history can be made on the database as it was opened, with the
same answers, and what is asked next is answered the same after the one history and after the other.
-/

set_option autoImplicit false

namespace PagedStore.Database

open PagedStore.Action Engine

/-! ## Histories -/

/-- A call that was made, and its answer. -/
structure Event where
  caller : Caller
  call : Call
  answer : Except Error Reply

/-- Calls that are made one after the other, each of them when it needs no waiting, and each of them
returning: a call that stops the program gives no answer. -/
inductive Run [Codec] (db₀ : Database) (d₀ : Disk) : List Event → Database → Disk → Prop where
  | start : Run db₀ d₀ [] db₀ d₀
  | call {es : List Event} {db db' : Database} {d d' : Disk} {caller : Caller} {call : Call}
      {answer : Except Error Reply} (before : Run db₀ d₀ es db d)
      (enabled : call.enabled db caller = true)
      (exec : (call.run caller).exec db d = (answer, db', d'))
      (returns : answer ≠ .error .panicked) :
      Run db₀ d₀ (es ++ [⟨caller, call, answer⟩]) db' d'

/-- A serial history: the calls outside of transactions and the transactions that were committed,
and the transaction that is open, with its owner and its calls so far. -/
structure Serial where
  settled : List Event := []
  current : Option (Caller × List Event) := none

namespace Serial

/-- All calls of a serial history. -/
def history (s : Serial) : List Event := s.settled ++ (s.current.map (·.2)).getD []

theorem history_none (es : List Event) : history ⟨es, none⟩ = es := List.append_nil es

theorem history_some (es calls : List Event) (owner : Caller) :
    history ⟨es, some (owner, calls)⟩ = es ++ calls := rfl

/-- What becomes of a serial history by one more call. -/
def next (s : Serial) (e : Event) : Serial :=
  match s.current with
  | none =>
      if e.call.touchesRecords then { settled := s.settled ++ [e] }
      else if e.call = .begin ∧ e.answer.isOk then { s with current := some (e.caller, [e]) }
      else s
  | some (owner, calls) =>
      if e.caller ≠ owner then s
      else if e.call.touchesRecords then { s with current := some (owner, calls ++ [e]) }
      else if e.call = .commit then { settled := s.settled ++ (calls ++ [e]) }
      else if e.call = .rollback then { settled := s.settled }
      else s

/-- The ways in which a serial history goes on. -/
inductive Step (e : Event) : Serial → Serial → Prop where
  /-- Outside of transactions a call for records counts at once. -/
  | alone {settled : List Event} (touches : e.call.touchesRecords = true) :
      Step e ⟨settled, none⟩ ⟨settled ++ [e], none⟩
  | begin {settled : List Event} (call : e.call = .begin) (answer : e.answer.isOk = true) :
      Step e ⟨settled, none⟩ ⟨settled, some (e.caller, [e])⟩
  | idle {settled : List Event} (touches : e.call.touchesRecords = false)
      (answer : e.call = .begin → e.answer.isOk = false) :
      Step e ⟨settled, none⟩ ⟨settled, none⟩
  /-- While a transaction is open, what others call for does not count. -/
  | foreign {settled calls : List Event} {owner : Caller} (caller : e.caller ≠ owner) :
      Step e ⟨settled, some (owner, calls)⟩ ⟨settled, some (owner, calls)⟩
  | joins {settled calls : List Event} (touches : e.call.touchesRecords = true) :
      Step e ⟨settled, some (e.caller, calls)⟩ ⟨settled, some (e.caller, calls ++ [e])⟩
  | commit {settled calls : List Event} (call : e.call = .commit) :
      Step e ⟨settled, some (e.caller, calls)⟩ ⟨settled ++ (calls ++ [e]), none⟩
  | rollback {settled calls : List Event} (call : e.call = .rollback) :
      Step e ⟨settled, some (e.caller, calls)⟩ ⟨settled, none⟩
  | busy {settled calls : List Event} (call : e.call = .begin ∨ e.call = .inTransaction) :
      Step e ⟨settled, some (e.caller, calls)⟩ ⟨settled, some (e.caller, calls)⟩

theorem step_next (s : Serial) (e : Event) : Step e s (s.next e) := by
  obtain ⟨settled, current⟩ := s
  rw [next]
  cases current with
  | none =>
      dsimp only
      split
      · exact .alone ‹_›
      · rename_i htouches
        split
        · rename_i hbegin
          exact .begin hbegin.1 hbegin.2
        · rename_i hfailed
          refine .idle (Bool.not_eq_true _ ▸ htouches) fun hcall => ?_
          simpa [hcall] using hfailed
  | some block =>
      obtain ⟨owner, calls⟩ := block
      dsimp only
      split
      · exact .foreign ‹_›
      · rename_i howner
        obtain rfl := not_not.1 howner
        split
        · exact .joins ‹_›
        · split
          · exact .commit ‹_›
          · split
            · exact .rollback ‹_›
            · refine .busy ?_
              cases hcall : e.call <;> simp_all [Call.touchesRecords]

end Serial

/-- The serial history that is made from a history. -/
def serial (es : List Event) : Serial := es.foldl Serial.next {}

theorem step_serial (es : List Event) (e : Event) :
    Serial.Step e (serial es) (serial (es ++ [e])) := by
  have hnext : serial (es ++ [e]) = (serial es).next e := by rw [serial, serial, List.foldl_concat]
  rw [hnext]
  exact (serial es).step_next e

/-! ## The shape of a serial history -/

/-- The calls of one transaction, from the one that began it. -/
inductive Block (owner : Caller) : List Event → Prop where
  | begin {e : Event} (caller : e.caller = owner) (call : e.call = .begin)
      (answer : e.answer.isOk = true) : Block owner [e]
  | call {calls : List Event} {e : Event} (before : Block owner calls) (caller : e.caller = owner)
      (touches : e.call.touchesRecords = true) : Block owner (calls ++ [e])

/-- Each transaction stands in one piece and ends with its commit; all other calls are for
records. -/
inductive Contiguous : List Event → Prop where
  | nil : Contiguous []
  | alone {es : List Event} {e : Event} (before : Contiguous es)
      (touches : e.call.touchesRecords = true) : Contiguous (es ++ [e])
  | transaction {es calls : List Event} {owner : Caller} {e : Event} (before : Contiguous es)
      (block : Block owner calls) (caller : e.caller = owner) (call : e.call = .commit) :
      Contiguous (es ++ (calls ++ [e]))

/-- A serial history in which each transaction stands in one piece. -/
structure Serial.Sound (s : Serial) : Prop where
  settled : Contiguous s.settled
  current : ∀ owner calls, s.current = some (owner, calls) → Block owner calls

theorem Serial.Sound.step {s t : Serial} {e : Event} (h : s.Sound) (hstep : Step e s t) :
    t.Sound := by
  obtain ⟨hsettled, hcurrent⟩ := h
  cases hstep with
  | alone touches => exact ⟨.alone hsettled touches, fun _ _ hc => by cases hc⟩
  | begin call answer =>
      refine ⟨hsettled, fun owner calls hc => ?_⟩
      cases hc
      exact .begin rfl call answer
  | idle => exact ⟨hsettled, hcurrent⟩
  | foreign => exact ⟨hsettled, hcurrent⟩
  | joins touches =>
      refine ⟨hsettled, fun owner calls hc => ?_⟩
      cases hc
      exact .call (hcurrent _ _ rfl) rfl touches
  | commit call =>
      exact ⟨.transaction hsettled (hcurrent _ _ rfl) rfl call, fun _ _ hc => by cases hc⟩
  | rollback => exact ⟨hsettled, fun _ _ hc => by cases hc⟩
  | busy => exact ⟨hsettled, hcurrent⟩

/-- **In a serial history each transaction stands in one piece.** -/
theorem sound_serial (es : List Event) : (serial es).Sound := by
  induction es using List.reverseRecOn with
  | nil => exact ⟨.nil, fun _ _ hc => by cases hc⟩
  | append_singleton es e ih => exact ih.step (step_serial es e)

theorem Serial.Step.history_sublist {s t : Serial} {e : Event} (h : Step e s t) :
    t.history.Sublist (s.history ++ [e]) := by
  have hsame : ∀ u : Serial, u.history.Sublist (u.history ++ [e]) := fun u =>
    List.sublist_append_left ..
  cases h with
  | alone => rw [history_none, history_none]
  | begin => rw [history_none, history_some]
  | idle => exact hsame _
  | foreign => exact hsame _
  | joins => rw [history_some, history_some, List.append_assoc]
  | commit => rw [history_none, history_some, List.append_assoc]
  | rollback =>
      rw [history_none, history_some, List.append_assoc]
      exact List.sublist_append_left ..
  | busy => exact hsame _

/-- A serial history keeps the order of the calls. -/
theorem history_serial_sublist (es : List Event) : (serial es).history.Sublist es := by
  induction es using List.reverseRecOn with
  | nil => exact .refl _
  | append_singleton es e ih => exact (step_serial es e).history_sublist.trans (ih.append_right [e])

/-! ## A database and its serial history -/

section

variable {db₀ db db' dbs : Database} {d₀ d d' : Disk} {s t : Serial} {e : Event} {es : List Event}

/-! ### Calls for transactions -/

section

variable [Codec]

/-- A call that does not get at the records: its answer does not depend on them, and it changes
nothing. -/
def KeptOut (db : Database) (caller : Caller) (call : Call) : Prop :=
  ∃ answer, (∀ e d, (call.run caller).exec { db with engine := e } d =
      (answer, { db with engine := e }, d)) ∧
    (call = .inTransaction ∨ ∃ message, answer = .error (.lockError message))

/-- **Who does not own the open transaction is kept out.** -/
theorem keptOut_of_foreign {caller owner : Caller} {call : Call} (hro : db.readOnly = false)
    (h : db.transaction.owner? = some owner) (hne : caller ≠ owner)
    (ht : call.touchesRecords = false) : KeptOut db caller call := by
  have hother : db.transaction.owner? ≠ some caller := by
    rw [h]
    intro heq
    exact hne (Option.some.inj heq).symm
  have refused : ∀ {a : Action Database Reply}, Refused a db → ∃ answer,
      (∀ e d, a.exec { db with engine := e } d = (answer, { db with engine := e }, d)) ∧
        ∃ message, answer = .error (.lockError message) := by
    rintro a ⟨message, hexec⟩
    exact ⟨_, hexec, message, rfl⟩
  cases call with
  | begin =>
      obtain ⟨answer, hexec, hanswer⟩ := refused ((refused_begin hro h caller).bind _)
      exact ⟨answer, hexec, .inr hanswer⟩
  | commit =>
      obtain ⟨answer, hexec, hanswer⟩ := refused (((refused_finish hother).bind _).bind _)
      exact ⟨answer, hexec, .inr hanswer⟩
  | rollback =>
      obtain ⟨answer, hexec, hanswer⟩ := refused (((refused_finish hother).bind _).bind _)
      exact ⟨answer, hexec, .inr hanswer⟩
  | inTransaction => exact ⟨.ok (.truth db.transaction.isActive), fun e d => rfl, .inl rfl⟩
  | _ => cases ht

/-- The database as it was when the open transaction began, with the engine of that time. -/
def before (db : Database) (e₀ : Engine) : Database :=
  { db with engine := e₀, transaction := {} }

/-- The state of a database is told by a serial history of calls on it. -/
inductive Tells (db₀ : Database) (d₀ : Disk) (db : Database) (d : Disk) : Serial → Prop where
  | free {settled : List Event} {dbs : Database} (run : Run db₀ d₀ settled dbs d)
      (like : Like d dbs db) (auto : db.autoCommit = true) (owner : db.transaction.owner? = none)
      (clean : db.readOnly = false → Clean db.engine) : Tells db₀ d₀ db d ⟨settled, none⟩
  /-- While a transaction is open, there is a way back to where it began. -/
  | taken {settled calls : List Event} {caller : Caller} {dbs dbt : Database} {e₀ : Engine}
      (run : Run db₀ d₀ settled dbs d) (like : Like d dbs (db.before e₀))
      (run' : Run db₀ d₀ (settled ++ calls) dbt d) (like' : Like d dbt db)
      (auto : db.autoCommit = true) (owner : db.transaction.owner? = some caller)
      (writable : db.readOnly = false) (within : Within e₀ db.engine) (idle : Idle db.engine) :
      Tells db₀ d₀ db d ⟨settled, some (caller, calls)⟩

/-- Two runs of a call on databases that are alike. -/
theorem Like.call {caller : Caller} {call : Call} {answer : Except Error Reply}
    (h : Like d dbs db) (ht : call.touchesRecords = true)
    (hexec : (call.run caller).exec db d = (answer, db', d')) :
    ∃ dbs', (call.run caller).exec dbs d = (answer, dbs', d') ∧ Like d' dbs' db' := by
  obtain ⟨r, s, t, d₁, hs, ht, hlike⟩ := (onRecords_run ht caller).respects d _ _ h
  rw [hexec] at ht
  cases ht
  exact ⟨s, hs, hlike⟩

end

/-- A free place keeps nobody waiting. -/
theorem enabled_of_free (h : db.transaction.owner? = none) (caller : Caller) (call : Call) :
    call.enabled db caller = true := by
  rw [Call.enabled, waits, TransactionSlot.isForeign, h]
  cases call.touchesRecords <;> rfl

/-- Nobody waits for a transaction of their own. -/
theorem enabled_of_owner {caller : Caller} (h : db.transaction.owner? = some caller) (call : Call) :
    call.enabled db caller = true := by
  rw [Call.enabled, waits, TransactionSlot.isForeign, h]
  cases call.touchesRecords <;> simp

/-- Nobody touches the records while a transaction of someone else is open. -/
theorem touches_of_foreign {caller owner : Caller} (h : db.transaction.owner? = some owner)
    (hne : caller ≠ owner) {call : Call} (henabled : call.enabled db caller = true) :
    call.touchesRecords = false := by
  rw [Call.enabled, waits, TransactionSlot.isForeign, h] at henabled
  cases ht : call.touchesRecords with
  | false => rfl
  | true =>
      rw [ht] at henabled
      simp [hne.symm] at henabled

variable [Codec]

theorem Tells.alone {settled : List Event} (h : Tells db₀ d₀ db d ⟨settled, none⟩)
    (touches : e.call.touchesRecords = true)
    (hexec : (e.call.run e.caller).exec db d = (e.answer, db', d'))
    (returns : e.answer ≠ .error .panicked) :
    Tells db₀ d₀ db' d' ⟨settled ++ [e], none⟩ := by
  cases h with
  | free run like auto owner clean =>
      obtain ⟨dbs', hs, hlike⟩ := like.call touches hexec
      obtain ⟨r, f, d₁, hown, hclean⟩ :=
        (onRecords_run touches e.caller).settles d (isActive_of_free owner) auto
      have henabled := enabled_of_free (like.owner.symm.trans owner) e.caller e.call
      have hrun := run.call henabled hs returns
      rw [hown] at hexec
      obtain ⟨hanswer, hleft⟩ := Prod.mk.inj hexec
      cases hleft
      rw [← hanswer] at returns
      exact .free hrun hlike auto owner fun hro => hclean returns hro (clean hro)

theorem Tells.joins {settled calls : List Event}
    (h : Tells db₀ d₀ db d ⟨settled, some (e.caller, calls)⟩)
    (touches : e.call.touchesRecords = true)
    (hexec : (e.call.run e.caller).exec db d = (e.answer, db', d'))
    (returns : e.answer ≠ .error .panicked) :
    Tells db₀ d₀ db' d' ⟨settled, some (e.caller, calls ++ [e])⟩ := by
  cases h with
  | taken run like run' like' auto owner writable within idle =>
      obtain ⟨dbs', hs, hlike⟩ := like'.call touches hexec
      obtain ⟨r, f, hown, hleft, hidle⟩ :=
        (onRecords_run touches e.caller).joins d (isActive_of_owner owner) auto
      rw [hown] at hexec
      cases hexec
      have henabled := enabled_of_owner (like'.owner.symm.trans owner) e.call
      have hrun := run'.call henabled hs returns
      rw [List.append_assoc] at hrun
      exact .taken run like hrun hlike auto owner writable (within.reworked hleft) (hidle idle)

theorem Tells.rollback {settled calls : List Event} {caller : Caller} {answer : Except Error Reply}
    (h : Tells db₀ d₀ db d ⟨settled, some (caller, calls)⟩)
    (hexec : (Call.rollback.run caller).exec db d = (answer, db', d')) :
    Tells db₀ d₀ db' d' ⟨settled, none⟩ := by
  cases h with
  | taken run like run' like' auto owner writable within idle =>
      have hown : (Call.rollback.run caller).exec db d = (.ok .done,
          { db with
            engine := db.engine.rolledBack
            transaction := db.transaction.abandon }, d) := by
        rw [Call.run, exec_bind_ok (exec_rollback owner d)]
        rfl
      rw [hown] at hexec
      cases hexec
      obtain ⟨hakin, hclean⟩ := within.rolledBack like.akin.right like'.akin.right
      refine .free run ?_ auto rfl fun _ => hclean
      exact ⟨like.readOnly, like.autoCommit, like.owner, like.akin.trans hakin⟩

theorem Tells.commit {settled calls : List Event} {caller : Caller} {answer : Except Error Reply}
    (h : Tells db₀ d₀ db d ⟨settled, some (caller, calls)⟩)
    (hexec : (Call.commit.run caller).exec db d = (answer, db', d'))
    (returns : answer ≠ .error .panicked) :
    Tells db₀ d₀ db' d' ⟨settled ++ (calls ++ [⟨caller, .commit, answer⟩]), none⟩ := by
  cases h with
  | @taken _ _ _ _ dbt _ run like run' like' auto owner writable within idle =>
      have hlike : Like d { dbt with transaction := dbt.transaction.abandon }
          { db with transaction := db.transaction.abandon } :=
        ⟨like'.readOnly, like'.autoCommit, rfl, like'.akin⟩
      obtain ⟨r, f, d₁, hsettle, hclean⟩ :=
        exec_settle { db with transaction := db.transaction.abandon } d
      obtain ⟨_, dbt', _, _, hs, ht, hlike'⟩ := respects_settle d _ _ hlike
      rw [hsettle] at ht
      cases ht
      have hown := exec_bind_pure ((exec_commit owner d).trans hsettle) fun _ => Reply.done
      have howner := like'.owner.symm.trans owner
      have hserial := exec_bind_pure ((exec_commit howner d).trans hs) fun _ => Reply.done
      rw [Call.run, hown] at hexec
      cases hexec
      have hrun := run'.call (enabled_of_owner howner .commit) hserial returns
      rw [List.append_assoc] at hrun
      exact .free hrun hlike' auto rfl fun _ => hclean idle

theorem Tells.begin {settled : List Event} {caller : Caller} {answer : Except Error Reply}
    (h : Tells db₀ d₀ db d ⟨settled, none⟩)
    (hexec : (Call.begin.run caller).exec db d = (answer, db', d')) :
    Tells db₀ d₀ db' d' (if answer.isOk then ⟨settled, some (caller, [⟨caller, .begin, answer⟩])⟩
      else ⟨settled, none⟩) := by
  cases h with
  | free run like auto owner clean =>
      by_cases hro : db.readOnly = true
      · have hown : (Call.begin.run caller).exec db d = (.error .readOnly, db, d) :=
          exec_bind_error (exec_bind_error (exec_ensureWritable_refused hro d))
        rw [hown] at hexec
        cases hexec
        exact .free run like auto owner clean
      rw [Bool.not_eq_true] at hro
      obtain ⟨r, f', f, d₁, hs, ht, hakin⟩ := respects_begin d _ _ like.akin
      obtain ⟨rfl, hwithin, hsame, hidle⟩ := of_exec_begin ht
      have howner := like.owner.symm.trans owner
      obtain ⟨slot, hown, hslot⟩ := exec_begin hro owner caller ht
      obtain ⟨slot', hserial, hslot'⟩ := exec_begin (like.readOnly.symm.trans hro) howner caller hs
      rw [Call.run, exec_bind_pure hown] at hexec
      cases hexec
      cases r with
      | error error =>
          have hf := hsame fun h => by cases h
          subst hf
          exact .free run ⟨like.readOnly, like.autoCommit, hslot.trans howner.symm, like.akin⟩ auto
            hslot clean
      | ok x =>
          have hrun := run.call (enabled_of_free howner caller .begin)
            (exec_bind_pure hserial _) nofun
          exact .taken run ⟨like.readOnly, like.autoCommit, howner.symm, like.akin⟩ hrun
            ⟨like.readOnly, like.autoCommit, hslot.trans hslot'.symm, hakin⟩ auto hslot hro
            (hwithin (clean hro) rfl) (hidle (clean hro).idle)

theorem KeptOut.unchanged {caller : Caller} {call : Call} {answer : Except Error Reply}
    (h : KeptOut db caller call) (hexec : (call.run caller).exec db d = (answer, db', d')) :
    db' = db ∧ d' = d := by
  obtain ⟨answer', hkept, -⟩ := h
  have hsame : (call.run caller).exec db d = (answer', db, d) := hkept db.engine d
  rw [hsame] at hexec
  cases hexec
  exact ⟨rfl, rfl⟩

/-- Outside of transactions, nothing comes of a call that touches no records. -/
theorem Tells.idle {settled : List Event} {caller : Caller} {call : Call}
    {answer : Except Error Reply} (h : Tells db₀ d₀ db d ⟨settled, none⟩)
    (touches : call.touchesRecords = false) (hfailed : call = .begin → answer.isOk = false)
    (hexec : (call.run caller).exec db d = (answer, db', d')) :
    Tells db₀ d₀ db' d' ⟨settled, none⟩ := by
  cases call with
  | begin =>
      have hbegun := h.begin hexec
      rwa [hfailed rfl, if_neg Bool.false_ne_true] at hbegun
  | commit =>
      cases h with
      | free run like auto owner clean =>
          have hrefused : Refused (finish caller) db := refused_finish (by rw [owner]; nofun)
          obtain ⟨rfl, rfl⟩ := ((hrefused.bind _).bind _).unchanged hexec
          exact .free run like auto owner clean
  | rollback =>
      cases h with
      | free run like auto owner clean =>
          have hrefused : Refused (finish caller) db := refused_finish (by rw [owner]; nofun)
          obtain ⟨rfl, rfl⟩ := ((hrefused.bind _).bind _).unchanged hexec
          exact .free run like auto owner clean
  | inTransaction =>
      cases hexec
      exact h
  | _ => cases touches

/-- Within a transaction, nothing comes of a call that does not get at the records. -/
theorem Tells.taken_unchanged {settled calls : List Event} {caller owner : Caller} {call : Call}
    {answer : Except Error Reply} (h : Tells db₀ d₀ db d ⟨settled, some (owner, calls)⟩)
    (henabled : call.enabled db caller = true)
    (hcall : caller ≠ owner ∨ call = .begin ∨ call = .inTransaction)
    (hexec : (call.run caller).exec db d = (answer, db', d')) : db' = db ∧ d' = d := by
  cases h with
  | taken run like run' like' auto howner writable within idle =>
      rcases hcall with hne | rfl | rfl
      · have ht := touches_of_foreign howner hne henabled
        exact (keptOut_of_foreign writable howner hne ht).unchanged hexec
      · exact ((refused_begin writable howner caller).bind _).unchanged hexec
      · cases hexec
        exact ⟨rfl, rfl⟩

/-- **One call keeps a database and its serial history together.** -/
theorem Tells.step (h : Tells db₀ d₀ db d s)
    (hstep : Serial.Step e s t) (henabled : e.call.enabled db e.caller = true)
    (hexec : (e.call.run e.caller).exec db d = (e.answer, db', d'))
    (returns : e.answer ≠ .error .panicked) : Tells db₀ d₀ db' d' t := by
  cases hstep with
  | alone touches => exact h.alone touches hexec returns
  | begin hcall hok =>
      rw [hcall] at hexec
      have hbegun := h.begin hexec
      rw [if_pos hok, ← hcall] at hbegun
      exact hbegun
  | idle touches hfailed => exact h.idle touches hfailed hexec
  | foreign hne =>
      obtain ⟨rfl, rfl⟩ := h.taken_unchanged henabled (.inl hne) hexec
      exact h
  | joins touches => exact h.joins touches hexec returns
  | commit hcall =>
      rw [hcall] at hexec
      have hended := h.commit hexec returns
      rw [← hcall] at hended
      exact hended
  | rollback hcall =>
      rw [hcall] at hexec
      exact h.rollback hexec
  | busy hcall =>
      obtain ⟨rfl, rfl⟩ := h.taken_unchanged henabled (.inr hcall) hexec
      exact h

/-- **A history keeps a database and its serial history together.** -/
theorem Run.tells (h : Run db₀ d₀ es db d) (h₀ : Tells db₀ d₀ db₀ d₀ {}) :
    Tells db₀ d₀ db d (serial es) := by
  induction h with
  | start => exact h₀
  | call before enabled exec returns ih => exact ih.step (step_serial _ _) enabled exec returns

/-! ### What a serial history tells -/

/-- The open transaction belongs to the caller whose calls the serial history has at its end. -/
theorem Tells.owner (h : Tells db₀ d₀ db d s) :
    db.transaction.owner? = s.current.map (·.1) := by
  cases h with
  | free run like auto owner clean => exact owner
  | taken run like run' like' auto owner writable within idle => exact owner

/-- Only a database that can be written has a transaction. -/
theorem Tells.writable (h : Tells db₀ d₀ db d s) {caller : Caller}
    (howner : db.transaction.owner? = some caller) : db.readOnly = false := by
  cases h with
  | free run like auto owner clean =>
      rw [owner] at howner
      cases howner
  | taken run like run' like' auto owner writable within idle => exact writable

/-- The serial history leads to a database like the one that it tells of. -/
theorem Tells.replayed (h : Tells db₀ d₀ db d s) :
    ∃ dbs, Run db₀ d₀ s.history dbs d ∧ Like d dbs db := by
  cases h with
  | free run like auto owner clean =>
      rw [Serial.history_none]
      exact ⟨_, run, like⟩
  | taken run like run' like' auto owner writable within idle => exact ⟨_, run', like'⟩

/-! ## The beginning of a history -/

omit [Codec] in
/-- The engine of a database that was just opened has nothing to take back. -/
theorem clean_of_openEngine {path : String} {o : Options} {e : Engine} (hlive : d.NamesLive)
    (hapart : d.NamesApart) (hp : o.pageSize ∈ pageSizes)
    (h : (openEngine path o).exec () d = (.ok e, (), d')) :
    Akin d' e e ∧ (o.readOnly = false → Clean e) := by
  rw [openEngine] at h
  split at h
  · cases h
    exact ⟨.memory _, fun _ => rfl⟩
  · obtain ⟨p, ⟨⟩, d₁, hopen, hend⟩ := of_exec_bind_ok h
    obtain ⟨rfl, -, rfl⟩ := exec_ok_inj hend
    obtain ⟨hc, hidle, -⟩ := Pager.coherent_of_open hlive hapart hp hopen
    refine ⟨.tree _ hc.twins, fun ho => ?_⟩
    obtain ⟨file, log, hd, rfl, -⟩ := Pager.ready_of_open hlive hapart ho hp hopen
    exact ⟨rfl, rfl, hidle⟩

/-- A database that was just opened is told by the empty history. -/
theorem tells_of_open {path : String} {o : Options} {l l' : Library} (hlive : d.NamesLive)
    (hapart : d.NamesApart) (hauto : o.autoCommit = true)
    (h : («open» path o).exec l d = (.ok db, l', d')) : Tells db d' db d' {} := by
  obtain ⟨hvalid, e, hengine, rfl⟩ := open_eq_ok h
  obtain ⟨hakin, hclean⟩ :=
    clean_of_openEngine hlive hapart (Pager.pageSize_of_validate hvalid) hengine
  exact .free .start ⟨rfl, rfl, rfl, hakin⟩ hauto rfl hclean

/-! ## Serialisability -/

/-- What the callers of a history can rely on. -/
structure Serialised (db₀ : Database) (d₀ : Disk) (es : List Event) (db : Database) (d : Disk) :
    Prop where
  /-- The open transaction belongs to the caller whose calls the serial history has at its end. -/
  owner : db.transaction.owner? = (serial es).current.map (·.1)
  /-- Whoever does not own the open transaction does not get at the records, whatever the call. -/
  keptOut : ∀ (owner caller : Caller) (call : Call), db.transaction.owner? = some owner →
    caller ≠ owner → call.enabled db caller = true → KeptOut db caller call
  /-- In the serial history each transaction stands in one piece. -/
  sound : (serial es).Sound
  /-- The serial history keeps the order of the calls, and their answers. -/
  ordered : (serial es).history.Sublist es
  /-- The serial history can be made, and the next call for records is answered as after it. -/
  replayed : ∃ dbs, Run db₀ d₀ (serial es).history dbs d ∧ ∀ (caller : Caller) (call : Call),
    call.touchesRecords = true → call.enabled db caller = true →
      call.enabled dbs caller = true ∧
        ((call.run caller).exec db d).1 = ((call.run caller).exec dbs d).1

/-- A call for records is answered the same by databases that are alike. -/
theorem Like.answers (h : Like d dbs db) (caller : Caller) (call : Call)
    (ht : call.touchesRecords = true) (henabled : call.enabled db caller = true) :
    call.enabled dbs caller = true ∧
      ((call.run caller).exec db d).1 = ((call.run caller).exec dbs d).1 := by
  have hexec : (call.run caller).exec db d = (((call.run caller).exec db d).1, _, _) := rfl
  obtain ⟨dbs', hs, -⟩ := h.call ht hexec
  exact ⟨(h.enabled caller call).symm.trans henabled, (congrArg Prod.fst hs).symm⟩

/-- **Transactions are serialisable.** From the opening of a database on, with changes committed at
once outside of transactions, every history of calls by any number of callers gives the answers of
its serial history. -/
theorem transactions_serialisable {path : String} {o : Options} {l l' : Library} {d₁ : Disk}
    (hlive : d₁.NamesLive) (hapart : d₁.NamesApart) (hauto : o.autoCommit = true)
    (hopen : («open» path o).exec l d₁ = (.ok db₀, l', d₀)) (hrun : Run db₀ d₀ es db d) :
    Serialised db₀ d₀ es db d := by
  have htells := hrun.tells (tells_of_open hlive hapart hauto hopen)
  refine ⟨htells.owner, fun owner caller call howner hne henabled => ?_, sound_serial es,
    history_serial_sublist es, ?_⟩
  · have ht := touches_of_foreign howner hne henabled
    exact keptOut_of_foreign (htells.writable howner) howner hne ht
  · obtain ⟨dbs, hserial, hlike⟩ := htells.replayed
    exact ⟨dbs, hserial, hlike.answers⟩

end

/-! ## Two callers -/

/-- A database in memory. -/
def inMemory : Database := {
  path := memoryPath
  engine := .memory {}
  autoCommit := true
  readOnly := false
  scriptTimeout := none }

theorem open_inMemory : («open» memoryPath {}).exec {} Pager.emptyFiles =
    (.ok inMemory, Library.register {}, Pager.emptyFiles) := rfl

/-- The database after a transaction that was rolled back. -/
def afterRollback : Database := { inMemory with transaction := { lastId := 1 } }

/-- One caller rolls back what another one has not seen. -/
def twoCallers : List Event := [
  ⟨1, .begin, .ok .done⟩,
  ⟨1, .store [1] [2], .ok .done⟩,
  ⟨2, .begin, .error (.lockError "transaction 1 is already active")⟩,
  ⟨1, .rollback, .ok .done⟩,
  ⟨2, .contains [1], .ok (.truth false)⟩]

theorem run_twoCallers :
    Run inMemory Pager.emptyFiles twoCallers afterRollback Pager.emptyFiles := by
  have hbegun : Run inMemory Pager.emptyFiles (twoCallers.take 1) _ _ := .call .start rfl rfl nofun
  have hstored : Run inMemory Pager.emptyFiles (twoCallers.take 2) _ _ := .call hbegun rfl rfl nofun
  have hrefused : Run inMemory Pager.emptyFiles (twoCallers.take 3) _ _ := .call hstored rfl rfl nofun
  have hback : Run inMemory Pager.emptyFiles (twoCallers.take 4) afterRollback _ :=
    .call hrefused rfl rfl nofun
  exact .call hback rfl rfl nofun

/-- The second caller is answered as if the first one had never been there. -/
theorem transactions_serialisable_two_callers :
    Serialised inMemory Pager.emptyFiles twoCallers afterRollback Pager.emptyFiles ∧
      (serial twoCallers).history = [⟨2, .contains [1], .ok (.truth false)⟩] :=
  ⟨transactions_serialisable Pager.namesLive_emptyFiles Pager.namesApart_emptyFiles rfl
    open_inMemory run_twoCallers, rfl⟩

end PagedStore.Database
