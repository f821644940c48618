import Mathlib.Data.List.Nodup
import PagedStore.Proofs.Databases

/-!
# The protocol of transactions

The callers of one place for a transaction know of it from their calls and the answers to these.
By them a transaction has begun when a call to begin was answered with its number (`begun`), and
has ended when a call to finish it, or to abandon whatever is open, was answered with it (`ended`);
it is open when it has begun and not ended. Whatever calls are made in whatever order, at most one
transaction is open, the answers to the next call are told by which one it is, and no transaction
ends twice or by the hand of another caller.

The place keeps nothing but the open transaction and the last number. That this is enough rests on
one account (`Accounted`): the numbers of the transactions that have begun are those that have
ended, in the same order, and behind them the one that is open.
-/

set_option autoImplicit false

namespace PagedStore.TransactionSlot

open PagedStore.Action

/-! ## What callers know -/

/-- A call that was made, and its answer. -/
structure Event where
  call : TransactionCall
  answer : Except Error (Option Nat)

/-- Calls made one after the other on a place that was never used: the calls with their answers,
and the place after them. -/
def play (calls : List TransactionCall) : List Event × TransactionSlot :=
  calls.foldl (fun (es, s) call => (es ++ [⟨call, (call.run s).1⟩], (call.run s).2)) ([], {})

namespace Event

/-- The transaction that a call began. -/
def begun? : Event → Option OpenTransaction
  | ⟨.begin caller, .ok (some id)⟩ => some ⟨id, caller⟩
  | _ => none

/-- The number of the transaction that a call ended. -/
def ended? : Event → Option Nat
  | ⟨.finish _, .ok (some id)⟩ => some id
  | ⟨.abandon, .ok (some id)⟩ => some id
  | _ => none

end Event

/-- The transactions that have begun. -/
def begun (es : List Event) : List OpenTransaction := es.filterMap Event.begun?

/-- The numbers of the transactions that have ended. -/
def ended (es : List Event) : List Nat := es.filterMap Event.ended?

/-- A transaction that has begun and not ended. -/
def IsOpen (es : List Event) (t : OpenTransaction) : Prop := t ∈ begun es ∧ t.id ∉ ended es

theorem play_concat (calls : List TransactionCall) (call : TransactionCall) :
    play (calls ++ [call]) = ((play calls).1 ++ [⟨call, (call.run (play calls).2).1⟩],
      (call.run (play calls).2).2) := by
  rw [play, List.foldl_concat]
  rfl

theorem begun_concat (es : List Event) (e : Event) :
    begun (es ++ [e]) = begun es ++ e.begun?.toList := by
  rw [begun, List.filterMap_append, begun]
  cases h : e.begun? <;> simp [h]

theorem ended_concat (es : List Event) (e : Event) :
    ended (es ++ [e]) = ended es ++ e.ended?.toList := by
  rw [ended, List.filterMap_append, ended]
  cases h : e.ended? <;> simp [h]

/-! ## Single calls -/

/-- What a call can be answered, and what then becomes of the place. -/
inductive Step (s : TransactionSlot) : Event → TransactionSlot → Prop where
  | begins {caller : Caller} (free : s.current = none) :
      Step s ⟨.begin caller, .ok (some (s.lastId + 1))⟩
        ⟨some ⟨s.lastId + 1, caller⟩, s.lastId + 1⟩
  | taken {caller : Caller} {t : OpenTransaction} (current : s.current = some t) :
      Step s ⟨.begin caller, .error (.lockError s!"transaction {t.id} is already active")⟩ s
  | finishes {t : OpenTransaction} (current : s.current = some t) :
      Step s ⟨.finish t.owner, .ok (some t.id)⟩ s.abandon
  | foreign {caller : Caller} {t : OpenTransaction} (current : s.current = some t)
      (other : t.owner ≠ caller) :
      Step s ⟨.finish caller, .error (.lockError s!"transaction {t.id} belongs to another thread")⟩
        s
  | unopened {caller : Caller} (free : s.current = none) :
      Step s ⟨.finish caller, .error (.lockError "no active transaction")⟩ s
  | abandons {t : OpenTransaction} (current : s.current = some t) :
      Step s ⟨.abandon, .ok (some t.id)⟩ s.abandon
  | rests (free : s.current = none) : Step s ⟨.abandon, .ok none⟩ s.abandon

theorem step_run (s : TransactionSlot) (call : TransactionCall) :
    Step s ⟨call, (call.run s).1⟩ (call.run s).2 := by
  obtain ⟨current, lastId⟩ := s
  cases call with
  | begin caller =>
      cases current with
      | none => exact .begins rfl
      | some t => exact .taken rfl
  | finish caller =>
      cases current with
      | none => exact .unopened rfl
      | some t =>
          by_cases howner : t.owner = caller
          · subst howner
            have hfinish : finish ⟨some t, lastId⟩ t.owner = .ok (t.id, abandon ⟨some t, lastId⟩) :=
              if_pos rfl
            rw [TransactionCall.run, hfinish]
            exact .finishes rfl
          · have hfinish : finish ⟨some t, lastId⟩ caller =
                .error (.lockError s!"transaction {t.id} belongs to another thread") :=
              if_neg howner
            rw [TransactionCall.run, hfinish]
            exact .foreign rfl howner
  | abandon =>
      cases current with
      | none => exact .rests rfl
      | some t => exact .abandons rfl

/-! ## The account of a history -/

section

variable {es : List Event} {e : Event} {s s' : TransactionSlot} {t : OpenTransaction}

/-- What a place holds, told by the events before. -/
structure Accounted (es : List Event) (s : TransactionSlot) : Prop where
  /-- Transactions are numbered from one. -/
  numbered : (begun es).map (·.id) = List.range' 1 s.lastId
  /-- All that have begun have ended in their order, but for the open one. -/
  accounts : (begun es).map (·.id) = ended es ++ (s.current.map (·.id)).toList
  current : ∀ t, s.current = some t → t ∈ begun es

theorem Accounted.start : Accounted [] {} := ⟨rfl, rfl, nofun⟩

/-- A call that neither begins nor ends a transaction. -/
theorem Accounted.rests (h : Accounted es s) (hbegun : e.begun? = none) (hended : e.ended? = none) :
    Accounted (es ++ [e]) s := by
  obtain ⟨hnumbered, haccounts, hcurrent⟩ := h
  refine ⟨?_, ?_, fun t ht => ?_⟩
  · rw [begun_concat, hbegun, Option.toList_none, List.append_nil, hnumbered]
  · rw [begun_concat, hbegun, ended_concat, hended, Option.toList_none, Option.toList_none,
      List.append_nil, List.append_nil, haccounts]
  · rw [begun_concat]
    exact List.mem_append_left _ (hcurrent t ht)

theorem Accounted.begins (h : Accounted es s) (hfree : s.current = none) {caller : Caller}
    (hbegun : e.begun? = some ⟨s.lastId + 1, caller⟩) (hended : e.ended? = none) :
    Accounted (es ++ [e]) ⟨some ⟨s.lastId + 1, caller⟩, s.lastId + 1⟩ := by
  obtain ⟨hnumbered, haccounts, -⟩ := h
  rw [hfree, Option.map_none, Option.toList_none, List.append_nil] at haccounts
  refine ⟨?_, ?_, fun t ht => ?_⟩
  · rw [begun_concat, hbegun, Option.toList_some, List.map_append, hnumbered, List.range'_concat,
      Nat.one_mul, Nat.add_comm 1]
    rfl
  · rw [begun_concat, hbegun, ended_concat, hended, Option.toList_some, Option.toList_none,
      List.append_nil, List.map_append, haccounts]
    rfl
  · obtain rfl := Option.some.inj ht
    rw [begun_concat, hbegun, Option.toList_some]
    exact List.mem_append_right _ List.mem_cons_self

theorem Accounted.ends (h : Accounted es s) (hcurrent : s.current = some t)
    (hbegun : e.begun? = none) (hended : e.ended? = some t.id) :
    Accounted (es ++ [e]) s.abandon := by
  obtain ⟨hnumbered, haccounts, -⟩ := h
  refine ⟨?_, ?_, nofun⟩
  · rw [begun_concat, hbegun, Option.toList_none, List.append_nil, hnumbered]
    rfl
  · rw [begun_concat, hbegun, ended_concat, hended, Option.toList_none, List.append_nil, haccounts,
      hcurrent]
    exact (List.append_nil _).symm

/-- **One call keeps the account.** -/
theorem Accounted.step (h : Accounted es s) (hstep : Step s e s') : Accounted (es ++ [e]) s' := by
  cases hstep with
  | begins free => exact h.begins free rfl rfl
  | taken current => exact h.rests rfl rfl
  | finishes current => exact h.ends current rfl rfl
  | foreign current other => exact h.rests rfl rfl
  | unopened free => exact h.rests rfl rfl
  | abandons current => exact h.ends current rfl rfl
  | rests free =>
      have hsame : s.abandon = s := by
        obtain ⟨current, lastId⟩ := s
        rw [abandon, show current = none from free]
      rw [hsame]
      exact h.rests rfl rfl

/-- **Any calls keep the account.** -/
theorem accounted_play (calls : List TransactionCall) :
    Accounted (play calls).1 (play calls).2 := by
  induction calls using List.reverseRecOn with
  | nil => exact .start
  | append_singleton calls call ih =>
      rw [play_concat]
      exact ih.step (step_run _ call)

/-! ## What the account says -/

theorem Accounted.increasing (h : Accounted es s) :
    ((begun es).map (·.id)).Pairwise (· < ·) := h.numbered ▸ List.pairwise_lt_range'

theorem Accounted.nodup (h : Accounted es s) :
    (ended es ++ (s.current.map (·.id)).toList).Nodup :=
  h.accounts ▸ h.increasing.imp Nat.ne_of_lt

/-- Transactions that have begun are told apart by their numbers. -/
theorem Accounted.eq_of_id_eq (h : Accounted es s) {t t' : OpenTransaction} (ht : t ∈ begun es)
    (ht' : t' ∈ begun es) (hid : t.id = t'.id) : t = t' :=
  List.inj_on_of_nodup_map (h.increasing.imp Nat.ne_of_lt) ht ht' hid

/-- **The place holds the transaction that has begun and not ended.** -/
theorem Accounted.current_eq_some_iff (h : Accounted es s) : s.current = some t ↔ IsOpen es t := by
  constructor
  · intro hcurrent
    refine ⟨h.current t hcurrent, fun hended => ?_⟩
    have hnodup := h.nodup
    rw [hcurrent] at hnodup
    exact (List.nodup_append.1 hnodup).2.2 _ hended _ (by simp) rfl
  · rintro ⟨hbegun, hended⟩
    have hid : t.id ∈ ended es ++ (s.current.map (·.id)).toList :=
      h.accounts ▸ List.mem_map_of_mem hbegun
    rcases List.mem_append.1 hid with hid | hid
    · exact absurd hid hended
    · rw [Option.mem_toList, Option.map_eq_some_iff] at hid
      obtain ⟨t', hcurrent, hsame⟩ := hid
      rw [hcurrent, h.eq_of_id_eq (h.current t' hcurrent) hbegun hsame]

theorem Accounted.current_eq_none_iff (h : Accounted es s) :
    s.current = none ↔ ∀ t, ¬ IsOpen es t := by
  rw [Option.eq_none_iff_forall_ne_some]
  exact forall_congr' fun t => not_congr h.current_eq_some_iff

/-- A number in use is at most the last one. -/
theorem Accounted.id_le (h : Accounted es s) (ht : t ∈ begun es) : t.id ≤ s.lastId := by
  have hid := List.mem_map_of_mem (f := OpenTransaction.id) ht
  rw [h.numbered, List.mem_range'_1] at hid
  omega

end

/-! ## The protocol -/

/-- An end that is none of the callers' but the owner's, or taken from the owner. -/
def Event.Rightful (es : List Event) (e : Event) : Prop :=
  ∀ id, e.ended? = some id →
    ∃ owner, ⟨id, owner⟩ ∈ begun es ∧ (e.call = .finish owner ∨ e.call = .abandon)

/-- What callers can rely on after the events `es`. -/
structure Orderly (es : List Event) (s : TransactionSlot) : Prop where
  /-- The place shows the transaction that has begun and not ended. -/
  shown : ∀ t, s.current = some t ↔ IsOpen es t
  /-- At most one transaction is open. -/
  single : ∀ t t', IsOpen es t → IsOpen es t' → t = t'
  /-- The numbers of the transactions increase. -/
  increasing : ((begun es).map (·.id)).Pairwise (· < ·)
  /-- No transaction ends twice. -/
  once : (ended es).Nodup
  /-- A transaction is ended by its owner, or taken from it. -/
  rightful : ∀ e ∈ es, e.Rightful es
  /-- A transaction can be begun when none is open, by any caller. -/
  begins : ∀ caller, (∃ answer, ((TransactionCall.begin caller).run s).1 = .ok answer) ↔
    ∀ t, ¬ IsOpen es t
  /-- It gets a number greater than all before. -/
  numbers : ∀ caller answer, ((TransactionCall.begin caller).run s).1 = .ok answer →
    ∃ id, answer = some id ∧ ∀ t ∈ begun es, t.id < id
  /-- A caller can finish the open transaction if it is its own, and gets its number. -/
  finishes : ∀ caller answer, ((TransactionCall.finish caller).run s).1 = .ok answer ↔
    ∃ id, answer = some id ∧ IsOpen es ⟨id, caller⟩
  /-- The open transaction can be abandoned, whoever owns it. -/
  abandons : ∃ answer, (TransactionCall.abandon.run s).1 = .ok answer ∧
    ∀ id, answer = some id ↔ ∃ owner, IsOpen es ⟨id, owner⟩
  /-- What fails is the protocol's doing, and changes nothing. -/
  fails : ∀ (call : TransactionCall) (e : Error), (call.run s).1 = .error e →
    (call.run s).2 = s ∧ ∃ message, e = .lockError message

section

variable {es : List Event} {e : Event} {s s' : TransactionSlot}

theorem Event.Rightful.concat (h : e.Rightful es) (e' : Event) : e.Rightful (es ++ [e']) := by
  intro id hended
  obtain ⟨owner, hbegun, hcall⟩ := h id hended
  refine ⟨owner, ?_, hcall⟩
  rw [begun_concat]
  exact List.mem_append_left _ hbegun

/-- What a call ends is the open transaction of the caller, unless it abandons it. -/
theorem Accounted.rightful (h : Accounted es s) (hstep : Step s e s') : e.Rightful es := by
  intro id hended
  cases hstep with
  | finishes current =>
      obtain rfl := Option.some.inj hended
      exact ⟨_, h.current _ current, .inl rfl⟩
  | abandons current =>
      obtain rfl := Option.some.inj hended
      exact ⟨_, h.current _ current, .inr rfl⟩
  | _ => cases hended

theorem rightful_play (calls : List TransactionCall) :
    ∀ e ∈ (play calls).1, e.Rightful (play calls).1 := by
  induction calls using List.reverseRecOn with
  | nil => exact nofun
  | append_singleton calls call ih =>
      rw [play_concat]
      intro e he
      rcases List.mem_append.1 he with he | he
      · exact (ih e he).concat _
      · obtain rfl := List.mem_singleton.1 he
        exact ((accounted_play calls).rightful (step_run _ call)).concat _

theorem run_begin_eq_ok_iff {caller : Caller} {answer : Option Nat} :
    ((TransactionCall.begin caller).run s).1 = .ok answer ↔
      s.current = none ∧ answer = some (s.lastId + 1) := by
  obtain ⟨current, lastId⟩ := s
  cases current with
  | none => simp [TransactionCall.run, begin, TransactionCall.outcome, eq_comm]
  | some t => simp [TransactionCall.run, begin, TransactionCall.outcome]

theorem run_finish_eq_ok_iff {caller : Caller} {answer : Option Nat} :
    ((TransactionCall.finish caller).run s).1 = .ok answer ↔
      ∃ id, answer = some id ∧ s.current = some ⟨id, caller⟩ := by
  obtain ⟨current, lastId⟩ := s
  cases current with
  | none => simp [TransactionCall.run, finish, TransactionCall.outcome]
  | some t =>
      obtain ⟨id, owner⟩ := t
      by_cases howner : owner = caller
      · simp [TransactionCall.run, finish, TransactionCall.outcome, howner, eq_comm]
      · simp [TransactionCall.run, finish, TransactionCall.outcome, howner]

/-- A call that fails changes nothing. -/
theorem run_eq_error {call : TransactionCall} {e : Error} (h : (call.run s).1 = .error e) :
    (call.run s).2 = s ∧ ∃ message, e = .lockError message := by
  have hstep := step_run s call
  rw [h] at hstep
  generalize (call.run s).2 = s' at hstep
  cases hstep with
  | taken => exact ⟨rfl, _, rfl⟩
  | foreign => exact ⟨rfl, _, rfl⟩
  | unopened => exact ⟨rfl, _, rfl⟩

theorem Accounted.orderly (h : Accounted es s) (hr : ∀ e ∈ es, e.Rightful es) : Orderly es s where
  shown t := h.current_eq_some_iff
  single t t' ht ht' := by
    rw [← h.current_eq_some_iff] at ht ht'
    exact Option.some.inj (ht.symm.trans ht')
  increasing := h.increasing
  once := (List.nodup_append.1 h.nodup).1
  rightful := hr
  begins caller := by
    rw [← h.current_eq_none_iff]
    exact ⟨fun ⟨_, hok⟩ => (run_begin_eq_ok_iff.1 hok).1,
      fun hfree => ⟨_, run_begin_eq_ok_iff.2 ⟨hfree, rfl⟩⟩⟩
  numbers caller answer hok :=
    ⟨_, (run_begin_eq_ok_iff.1 hok).2, fun t ht => Nat.lt_succ_of_le (h.id_le ht)⟩
  finishes caller answer := by
    rw [run_finish_eq_ok_iff]
    exact exists_congr fun id => and_congr_right fun _ => h.current_eq_some_iff
  abandons := by
    refine ⟨_, rfl, fun id => ?_⟩
    rw [Option.map_eq_some_iff]
    constructor
    · rintro ⟨⟨_, owner⟩, hcurrent, rfl⟩
      exact ⟨owner, h.current_eq_some_iff.1 hcurrent⟩
    · rintro ⟨owner, hopen⟩
      exact ⟨_, h.current_eq_some_iff.2 hopen, rfl⟩
  fails call e := run_eq_error

end

/-! ## Databases -/

section

variable {db : Database} {d : Disk} {e : Error}

/-- Where the engine refuses to begin, the place is free again. -/
theorem exec_start_refused (hfree : db.transaction.current = none)
    (h : (Engine.begin.exec db.engine d).1 = .error e) (caller : Caller) :
    (Database.start caller).exec db d =
      (.error e, { db with transaction := ⟨none, db.transaction.lastId + 1⟩ }, d) := by
  match hbegin : Engine.begin.exec db.engine d with
  | (r, engine, d') =>
      rw [hbegin] at h
      obtain rfl : r = .error e := h
      obtain ⟨rfl, -, hsame, -⟩ := Engine.of_exec_begin hbegin
      obtain rfl := hsame nofun
      rw [Database.start, exec_bind, exec_self]
      dsimp only
      rw [exec_bind, exec_ofResult, begin, hfree]
      dsimp only
      rw [exec_bind, exec_update]
      dsimp only
      rw [exec_bind, exec_attempt, Database.exec_onEngine]
      dsimp only
      rw [hbegin]
      rfl

end

/-- **The protocol of transactions is kept**, by any callers with any calls: at most one transaction
is open, begun when none was, with a number greater than all before; it ends once, by its owner or
by being abandoned; and a call that is refused changes nothing. A database whose engine refuses to
begin a transaction, for a caller or for a script, has none open and is otherwise as it was. -/
theorem protocol_is_kept :
    (∀ calls : List TransactionCall, Orderly (play calls).1 (play calls).2) ∧
    ∀ (db : Database) (d : Disk) (caller : Caller) (e : Error), db.readOnly = false →
      db.transaction.isActive = false → (Engine.begin.exec db.engine d).1 = .error e →
        ∃ slot, slot.isActive = false ∧
          (Database.begin caller).exec db d = (.error e, { db with transaction := slot }, d) ∧
          (Database.beginImplicit caller).exec db d =
            (.error e, { db with transaction := slot }, d) := by
  refine ⟨fun calls => (accounted_play calls).orderly (rightful_play calls),
    fun db d caller e hro hidle hbegin => ?_⟩
  have hfree : db.transaction.current = none := by simpa [isActive] using hidle
  have hstart := exec_start_refused hfree hbegin caller
  refine ⟨⟨none, db.transaction.lastId + 1⟩, rfl, ?_, ?_⟩
  · rw [Database.begin, exec_bind_ok (Database.exec_ensureWritable hro d), hstart]
  · have hgo : ¬ (db.readOnly || db.transaction.isActive) = true := by
      rw [hro, hidle]
      decide
    rw [Database.beginImplicit, exec_bind, exec_self]
    dsimp only
    rw [if_neg hgo]
    exact exec_bind_error hstart

/-- Two callers that get in each other's way, and a transaction that is taken from its owner. -/
def crossedCalls : List TransactionCall :=
  [.begin 1, .begin 2, .finish 2, .finish 1, .finish 1, .begin 2, .abandon, .abandon]

/-- A database on a file that a stopped commit has left behind. -/
def stoppedDatabase : Database where
  path := "db"
  engine := .tree {
    path := "db"
    file := 0
    log := some 1
    pageSize := 512
    header := .fresh 512
    committed := .fresh 512
    cache := { capacity := 1 }
    maxPages := 2
    crashPoint := none
    poisoned := some "stopped" } .off
  autoCommit := true
  readOnly := false
  scriptTimeout := none

/-- The first transaction was finished by its owner and the second one abandoned; on the stopped
database none can begin. -/
theorem protocol_is_kept_crossed_calls :
    Orderly (play crossedCalls).1 (play crossedCalls).2 ∧
      (begun (play crossedCalls).1 = [⟨1, 1⟩, ⟨2, 2⟩] ∧ ended (play crossedCalls).1 = [1, 2]) ∧
      ∃ slot, slot.isActive = false ∧
        (Database.begin 1).exec stoppedDatabase .empty =
          (.error (.aborted "pager unusable: stopped"),
            { stoppedDatabase with transaction := slot }, .empty) := by
  obtain ⟨hcalls, hrefused⟩ := protocol_is_kept
  obtain ⟨slot, hidle, hbegin, -⟩ :=
    hrefused stoppedDatabase .empty 1 (.aborted "pager unusable: stopped") rfl rfl rfl
  exact ⟨hcalls crossedCalls, ⟨rfl, rfl⟩, slot, hidle, hbegin⟩

end PagedStore.TransactionSlot
