import PagedStore.Proofs.Ledgers

/-!
# What scripts make of the records

A script is answered by a database as its records say: what it looks for is found in a map, and what
it stores, appends or deletes is changed there (`HostCall.Meets`). From one call to the next this
says what all the calls of a run lead to (`Conversation.Leads`), for any script and whatever it goes
on with. A database that follows a ledger keeps to it, as long as no call of the script is a
transaction of its own.
-/

set_option autoImplicit false

namespace PagedStore

namespace Script

/-! ## One call -/

namespace HostCall

/-- Whether a call stores a record. -/
def Stores : HostCall → Prop
  | store .. => True
  | append .. => True
  | _ => False

/-- What a call is answered where the records are those of a map. -/
def reply (readOnly : Bool) (m : Contents) : HostCall → HostReply
  | store .. => if readOnly then .failed .readOnly else .done
  | append .. => if readOnly then .failed .readOnly else .done
  | fetch key => .value m[key]?
  | delete key => if readOnly then .failed .readOnly else .truth (m.contains key)
  | contains key => .truth (m.contains key)
  | size => .count m.size

/-- What a call makes of the map. -/
def changed (readOnly : Bool) (m : Contents) (c : HostCall) : Contents :=
  if readOnly then m
  else
    match c with
    | store key value => m.insert key value
    | append key value => m.insert key (m[key]?.getD [] ++ value)
    | delete key => m.erase key
    | _ => m

/-- The answer to a call and the map after it. A record may be refused, which changes nothing. -/
inductive Meets (refuses : Error → Prop) (readOnly : Bool) (m : Contents) (c : HostCall) :
    HostReply → Contents → Prop where
  | served : Meets refuses readOnly m c (c.reply readOnly m) (c.changed readOnly m)
  | refused {e : Error} (stores : c.Stores) (writable : readOnly = false) (reason : refuses e) :
      Meets refuses readOnly m c (.failed e) m

end HostCall

/-! ## A whole run -/

variable {α : Type}

/-- How a conversation ends when one call after the other meets the records, and the map that is
there then. -/
inductive Conversation.Leads (refuses : Error → Prop) (readOnly : Bool) :
    Conversation α → Contents → α → Contents → Prop where
  | done (x : α) (m : Contents) : Leads refuses readOnly (.done x) m x m
  | ask {c : HostCall} {answered : HostReply → Conversation α} {m next last : Contents}
      {reply : HostReply} {x : α} (meets : c.Meets refuses readOnly m reply next)
      (rest : Leads refuses readOnly (answered reply) next x last) :
      Leads refuses readOnly (.ask c answered) m x last

section

variable {refuses refuses' : Error → Prop} {readOnly : Bool} {c : Conversation α}
  {m m' : Contents} {x : α}

/-- What refuses a record may be told more broadly. -/
theorem Conversation.Leads.mono (h : c.Leads refuses readOnly m x m')
    (hall : ∀ e, refuses e → refuses' e) : c.Leads refuses' readOnly m x m' := by
  induction h with
  | done x m => exact .done x m
  | ask meets rest ih =>
      refine .ask ?_ ih
      cases meets with
      | served => exact .served
      | refused stores writable reason => exact .refused stores writable (hall _ reason)

/-- Where nothing may be changed the records stay. -/
theorem Conversation.Leads.records_eq (h : c.Leads refuses true m x m') : m' = m := by
  induction h with
  | done => rfl
  | ask meets rest ih =>
      cases meets with
      | served => exact ih
      | refused stores writable => cases writable

end

/-! ## Calls to a database -/

namespace HostCall

open PagedStore.Action

/-- The call to a database that a script makes. -/
def asCall : HostCall → Call
  | store key value => .store key value
  | append key value => .append key value
  | fetch key => .find key
  | delete key => .delete key
  | contains key => .contains key
  | size => .size

theorem touchesRecords_asCall (c : HostCall) : c.asCall.touchesRecords = true := by
  cases c <;> rfl

theorem storesRecord_asCall {c : HostCall} (h : Database.storesRecord c.asCall = true) :
    c.Stores := by
  cases c with
  | store key value => trivial
  | append key value => trivial
  | _ => cases h

/-- A result of a call as a script hears it. -/
def ofReply : Reply → HostReply
  | .done => .done
  | .truth b => .truth b
  | .count n => .count n
  | .value bs => .value (some bs)
  | .perhaps bs => .value bs

/-- The answer to a call as a script hears it. To take away what is not there is no failure. -/
def heard : HostCall → Except Error Reply → HostReply
  | delete _, .ok _ => .truth true
  | delete _, .error (.notFound _) => .truth false
  | _, .ok reply => ofReply reply
  | _, .error e => .failed e

variable {α : Type} {c : HostCall} {caller : Caller} {db db' : Database} {d d' : Disk}
  {r : Except Error Reply}

/-- What a call comes to is what the script hears, be it a failure. -/
theorem exec_run_of_ok [Codec] {reply : HostReply}
    (h : c.attempt.exec db d = (.ok reply, db', d')) : c.run.exec db d = (.ok reply, db', d') := by
  have hreturns : (c.attempt.exec db d).1 ≠ .error .panicked := by
    rw [h]
    nofun
  rw [run, exec_bind_ok (exec_outcome hreturns), h]
  rfl

theorem exec_run_of_error [Codec] {e : Error} (h : c.attempt.exec db d = (.error e, db', d'))
    (hne : e ≠ .panicked) : c.run.exec db d = (.ok (.failed e), db', d') := by
  have hreturns : (c.attempt.exec db d).1 ≠ .error .panicked := by
    rw [h]
    exact fun heq => hne (Except.error.inj heq)
  rw [run, exec_bind_ok (exec_outcome hreturns), h]
  rfl

/-- A call of a script that is heard as it is answered. -/
theorem exec_run_of_eq [Codec] {a : Action Database α} {f : α → HostReply} {g : α → Reply}
    (hattempt : c.attempt = a >>= fun x => pure (f x))
    (hcall : c.asCall.run caller = a >>= fun x => pure (g x))
    (hok : ∀ x, c.heard (.ok (g x)) = f x) (herror : ∀ e, c.heard (.error e) = .failed e)
    (h : (c.asCall.run caller).exec db d = (r, db', d')) (hreturns : r ≠ .error .panicked) :
    c.run.exec db d = (.ok (c.heard r), db', d') := by
  rw [hcall] at h
  match ha : a.exec db d with
  | (.ok x, db₁, d₁) =>
      rw [exec_bind_ok ha] at h
      cases h
      rw [hok]
      refine exec_run_of_ok ?_
      rw [hattempt, exec_bind_ok ha]
      rfl
  | (.error e, db₁, d₁) =>
      rw [exec_bind_error ha] at h
      cases h
      rw [herror]
      refine exec_run_of_error ?_ fun he => hreturns (congrArg _ he)
      rw [hattempt, exec_bind_error ha]

/-- **A call of a script is a call to the database**, if that returns. -/
theorem exec_run [Codec] (h : (c.asCall.run caller).exec db d = (r, db', d'))
    (hreturns : r ≠ .error .panicked) : c.run.exec db d = (.ok (c.heard r), db', d') := by
  cases c with
  | store key value => exact exec_run_of_eq rfl rfl (fun _ => rfl) (fun _ => rfl) h hreturns
  | append key value => exact exec_run_of_eq rfl rfl (fun _ => rfl) (fun _ => rfl) h hreturns
  | fetch key => exact exec_run_of_eq rfl rfl (fun _ => rfl) (fun _ => rfl) h hreturns
  | contains key => exact exec_run_of_eq rfl rfl (fun _ => rfl) (fun _ => rfl) h hreturns
  | size => exact exec_run_of_eq rfl rfl (fun _ => rfl) (fun _ => rfl) h hreturns
  | delete key =>
      rw [asCall, Call.run] at h
      rcases ha : (Database.delete key).exec db d with ⟨r₁, db₁, d₁⟩
      have hattempt := (exec_attempt (Database.delete key) db d).trans
        (congrArg (fun out => (Except.ok out.1, out.2)) ha)
      cases r₁ with
      | ok _ =>
          rw [exec_bind_ok ha] at h
          cases h
          refine exec_run_of_ok ?_
          rw [attempt, exec_bind_ok hattempt]
          rfl
      | error e =>
          rw [exec_bind_error ha] at h
          cases h
          -- That a record is missing is heard as an answer, any other failure as it is.
          by_cases hmissing : ∃ s, e = .notFound s
          · obtain ⟨s, rfl⟩ := hmissing
            refine exec_run_of_ok ?_
            rw [attempt, exec_bind_ok hattempt]
            rfl
          · have hother : ∀ s, e ≠ .notFound s := fun s hs => hmissing ⟨s, hs⟩
            have hheard : heard (.delete key) (.error e) = .failed e := by
              cases e <;> first | rfl | exact absurd rfl (hother _)
            rw [hheard]
            refine exec_run_of_error ?_ fun he => hreturns (congrArg _ he)
            rw [attempt, exec_bind_ok hattempt]
            cases e <;> first | rfl | exact absurd rfl (hother _)

end HostCall

end Script

/-! ## Databases that follow a ledger -/

namespace Database

open PagedStore.Action Script

section

variable {place : Place} {auto : Bool} {db : Database} {d : Disk} {l : Ledger} {α : Type}

theorem Ledger.heard_answer (l : Ledger) (caller : Caller) (c : HostCall) :
    c.heard (l.answer caller c.asCall) = c.reply l.readOnly l.current := by
  cases c with
  | fetch key => rfl
  | contains key => rfl
  | size => rfl
  | store key value =>
      rw [HostCall.asCall, Ledger.answer, Ledger.guarded, HostCall.reply]
      split <;> rfl
  | append key value =>
      rw [HostCall.asCall, Ledger.answer, Ledger.guarded, HostCall.reply]
      split <;> rfl
  | delete key =>
      rw [HostCall.asCall, Ledger.answer, Ledger.guarded, HostCall.reply]
      split
      · rfl
      · cases l.current.contains key <;> rfl

/-- What a ledger answers a script is never that a check of its own has failed. -/
theorem Ledger.answer_ne_panicked (l : Ledger) (caller : Caller) (c : HostCall) :
    l.answer caller c.asCall ≠ .error .panicked := by
  cases c with
  | fetch key => simp [HostCall.asCall, Ledger.answer]
  | contains key => simp [HostCall.asCall, Ledger.answer]
  | size => simp [HostCall.asCall, Ledger.answer]
  | store key value =>
      rw [HostCall.asCall, Ledger.answer, Ledger.guarded]
      split <;> simp
  | append key value =>
      rw [HostCall.asCall, Ledger.answer, Ledger.guarded]
      split <;> simp
  | delete key =>
      rw [HostCall.asCall, Ledger.answer, Ledger.guarded]
      split
      · simp
      · cases l.current.contains key <;> simp [missing]

theorem Ledger.after_asCall (l : Ledger) (caller : Caller) (c : HostCall) :
    l.after caller c.asCall = { l with current := c.changed l.readOnly l.current } := by
  rw [l.after_of_touches c.touchesRecords_asCall]
  cases c <;> unfold HostCall.changed <;> split <;> rfl

/-- Within a transaction, and where nothing may be changed, a script is answered as the records
say. -/
theorem Follows.meets [Codec] [Codec.Lawful] (h : Follows place auto db d l)
    (hjoined : (l.readOnly || l.slot.isActive) = true) (c : HostCall) :
    ∃ reply db' d' m, c.run.exec db d = (.ok reply, db', d') ∧
      c.Meets place.Refuses l.readOnly l.current reply m ∧
      Follows place auto db' d' { l with current := m } := by
  have hserve := h.serve_record (.inr (.inr hjoined)) c.touchesRecords_asCall 0
  match hexec : (c.asCall.run 0).exec db d with
  | (r, db', d') =>
      rw [hexec] at hserve
      cases hserve with
      | answered hnext =>
          have hrun := HostCall.exec_run hexec (l.answer_ne_panicked 0 c)
          rw [l.heard_answer] at hrun
          rw [l.after_asCall] at hnext
          exact ⟨_, db', d', _, hrun, .served, hnext⟩
      | refused stores writable reason hleft =>
          have hstores := HostCall.storesRecord_asCall stores
          have hrun := HostCall.exec_run hexec fun heq =>
            place.refuses_ne_panicked reason (Except.error.inj heq)
          refine ⟨.failed _, db', d', l.current, ?_, .refused hstores writable reason, hleft⟩
          cases c with
          | store key value => exact hrun
          | append key value => exact hrun
          | _ => exact hstores.elim
      | stopped reason commits =>
          rcases commits with hcommit | hfree
          · cases c <;> cases hcommit
          · rw [hjoined] at hfree
            cases hfree

/-- **Held with a database, a conversation leads to where the records lead it.** -/
theorem Follows.perform [Codec] [Codec.Lawful] (h : Follows place auto db d l)
    (hjoined : (l.readOnly || l.slot.isActive) = true) (c : Conversation α) :
    ∃ x db' d' m, c.perform.exec db d = (.ok x, db', d') ∧
      c.Leads place.Refuses l.readOnly l.current x m ∧
      Follows place auto db' d' { l with current := m } := by
  -- By induction on the conversation: each answer decides how it goes on.
  induction c generalizing db d l with
  | done x => exact ⟨x, db, d, l.current, rfl, .done x _, h⟩
  | ask c answered ih =>
      obtain ⟨reply, db₁, d₁, next, hrun, hmeets, hnext⟩ := h.meets hjoined c
      obtain ⟨x, db', d', m, hrest, hleads, hfollows⟩ := ih reply hnext hjoined
      exact ⟨x, db', d', m, (exec_bind_ok hrun).trans hrest, .ask hmeets hleads, hfollows⟩

end

end Database

end PagedStore
