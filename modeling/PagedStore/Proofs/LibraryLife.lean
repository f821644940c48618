import Mathlib.Data.List.Nodup
import PagedStore.Database.Handle
import PagedStore.Proofs.DatabaseLife

/-!
# The life of the library

A process has one library and any number of handles. Which handles are open can be told from the
calls and their answers alone: those that an opening gave and that were neither closed nor dropped
since (`live`). After any calls the library counts exactly these, whatever became of the databases
in between; so it can neither be shut down nor be configured under an open handle, and the options
that it holds for others are always such as can be opened with.

The count is kept by openings on the one side and by closings on the other, and each handle
remembers for itself whether it has been counted out. The proof therefore keeps three things in
agreement (`Counted`): the count, the handles that are live by the calls, and those that are there
and not closed.
-/

set_option autoImplicit false

namespace PagedStore

open PagedStore.Action

/-! ## Options that can be opened with -/

theorem Options.validate_eq_ok_iff {o : Options} : o.validate = .ok () ↔
    o.pageSize ∈ pageSizes ∧ o.pageCacheSize ≠ 0 ∧ 2 ≤ o.maxPages ∧
      (o.readOnly && o.errorIfExists) = false := by
  unfold validate
  constructor
  · intro h
    split at h
    · cases h
    rename_i hsize
    split at h
    · cases h
    rename_i hcache
    split at h
    · cases h
    rename_i hpages
    split at h
    · cases h
    rename_i hboth
    exact ⟨not_not.1 hsize, hcache, UInt32.not_lt.1 hpages, Bool.not_eq_true _ ▸ hboth⟩
  · rintro ⟨hsize, hcache, hpages, hboth⟩
    rw [if_neg (not_not.2 hsize), if_neg hcache, if_neg (UInt32.not_lt.2 hpages), hboth,
      if_neg Bool.false_ne_true]

namespace Library

/-- **A setting is taken only while the library is down**, and changes nothing but the options; if
these could be opened with, they still can. -/
theorem configure_eq_ok {l l' : Library} {s : LibrarySetting} (h : l.configure s = .ok l') :
    l.initialized = false ∧ ∃ o, l' = { l with defaults := o } ∧
      (l.defaults.validate = .ok () → o.validate = .ok ()) := by
  unfold configure at h
  split at h
  · cases h
  rename_i hdown
  refine ⟨Bool.not_eq_true _ ▸ hdown, ?_⟩
  cases s with
  | pageSize size =>
      dsimp only at h
      split at h
      · rename_i hnew
        cases h
        refine ⟨_, rfl, fun hvalid => ?_⟩
        obtain ⟨-, hcache, hpages, hboth⟩ := Options.validate_eq_ok_iff.1 hvalid
        exact Options.validate_eq_ok_iff.2 ⟨hnew, hcache, hpages, hboth⟩
      · cases h
  | pageCacheSize pages =>
      dsimp only at h
      split at h
      · cases h
      · rename_i hnew
        cases h
        refine ⟨_, rfl, fun hvalid => ?_⟩
        obtain ⟨hsize, -, hpages, hboth⟩ := Options.validate_eq_ok_iff.1 hvalid
        exact Options.validate_eq_ok_iff.2 ⟨hsize, hnew, hpages, hboth⟩
  | sync on =>
      cases h
      refine ⟨_, rfl, fun hvalid => ?_⟩
      obtain ⟨hsize, hcache, hpages, hboth⟩ := Options.validate_eq_ok_iff.1 hvalid
      exact Options.validate_eq_ok_iff.2 ⟨hsize, hcache, hpages, hboth⟩

theorem shutdown_eq_ok {l l' : Library} (h : l.shutdown = .ok l') :
    l.openDatabases = 0 ∧ l' = { l with initialized := false } := by
  unfold shutdown at h
  split at h
  · cases h
  · rename_i hnone
    cases h
    exact ⟨Nat.eq_zero_of_not_pos hnone, rfl⟩

theorem shutdown_busy {l : Library} (h : 0 < l.openDatabases) :
    ∃ message, l.shutdown = .error (.busy message) := ⟨_, if_pos h⟩

theorem configure_locked {l : Library} (h : l.initialized = true) (s : LibrarySetting) :
    ∃ message, l.configure s = .error (.locked message) := ⟨_, if_pos h⟩

end Library

/-! ## Databases and handles -/

/-- **A database is counted when it was opened**, and nothing is when it was not. -/
theorem Database.exec_open_cases (path : String) (o : Options) (l : Library) (d : Disk) :
    (∃ db d', (Database.«open» path o).exec l d = (.ok db, l.register, d')) ∨
      ∃ e d', (Database.«open» path o).exec l d = (.error e, l, d') := by
  cases hvalid : o.validate with
  | error e =>
      refine .inr ⟨e, d, ?_⟩
      rw [«open», hvalid]
      rfl
  | ok done =>
      rcases hengine : (openEngine path o).exec () d with ⟨e | e, ⟨⟩, d'⟩
      · refine .inr ⟨e, d', ?_⟩
        rw [«open», hvalid, exec_bind, exec_ofResult]
        dsimp only
        rw [exec_bind, exec_alone, hengine]
        rfl
      · exact .inl ⟨_, d', exec_open hvalid hengine l⟩

namespace Handle

variable {h : Handle}

/-- **A handle is closed once**: then its database is counted out, whether or not the last commit
succeeds. -/
theorem exec_shutdown (hopen : h.closed = false) (l : Library) (d : Disk) :
    ∃ result d', h.database.close.exec l d = (result, l.deregister, d') ∧
      h.shutdown.exec l d = (.ok (result, { h with closed := true }), l.deregister, d') := by
  match hdown : Database.shutdown.exec h.database d with
  | (result, db', d') =>
      refine ⟨result, db'.engine.release d', Database.exec_close hdown l, ?_⟩
      rw [shutdown, hopen, if_neg Bool.false_ne_true, exec_bind, exec_attempt,
        Database.exec_close hdown]
      rfl

theorem exec_shutdown_closed (hclosed : h.closed = true) (l : Library) (d : Disk) :
    h.shutdown.exec l d = (.ok (.ok (), h), l, d) := by
  rw [shutdown, if_pos hclosed]
  rfl

theorem exec_drop {result : Except Error Unit} {h' : Handle} {l l' : Library} {d d' : Disk}
    (hdown : h.shutdown.exec l d = (.ok (result, h'), l', d')) :
    h.drop.exec l d = (.ok (), l', d') := by
  rw [drop, exec_bind_ok hdown]
  rfl

/-- To close an open handle is to close its database: that it is dropped then does nothing more. -/
theorem exec_close (hopen : h.closed = false) (l : Library) (d : Disk) :
    h.close.exec l d = h.database.close.exec l d := by
  obtain ⟨result, d', hclose, hdown⟩ := exec_shutdown hopen l d
  have hclosed : ({ h with closed := true } : Handle).closed = true := rfl
  have hdrop := exec_drop (exec_shutdown_closed hclosed l.deregister d')
  rw [close, exec_bind_ok hdown, exec_bind_ok hdrop, hclose]
  rfl

end Handle

/-! ## Processes -/

/-- The library and the handles of a process, by their numbers in the order in which they came into
being; one that was dropped has left its place empty. -/
structure Process where
  library : Library := {}
  handles : List (Option Handle) := []

/-- What can be done in a process. A handle that is closed is still to be dropped, and anything may
happen in between. -/
inductive ProcessCall where
  | start
  | shutdown
  | configure (s : LibrarySetting)
  | «open» (path : String) (o : Options)
  | openDefault (path : String)
  | openMemory
  /-- Anything that is done with the database of a handle. -/
  | use (n : Nat) (a : Action Database Unit)
  | close (n : Nat)
  | drop (n : Nat)

namespace Process

variable {α : Type}

/-- The handle with a number. -/
def handle? (p : Process) (n : Nat) : Option Handle := p.handles[n]?.join

/-- The process with something else in the place of a handle. -/
def put (p : Process) (n : Nat) (h? : Option Handle) : Process :=
  { p with handles := p.handles.set n h? }

/-- The process with one more handle. -/
def push (p : Process) (db : Database) : Process :=
  { p with handles := p.handles ++ [some { database := db }] }

/-- What is done with the library. -/
def onLibrary (a : Action Library α) : Action Process α :=
  zoom (·.library) (fun l p => { p with library := l }) a

/-- Opens a database, and gives the number of its handle. -/
def enter (a : Action Library Database) : Action Process (Option Nat) := do
  let n := (← self).handles.length
  let db ← onLibrary a
  update fun p => p.push db
  return some n

/-- What is done with a handle, if it is there. -/
def onHandle (n : Nat) (a : Handle → Action Process Unit) : Action Process (Option Nat) := do
  match (← self).handle? n with
  | some h => a h
  | none => pure ()
  return none

/-- Uses the database of a handle. -/
def useHandle (n : Nat) (a : Action Database Unit) (h : Handle) : Action Process Unit := do
  let (result, db) ← alone a h.database
  update fun p => p.put n (some { h with database := db })
  ofResult result

/-- Closes a handle, which stays there to be dropped. -/
def closeHandle (n : Nat) (h : Handle) : Action Process Unit := do
  let (result, h) ← onLibrary h.shutdown
  update fun p => p.put n (some h)
  ofResult result

/-- Drops a handle, which leaves its place. -/
def dropHandle (n : Nat) (h : Handle) : Action Process Unit := do
  onLibrary h.drop
  update fun p => p.put n none

end Process

namespace ProcessCall

open Process

/-- Carries out a call; an opening gives the number of the new handle. -/
def run : ProcessCall → Action Process (Option Nat)
  | start => do
      onLibrary (update Library.start)
      return none
  | shutdown => do
      let l ← ofResult (← self).library.shutdown
      onLibrary (update fun _ => l)
      return none
  | configure s => do
      let l ← ofResult ((← self).library.configure s)
      onLibrary (update fun _ => l)
      return none
  | «open» path o => enter (Database.«open» path o)
  | openDefault path => enter (Database.openDefault path)
  | openMemory => enter Database.memory
  | use n a => onHandle n (useHandle n a)
  | close n => onHandle n (closeHandle n)
  | drop n => onHandle n (dropHandle n)

/-- Whether a call opens a database. -/
def opens : ProcessCall → Bool
  | «open» .. | openDefault _ | openMemory => true
  | _ => false

/-- The handle that a call works on. -/
def handle? : ProcessCall → Option Nat
  | use n _ | close n | drop n => some n
  | _ => none

end ProcessCall

namespace Process

/-! ## What callers know -/

/-- A call that was made, and its answer. -/
structure Event where
  call : ProcessCall
  answer : Except Error (Option Nat)

/-- Calls made one after the other in a new process: the calls with their answers, and the process
and the disk after them. -/
def play (d : Disk) (calls : List ProcessCall) : List Event × Process × Disk :=
  calls.foldl (fun (es, p, d) call =>
    (es ++ [⟨call, (call.run.exec p d).1⟩], (call.run.exec p d).2)) ([], {}, d)

/-- What becomes of the open handles by one more event. -/
def outlive (ns : List Nat) : Event → List Nat
  | ⟨.close n, _⟩ => ns.erase n
  | ⟨.drop n, _⟩ => ns.erase n
  | ⟨_, .ok (some n)⟩ => ns ++ [n]
  | _ => ns

/-- The handles that were opened and neither closed nor dropped since. -/
def live (es : List Event) : List Nat := es.foldl outlive []

theorem play_concat (d : Disk) (calls : List ProcessCall) (call : ProcessCall) :
    play d (calls ++ [call]) =
      ((play d calls).1 ++ [⟨call, (call.run.exec (play d calls).2.1 (play d calls).2.2).1⟩],
        (call.run.exec (play d calls).2.1 (play d calls).2.2).2) := by
  rw [play, List.foldl_concat]
  rfl

theorem outlive_opens {call : ProcessCall} (hcall : call.opens = true) (ns : List Nat) (n : Nat) :
    outlive ns ⟨call, .ok (some n)⟩ = ns ++ [n] := by
  cases call with
  | «open» | openDefault | openMemory => rfl
  | _ => cases hcall

theorem outlive_cannotOpen {call : ProcessCall} (hcall : call.opens = true) (ns : List Nat)
    (error : Error) : outlive ns ⟨call, .error error⟩ = ns := by
  cases call with
  | «open» | openDefault | openMemory => rfl
  | _ => cases hcall

theorem live_concat (es : List Event) (e : Event) : live (es ++ [e]) = outlive (live es) e :=
  List.foldl_concat ..

/-! ## Single calls -/

/-- What a call can be answered, and what then becomes of the process. -/
inductive Step (p : Process) : Event → Process → Prop where
  | starts : Step p ⟨.start, .ok none⟩ { p with library := p.library.start }
  | shutsDown {l : Library} (h : p.library.shutdown = .ok l) :
      Step p ⟨.shutdown, .ok none⟩ { p with library := l }
  | staysUp {error : Error} (h : p.library.shutdown = .error error) :
      Step p ⟨.shutdown, .error error⟩ p
  | configures {s : LibrarySetting} {l : Library} (h : p.library.configure s = .ok l) :
      Step p ⟨.configure s, .ok none⟩ { p with library := l }
  | refuses {s : LibrarySetting} {error : Error} (h : p.library.configure s = .error error) :
      Step p ⟨.configure s, .error error⟩ p
  | opens {call : ProcessCall} (hcall : call.opens = true) (db : Database) :
      Step p ⟨call, .ok (some p.handles.length)⟩
        ({ p with library := p.library.register }.push db)
  | cannotOpen {call : ProcessCall} (hcall : call.opens = true) (error : Error) :
      Step p ⟨call, .error error⟩ p
  /-- There is no such handle. -/
  | misses {call : ProcessCall} {n : Nat} (hcall : call.handle? = some n)
      (absent : p.handle? n = none) : Step p ⟨call, .ok none⟩ p
  | uses {n : Nat} {a : Action Database Unit} {h : Handle} (there : p.handle? n = some h)
      (result : Except Error Unit) (db : Database) :
      Step p ⟨.use n a, result.map fun _ => none⟩ (p.put n (some { h with database := db }))
  | closes {n : Nat} {h : Handle} (there : p.handle? n = some h) (hopen : h.closed = false)
      (result : Except Error Unit) : Step p ⟨.close n, result.map fun _ => none⟩
        ({ p with library := p.library.deregister }.put n (some { h with closed := true }))
  | closesAgain {n : Nat} {h : Handle} (there : p.handle? n = some h) (closed : h.closed = true) :
      Step p ⟨.close n, .ok none⟩ (p.put n (some h))
  | drops {n : Nat} {h : Handle} (there : p.handle? n = some h) (hopen : h.closed = false) :
      Step p ⟨.drop n, .ok none⟩ ({ p with library := p.library.deregister }.put n none)
  | dropsClosed {n : Nat} {h : Handle} (there : p.handle? n = some h) (closed : h.closed = true) :
      Step p ⟨.drop n, .ok none⟩ (p.put n none)

section

variable {p : Process} {n : Nat} {h : Handle} {d : Disk}

theorem exec_onHandle_none (absent : p.handle? n = none) (a : Handle → Action Process Unit)
    (d : Disk) : (onHandle n a).exec p d = (.ok none, p, d) := by
  rw [onHandle, exec_bind, exec_self]
  dsimp only
  rw [absent]
  rfl

theorem exec_onHandle (there : p.handle? n = some h) {a : Handle → Action Process Unit}
    {result : Except Error Unit} {p' : Process} {d' : Disk}
    (ha : (a h).exec p d = (result, p', d')) :
    (onHandle n a).exec p d = (result.map fun _ => none, p', d') := by
  rw [onHandle, exec_bind, exec_self]
  dsimp only
  rw [there]
  exact exec_bind_pure ha _

/-- An opening is counted when it succeeds. -/
theorem step_enter {call : ProcessCall} (hcall : call.opens = true) {a : Action Library Database}
    (hcases : (∃ db d', a.exec p.library d = (.ok db, p.library.register, d')) ∨
      ∃ e d', a.exec p.library d = (.error e, p.library, d')) :
    Step p ⟨call, ((enter a).exec p d).1⟩ ((enter a).exec p d).2.1 := by
  rcases hcases with ⟨db, d', hopen⟩ | ⟨e, d', hopen⟩
  · have hlibrary : (onLibrary a).exec p d =
        (.ok db, { p with library := p.library.register }, d') := by
      rw [onLibrary, exec_zoom, hopen]
    rw [enter, exec_bind, exec_self]
    dsimp only
    rw [exec_bind_ok hlibrary]
    exact .opens hcall db
  · have hlibrary : (onLibrary a).exec p d = (.error e, p, d') := by
      rw [onLibrary, exec_zoom, hopen]
    rw [enter, exec_bind, exec_self]
    dsimp only
    rw [exec_bind_error hlibrary]
    exact .cannotOpen hcall e

theorem step_use (n : Nat) (a : Action Database Unit) (d : Disk) :
    Step p ⟨.use n a, ((ProcessCall.use n a).run.exec p d).1⟩
      ((ProcessCall.use n a).run.exec p d).2.1 := by
  rw [ProcessCall.run]
  match there : p.handle? n with
  | none =>
      rw [exec_onHandle_none there]
      exact .misses rfl there
  | some h =>
      match ha : a.exec h.database d with
      | (result, db, d') =>
          have huse : (useHandle n a h).exec p d =
              (result, p.put n (some { h with database := db }), d') := by
            rw [useHandle, exec_bind, exec_alone, ha]
            rfl
          rw [exec_onHandle there huse]
          exact .uses there result db

theorem step_close (n : Nat) (d : Disk) : Step p ⟨.close n, ((ProcessCall.close n).run.exec p d).1⟩
    ((ProcessCall.close n).run.exec p d).2.1 := by
  rw [ProcessCall.run]
  match there : p.handle? n with
  | none =>
      rw [exec_onHandle_none there]
      exact .misses rfl there
  | some h =>
      cases hclosed : h.closed with
      | true =>
          have hclose : (closeHandle n h).exec p d = (.ok (), p.put n (some h), d) := by
            rw [closeHandle, exec_bind, onLibrary, exec_zoom, Handle.exec_shutdown_closed hclosed]
            rfl
          rw [exec_onHandle there hclose]
          exact .closesAgain there hclosed
      | false =>
          obtain ⟨result, d', -, hdown⟩ := Handle.exec_shutdown hclosed p.library d
          have hclose : (closeHandle n h).exec p d = (result, { p with
              library := p.library.deregister }.put n (some { h with closed := true }), d') := by
            rw [closeHandle, exec_bind, onLibrary, exec_zoom, hdown]
            rfl
          rw [exec_onHandle there hclose]
          exact .closes there hclosed result

theorem step_drop (n : Nat) (d : Disk) : Step p ⟨.drop n, ((ProcessCall.drop n).run.exec p d).1⟩
    ((ProcessCall.drop n).run.exec p d).2.1 := by
  rw [ProcessCall.run]
  match there : p.handle? n with
  | none =>
      rw [exec_onHandle_none there]
      exact .misses rfl there
  | some h =>
      cases hclosed : h.closed with
      | true =>
          have hdrop : (dropHandle n h).exec p d = (.ok (), p.put n none, d) := by
            rw [dropHandle, exec_bind, onLibrary, exec_zoom,
              Handle.exec_drop (Handle.exec_shutdown_closed hclosed p.library d)]
            rfl
          rw [exec_onHandle there hdrop]
          exact .dropsClosed there hclosed
      | false =>
          obtain ⟨result, d', -, hdown⟩ := Handle.exec_shutdown hclosed p.library d
          have hdrop : (dropHandle n h).exec p d =
              (.ok (), { p with library := p.library.deregister }.put n none, d') := by
            rw [dropHandle, exec_bind, onLibrary, exec_zoom, Handle.exec_drop hdown]
            rfl
          rw [exec_onHandle there hdrop]
          exact .drops there hclosed

/-- **What a call does is one of the steps.** -/
theorem step_run (p : Process) (call : ProcessCall) (d : Disk) :
    Step p ⟨call, (call.run.exec p d).1⟩ (call.run.exec p d).2.1 := by
  cases call with
  | start => exact .starts
  | shutdown =>
      rw [ProcessCall.run, exec_bind, exec_self]
      dsimp only
      cases hdown : p.library.shutdown with
      | ok l => exact .shutsDown hdown
      | error e => exact .staysUp hdown
  | configure s =>
      rw [ProcessCall.run, exec_bind, exec_self]
      dsimp only
      cases hset : p.library.configure s with
      | ok l => exact .configures hset
      | error e => exact .refuses hset
  | «open» path o =>
      rw [ProcessCall.run]
      exact step_enter rfl (Database.exec_open_cases path o p.library d)
  | openDefault path =>
      have hopen : (Database.openDefault path).exec p.library d =
          (Database.«open» path p.library.defaults).exec p.library d := by
        rw [Database.openDefault, exec_bind, exec_self]
      rw [ProcessCall.run]
      refine step_enter rfl ?_
      rw [hopen]
      exact Database.exec_open_cases path p.library.defaults p.library d
  | openMemory =>
      rw [ProcessCall.run, Database.memory]
      exact step_enter rfl (Database.exec_open_cases Database.memoryPath {} p.library d)
  | use n a => exact step_use n a d
  | close n => exact step_close n d
  | drop n => exact step_drop n d

end

/-! ## The handles that are open -/

/-- Whether the handle with a number is there and not closed. -/
def IsOpen (p : Process) (n : Nat) : Prop := ∃ h, p.handle? n = some h ∧ h.closed = false

section

variable {p : Process} {m n : Nat} {h g : Handle} {h? : Option Handle}

theorem handle?_put_self (there : p.handle? n = some h) : (p.put n h?).handle? n = h? := by
  have hn : n < p.handles.length := by
    by_contra hout
    rw [handle?, List.getElem?_eq_none (Nat.le_of_not_lt hout)] at there
    cases there
  rw [handle?, put, List.getElem?_set_self hn]
  rfl

theorem handle?_put_of_ne (hne : n ≠ m) (p : Process) (h? : Option Handle) :
    (p.put n h?).handle? m = p.handle? m := by
  rw [handle?, put, List.getElem?_set_ne hne, handle?]

theorem isOpen_put (there : p.handle? n = some h) :
    (p.put n h?).IsOpen m ↔ if n = m then ∃ g, h? = some g ∧ g.closed = false else p.IsOpen m := by
  split
  · rename_i heq
    rw [← heq, IsOpen, handle?_put_self there]
  · rename_i hne
    rw [IsOpen, handle?_put_of_ne hne, IsOpen]

/-- What stays as open as it was changes nothing. -/
theorem isOpen_put_of_eq (there : p.handle? n = some h) (hg : g.closed = h.closed) :
    (p.put n (some g)).IsOpen m ↔ p.IsOpen m := by
  rw [isOpen_put there]
  split
  · rename_i heq
    rw [← heq, IsOpen, there]
    simp [hg]
  · rfl

theorem isOpen_put_of_closed (there : p.handle? n = some h)
    (hgone : ∀ g, h? = some g → g.closed = true) :
    (p.put n h?).IsOpen m ↔ m ≠ n ∧ p.IsOpen m := by
  rw [isOpen_put there]
  split
  · rename_i heq
    subst heq
    refine iff_of_false ?_ fun hm => hm.1 rfl
    rintro ⟨g, hg, hopen⟩
    rw [hgone g hg] at hopen
    cases hopen
  · rename_i hne
    exact (and_iff_right (Ne.symm hne)).symm

theorem not_isOpen (there : p.handle? n = some h) (closed : h.closed = true) : ¬p.IsOpen n := by
  rintro ⟨g, hg, hopen⟩
  rw [there, Option.some.injEq] at hg
  rw [← hg, closed] at hopen
  cases hopen

theorem not_isOpen_length (p : Process) : ¬p.IsOpen p.handles.length := by
  rintro ⟨h, there, -⟩
  rw [handle?, List.getElem?_eq_none (Nat.le_refl _)] at there
  cases there

theorem isOpen_push (p : Process) (db : Database) :
    (p.push db).IsOpen m ↔ p.IsOpen m ∨ m = p.handles.length := by
  rcases Nat.lt_trichotomy m p.handles.length with hlt | rfl | hgt
  · rw [or_iff_left (Nat.ne_of_lt hlt), IsOpen, handle?, push, List.getElem?_append_left hlt]
    rfl
  · refine iff_of_true ⟨{ database := db }, ?_, rfl⟩ (.inr rfl)
    rw [handle?, push, List.getElem?_concat_length]
    rfl
  · refine iff_of_false ?_ ?_
    · rintro ⟨h, there, -⟩
      have hout : (p.push db).handles.length ≤ m := by
        rw [push, List.length_append]
        exact hgt
      rw [handle?, List.getElem?_eq_none hout] at there
      cases there
    · rintro (⟨h, there, -⟩ | rfl)
      · rw [handle?, List.getElem?_eq_none (Nat.le_of_lt hgt)] at there
        cases there
      · exact Nat.lt_irrefl _ hgt

end

/-! ## The count -/

/-- What the library counts, told by the events before. -/
structure Counted (es : List Event) (p : Process) : Prop where
  distinct : (live es).Nodup
  isOpen : ∀ n, p.IsOpen n ↔ n ∈ live es
  count : p.library.openDatabases = (live es).length
  started : 0 < p.library.openDatabases → p.library.initialized = true
  valid : p.library.defaults.validate = .ok ()

namespace Counted

variable {es : List Event} {e : Event} {p p' : Process}

theorem start : Counted [] {} := by
  refine ⟨List.nodup_nil, fun n => iff_of_false ?_ List.not_mem_nil, rfl, nofun, rfl⟩
  rintro ⟨h, there, -⟩
  cases there

/-- Nothing is opened, closed or dropped. -/
theorem rests (h : Counted es p) (hlive : outlive (live es) e = live es)
    (hopen : ∀ n, p'.IsOpen n ↔ p.IsOpen n)
    (hcount : p'.library.openDatabases = p.library.openDatabases)
    (hstarted : 0 < p.library.openDatabases → p'.library.initialized = true)
    (hvalid : p'.library.defaults.validate = .ok ()) : Counted (es ++ [e]) p' := by
  refine ⟨?_, fun n => ?_, ?_, fun hpos => hstarted (hcount ▸ hpos), hvalid⟩
  · rw [live_concat, hlive]
    exact h.distinct
  · rw [live_concat, hlive, hopen, h.isOpen]
  · rw [live_concat, hlive, hcount, h.count]

/-- A database is opened. -/
theorem opens (h : Counted es p) (db : Database)
    (hlive : outlive (live es) e = live es ++ [p.handles.length]) :
    Counted (es ++ [e]) ({ p with library := p.library.register }.push db) := by
  have hnew : p.handles.length ∉ live es := fun hin => not_isOpen_length p ((h.isOpen _).2 hin)
  refine ⟨?_, fun n => ?_, ?_, fun _ => rfl, h.valid⟩
  · rw [live_concat, hlive, List.nodup_append_comm]
    exact List.nodup_cons.2 ⟨hnew, h.distinct⟩
  · rw [live_concat, hlive, List.mem_append, List.mem_singleton, ← h.isOpen, isOpen_push]
    rfl
  · rw [live_concat, hlive, List.length_append, ← h.count]
    rfl

/-- A handle that was open is closed or dropped. -/
theorem leaves (h : Counted es p) {n : Nat} {g : Handle} {h? : Option Handle}
    (there : p.handle? n = some g) (hopen : g.closed = false)
    (hgone : ∀ g, h? = some g → g.closed = true) (hlive : outlive (live es) e = (live es).erase n) :
    Counted (es ++ [e]) ({ p with library := p.library.deregister }.put n h?) := by
  have hn : n ∈ live es := (h.isOpen n).1 ⟨g, there, hopen⟩
  refine ⟨?_, fun m => ?_, ?_, fun hpos => h.started (Nat.lt_of_lt_of_le hpos (Nat.sub_le _ _)),
    h.valid⟩
  · rw [live_concat, hlive]
    exact h.distinct.erase n
  · rw [live_concat, hlive, h.distinct.mem_erase_iff, ← h.isOpen]
    exact isOpen_put_of_closed (p := { p with library := p.library.deregister }) there hgone
  · rw [live_concat, hlive, List.length_erase_of_mem hn, ← h.count]
    rfl

/-- What is not open can be closed or dropped without any effect. -/
theorem erase_eq (h : Counted es p) {n : Nat} (hn : ¬p.IsOpen n) : (live es).erase n = live es :=
  List.erase_of_not_mem fun hin => hn ((h.isOpen n).2 hin)

/-- **Every step keeps the count.** -/
theorem step (h : Counted es p) (hstep : Step p e p') : Counted (es ++ [e]) p' := by
  have hsame : ∀ n, p.IsOpen n ↔ p.IsOpen n := fun _ => .rfl
  cases hstep with
  | starts => exact h.rests rfl hsame rfl (fun _ => rfl) h.valid
  | shutsDown hdown =>
      obtain ⟨hnone, rfl⟩ := Library.shutdown_eq_ok hdown
      exact h.rests rfl hsame rfl (fun hpos => absurd hnone (Nat.ne_of_gt hpos)) h.valid
  | staysUp => exact h.rests rfl hsame rfl h.started h.valid
  | configures hset =>
      obtain ⟨hdown, o, rfl, hvalid⟩ := Library.configure_eq_ok hset
      refine h.rests rfl hsame rfl (fun hpos => ?_) (hvalid h.valid)
      rw [h.started hpos] at hdown
      cases hdown
  | refuses => exact h.rests rfl hsame rfl h.started h.valid
  | opens hcall db => exact h.opens db (outlive_opens hcall _ _)
  | cannotOpen hcall => exact h.rests (outlive_cannotOpen hcall _ _) hsame rfl h.started h.valid
  | @misses call n hcall absent =>
      have hn : ¬p.IsOpen n := by
        rintro ⟨g, there, -⟩
        rw [absent] at there
        cases there
      have herase := h.erase_eq hn
      refine h.rests ?_ hsame rfl h.started h.valid
      cases call with
      | use n => rfl
      | close n =>
          cases hcall
          exact herase
      | drop n =>
          cases hcall
          exact herase
      | _ => cases hcall
  | uses there result db =>
      refine h.rests ?_ (fun n => isOpen_put_of_eq there rfl) rfl h.started h.valid
      cases result <;> rfl
  | closes there hopen =>
      refine h.leaves there hopen (fun g hg => ?_) rfl
      cases hg
      rfl
  | closesAgain there closed =>
      refine h.rests (h.erase_eq ?_) (fun n => isOpen_put_of_eq there rfl) rfl h.started h.valid
      exact not_isOpen there closed
  | drops there hopen => exact h.leaves there hopen (fun _ hg => nomatch hg) rfl
  | dropsClosed there closed =>
      have hn := not_isOpen there closed
      refine h.rests (h.erase_eq hn) (fun m => (isOpen_put_of_closed there ?_).trans ?_) rfl
        h.started h.valid
      · exact fun _ hg => nomatch hg
      · rw [and_iff_right_iff_imp]
        rintro hm rfl
        exact hn hm

end Counted

/-- **After any calls the count is kept.** -/
theorem counted (d : Disk) (calls : List ProcessCall) :
    Counted (play d calls).1 (play d calls).2.1 := by
  induction calls using List.reverseRecOn with
  | nil => exact .start
  | append_singleton calls call ih =>
      rw [play_concat]
      exact ih.step (step_run _ call _)

/-! ## The options of the library -/

/-- **The library holds other options only when a setting of them was taken.** -/
theorem Step.defaults {p p' : Process} {e : Event} (hstep : Step p e p')
    (hne : p'.library.defaults ≠ p.library.defaults) :
    ∃ s, e = ⟨.configure s, .ok none⟩ ∧ p.library.configure s = .ok p'.library := by
  cases hstep with
  | configures hset => exact ⟨_, rfl, hset⟩
  | shutsDown hdown =>
      obtain ⟨-, rfl⟩ := Library.shutdown_eq_ok hdown
      exact absurd rfl hne
  | _ => exact absurd rfl hne

/-! ## The whole -/

/-- What holds of a process and the calls that were made in it. -/
structure WellCounted (es : List Event) (p : Process) (d : Disk) : Prop where
  /-- No handle is counted twice. -/
  distinct : (live es).Nodup
  count : p.library.openDatabases = (live es).length
  started : 0 < p.library.openDatabases → p.library.initialized = true
  busy : 0 < p.library.openDatabases →
    ∃ message, ProcessCall.shutdown.run.exec p d = (.error (.busy message), p, d)
  locked : 0 < p.library.openDatabases → ∀ s,
    ∃ message, (ProcessCall.configure s).run.exec p d = (.error (.locked message), p, d)
  valid : p.library.defaults.validate = .ok ()
  /-- The next call leaves the options as they are, unless it is a setting and is taken. -/
  steady : ∀ call : ProcessCall, (call.run.exec p d).2.1.library.defaults ≠ p.library.defaults →
    ∃ s, call = .configure s ∧ (call.run.exec p d).1 = .ok none ∧
      p.library.configure s = .ok (call.run.exec p d).2.1.library

/-- **The library counts the handles that are open**, and holds while there are any. -/
theorem library_counts_handles (d : Disk) (calls : List ProcessCall) :
    WellCounted (play d calls).1 (play d calls).2.1 (play d calls).2.2 := by
  have hcounted := counted d calls
  generalize (play d calls).1 = es at *
  generalize (play d calls).2.1 = p at *
  generalize (play d calls).2.2 = d' at *
  refine ⟨hcounted.distinct, hcounted.count, hcounted.started, fun hpos => ?_, fun hpos s => ?_,
    hcounted.valid, fun call hne => ?_⟩
  · obtain ⟨message, hbusy⟩ := Library.shutdown_busy hpos
    refine ⟨message, ?_⟩
    rw [ProcessCall.run, exec_bind, exec_self]
    dsimp only
    rw [hbusy]
    rfl
  · obtain ⟨message, hlocked⟩ := Library.configure_locked (hcounted.started hpos) s
    refine ⟨message, ?_⟩
    rw [ProcessCall.run, exec_bind, exec_self]
    dsimp only
    rw [hlocked]
    rfl
  · obtain ⟨s, hevent, hset⟩ := (step_run p call d').defaults hne
    obtain ⟨hcall, hanswer⟩ := Event.mk.inj hevent
    exact ⟨s, hcall, hanswer, hset⟩

/-- Two databases are opened; the first is closed, and its handle dropped after that. -/
def firstClosed : List ProcessCall := [.openMemory, .openMemory, .close 0, .drop 0]

/-- One database is left, and the library cannot be shut down under it. -/
theorem library_counts_handles_one_left :
    live (play .empty firstClosed).1 = [1] ∧
      (play .empty firstClosed).2.1.library.openDatabases = 1 ∧
      ∃ message, ProcessCall.shutdown.run.exec (play .empty firstClosed).2.1
        (play .empty firstClosed).2.2 = (.error (.busy message),
          (play .empty firstClosed).2.1, (play .empty firstClosed).2.2) := by
  obtain ⟨-, hcount, -, hbusy, -, -, -⟩ := library_counts_handles .empty firstClosed
  have hlive : live (play .empty firstClosed).1 = [1] := rfl
  have hone : (play .empty firstClosed).2.1.library.openDatabases = 1 := by
    rw [hcount, hlive]
    rfl
  exact ⟨hlive, hone, hbusy (by rw [hone]; exact Nat.one_pos)⟩

end Process

end PagedStore
