import PagedStore.Proofs.FailedChanges
import PagedStore.Proofs.Operations

/-!
# Transactions that are rolled back

A rollback brings back what was there when the transaction began: not only the records, but all
that could ever be noticed of them. Whatever was stored, appended or deleted in between, by calls,
cursors or scripts, with or without success, the database answers from then on as it would have
answered had the transaction never been opened, and does the same to the disk.

This holds over any engine, and whatever the file of the database holds, be it damaged or not.
-/

set_option autoImplicit false

namespace PagedStore.Database

open PagedStore.Action Engine

/-! ## The life of a database over any engine -/

/-- The states of databases that were opened, in memory or on a file, to read or to write, and have
been used. -/
inductive Used [Codec] : Database → Disk → Prop where
  | opened {path : String} {o : Options} {d d' : Disk} {l l' : Library} {db : Database}
      (hlive : d.NamesLive) (hapart : d.NamesApart)
      (hopen : («open» path o).exec l d = (.ok db, l', d')) : Used db d'
  | used {db : Database} {d : Disk} (h : Used db d) (u : Use) :
      Used (u.run db d).1 (u.run db d).2

/-- What holds between two uses: the cache is of no consequence, no operation is under way, and a
copy of the records is kept during a transaction only. -/
structure Sound (db : Database) (d : Disk) : Prop where
  akin : Akin d db.engine db.engine
  idle : Idle db.engine
  noCopy : db.transaction.isActive = false → NoCopy db.engine

section

variable {db db' : Database} {d d' : Disk} {caller : Caller}

theorem Sound.like (h : Sound db d) : Like d db db := ⟨rfl, rfl, rfl, h.akin⟩

theorem Sound.matching (h : Sound db d) : Matching d db db := ⟨h.like, rfl⟩

theorem Sound.stays (h : Sound db d) (hstays : Stays db d db' d')
    (hakin : Akin d' db'.engine db'.engine) : Sound db' d' where
  akin := hakin
  idle := hstays.left.idle h.idle
  noCopy hfree := by
    have hfree' : db.transaction.isActive = false := by
      rw [isActive_eq_owner, ← hstays.owner, ← isActive_eq_owner, hfree]
    exact hstays.left.noCopy hfree' h.idle (h.noCopy hfree')

/-- What a program on records leaves is sound. -/
theorem Sound.records {α : Type} {a : Action Database α} (ha : Records a) (h : Sound db d) :
    Sound (a.exec db d).2.1 (a.exec db d).2.2 := by
  obtain ⟨r, t, t', d', hexec, hexec', hlike⟩ := ha.respects d db db h.like
  obtain ⟨r', e, d₁, hleaves, hleft⟩ := ha.leaves db d
  rw [hexec] at hexec' hleaves ⊢
  cases hexec'
  cases hleaves
  exact h.stays (stays_of_left hleft) hlike.akin

theorem Sound.refused {α : Type} {a : Action Database α} (ha : Refused a db) (h : Sound db d) :
    Sound (a.exec db d).2.1 (a.exec db d).2.2 := by
  obtain ⟨message, hexec⟩ := ha
  have hsame : a.exec db d = (.error (.lockError message), db, d) := hexec db.engine d
  rw [hsame]
  exact h

theorem Sound.begin (h : Sound db d) (caller : Caller) :
    Sound ((begin caller).exec db d).2.1 ((begin caller).exec db d).2.2 := by
  cases hro : db.readOnly with
  | true =>
      rw [Database.begin, exec_bind_error (exec_ensureWritable_refused hro d)]
      exact h
  | false =>
      cases howner : db.transaction.owner? with
      | some owner => exact h.refused (refused_begin hro howner caller)
      | none =>
          obtain ⟨r, e, e', d₁, hbegin, hbegin', hakin⟩ := respects_begin d _ _ h.akin
          rw [hbegin] at hbegin'
          cases hbegin'
          obtain ⟨rfl, -, hfailed, hidle⟩ := of_exec_begin hbegin
          obtain ⟨slot, hexec, hslot⟩ := exec_begin hro howner caller hbegin
          rw [hexec]
          refine ⟨hakin, hidle h.idle, fun hfree => ?_⟩
          cases r with
          | error error =>
              obtain rfl := hfailed (by simp)
              exact h.noCopy (isActive_of_free howner)
          | ok _ =>
              rw [isActive_eq_owner, hslot] at hfree
              cases hfree

theorem Sound.commit (h : Sound db d) (caller : Caller) :
    Sound ((commit caller).exec db d).2.1 ((commit caller).exec db d).2.2 := by
  by_cases howner : db.transaction.owner? = some caller
  · let t : Database := { db with transaction := db.transaction.abandon }
    have hlike : Like d t t := ⟨rfl, rfl, rfl, h.akin⟩
    obtain ⟨r, u, u', d', hexec, hexec', hlike'⟩ := respects_settle d t t hlike
    obtain ⟨_, _, _, hsettle, hclean⟩ := exec_settle t d
    rw [exec_commit howner, hexec]
    rw [hexec] at hexec' hsettle
    cases hexec'
    cases hsettle
    exact ⟨hlike'.akin, (hclean h.idle).idle, fun _ => noCopy_of_clean (hclean h.idle)⟩
  · exact h.refused ((refused_finish howner).bind fun _ => settle)

theorem Sound.rollback (h : Sound db d) (caller : Caller) :
    Sound ((rollback caller).exec db d).2.1 ((rollback caller).exec db d).2.2 := by
  by_cases howner : db.transaction.owner? = some caller
  · obtain ⟨_, _, _, _, hback, hback', hakin⟩ := respects_rollback d _ _ h.akin
    rw [Engine.exec_rollback] at hback hback'
    cases hback
    cases hback'
    rw [exec_rollback howner]
    exact ⟨hakin, (clean_rolledBack _).idle, fun _ => noCopy_of_clean (clean_rolledBack _)⟩
  · exact h.refused ((refused_finish howner).bind fun _ => onEngine Engine.rollback)

theorem Sound.configure (h : Sound db d) (s : DatabaseSetting) :
    Sound ((configure s).exec db d).2.1 ((configure s).exec db d).2.2 := by
  cases s with
  | autoCommit on => exact ⟨h.akin, h.idle, h.noCopy⟩
  | scriptTimeout timeout => exact ⟨h.akin, h.idle, h.noCopy⟩
  | pageCacheSize pages =>
      rw [Database.configure]
      dsimp only
      split
      · exact h
      · obtain ⟨_, e, e', d₁, hset, hset', hakin⟩ :=
          respects_setCacheCapacity pages d _ _ h.akin
        rw [hset] at hset'
        cases hset'
        have hidle : Keeps (fun e _ => Idle e) (Engine.setCacheCapacity pages) :=
          keeps_either fun _ _ _ hp => hp
        have hcopy : Leaves Reworked (Engine.setCacheCapacity pages) :=
          leaves_either (fun _ _ _ => ⟨⟨rfl, rfl, rfl, rfl, rfl, rfl, rfl, rfl⟩, rfl⟩) fun _ => rfl
        have hi := hidle db.engine d h.idle
        obtain ⟨hr, -⟩ := hcopy.of_exec hset
        rw [hset] at hi
        show Sound ((onEngine (Engine.setCacheCapacity pages)).exec db d).2.1 _
        rw [exec_onEngine, hset]
        exact ⟨hakin, hi, fun hfree => (h.noCopy hfree).reworked hr⟩

section

variable [Codec]

/-- The run of a script leaves a database sound, be it a transaction of its own or not, and even if
the program stops in it. -/
theorem Sound.script (h : Sound db d) (caller : Caller) (s : Script)
    (talk : Script.Conversation Script.Ending) :
    Sound ((Script.run caller talk).exec (s, db) d).2.1.2
      ((Script.run caller talk).exec (s, db) d).2.2 := by
  obtain ⟨r, s', t, t', d', hexec, hexec', hm⟩ := h.matching.script caller s talk
  rw [hexec] at hexec'
  cases hexec'
  by_cases hjoined : (db.readOnly || db.transaction.isActive) = true
  · obtain ⟨_, _, _, _, hruns, hleft⟩ := (handles_attendOnly caller talk).leaves s db d
    rw [← exec_run_joined hjoined, hexec] at hruns
    rw [hexec]
    cases hruns
    exact h.stays (stays_of_left hleft) hm.akin
  rw [Bool.not_eq_true, Bool.or_eq_false_iff] at hjoined
  obtain ⟨hro, hfree⟩ := hjoined
  have hrun := ownRun caller talk s hro hfree d
  rw [hexec] at hrun ⊢
  cases hrun with
  | refused => exact h
  | stuck => exact ⟨hm.akin, h.idle, fun _ => h.noCopy hfree⟩
  | @stopped e f slot _ hbegin howner hreworked hidle =>
      refine ⟨hm.akin, hidle h.idle, fun hended => ?_⟩
      rw [isActive_eq_owner, howner] at hended
      cases hended
  | @held e f slot outcome s₁ _ hbegin howner hreworked hidle hattend hend =>
      have howner' : ({ db with engine := f, transaction := slot } :
          Database).transaction.owner? = some caller := howner
      obtain ⟨_, _, _, hconclude, hclean⟩ := exec_conclude howner' outcome s₁ d
      rw [hconclude] at hend
      cases hend
      exact ⟨hm.akin, (hclean (hidle h.idle)).idle,
        fun _ => noCopy_of_clean (hclean (hidle h.idle))⟩

/-- **Every use leaves a database sound.** -/
theorem Sound.run (h : Sound db d) (u : Use) : Sound (u.run db d).1 (u.run db d).2 := by
  cases u with
  | configure s => exact h.configure s
  | move c m => exact h.records (handles_move m c)
  | script caller s talk => exact h.script caller s talk
  | call caller c =>
      -- The answer of a call does not change what it leaves.
      have hstate : ∀ a : Action Database Unit,
          ((a >>= fun _ => pure Reply.done).exec db d).2 = (a.exec db d).2 := fun a =>
        congrArg Prod.snd (exec_bind_pure (Prod.ext rfl rfl : a.exec db d = (_, _, _)) _)
      rw [Use.run]
      cases c with
      | begin =>
          rw [Call.run, hstate]
          exact h.begin caller
      | commit =>
          rw [Call.run, hstate]
          exact h.commit caller
      | rollback =>
          rw [Call.run, hstate]
          exact h.rollback caller
      | inTransaction => exact h
      | _ => exact h.records (records_run rfl caller)

omit [Codec] in
theorem sound_of_open {path : String} {o : Options} {l l' : Library} (hlive : d.NamesLive)
    (hapart : d.NamesApart) (h : («open» path o).exec l d = (.ok db, l', d')) : Sound db d' := by
  obtain ⟨hvalid, e, hengine, rfl⟩ := open_eq_ok h
  rw [openEngine] at hengine
  split at hengine
  · cases hengine
    refine ⟨.memory _, trivial, fun _ m hm => ?_⟩
    cases hm
    rfl
  · obtain ⟨p, ⟨⟩, d₁, hopen, hend⟩ := of_exec_bind_ok hengine
    obtain ⟨rfl, -, rfl⟩ := exec_ok_inj hend
    obtain ⟨hc, hidle, -⟩ :=
      Pager.coherent_of_open hlive hapart (Pager.pageSize_of_validate hvalid) hopen
    refine ⟨.tree _ hc.twins, hidle, fun _ m hm => ?_⟩
    cases hm

/-- **Every database is sound, whatever its engine and whatever its file holds.** -/
theorem Used.sound (h : Used db d) : Sound db d := by
  induction h with
  | opened hlive hapart hopen => exact sound_of_open hlive hapart hopen
  | used h u ih => exact ih.run u

end

/-! ## Rolling back -/

/-- Whether there are changes that no commit has made permanent yet. A store in memory makes nothing
permanent, so none of its changes waits for that. -/
def hasPending (db : Database) : Bool :=
  match db.engine with
  | .tree p _ => p.hasChanges
  | .memory _ => false

theorem Sound.clean (h : Sound db d) (hpending : db.hasPending = false)
    (hfree : db.transaction.isActive = false) : Clean db.engine := by
  obtain ⟨-, hidle, hcopy⟩ := h
  rw [hasPending] at hpending
  cases he : db.engine with
  | memory m => exact hcopy hfree m he
  | tree p c =>
      rw [he] at hpending hidle
      dsimp only at hpending
      rw [Pager.hasChanges, Bool.or_eq_false_iff, Bool.not_eq_false', bne_eq_false_iff_eq]
        at hpending
      exact ⟨hpending.2, Std.ExtTreeMap.isEmpty_iff.1 hpending.1, hidle⟩

/-- A transaction begins where none is open, on a database that may be changed. -/
theorem of_exec_begin_ok (h : (begin caller).exec db d = (.ok (), db', d')) :
    db.readOnly = false ∧ db.transaction.owner? = none := by
  have hro : db.readOnly = false := by
    by_contra hro
    rw [Bool.not_eq_false] at hro
    rw [Database.begin, exec_bind_error (exec_ensureWritable_refused hro d)] at h
    cases h
  refine ⟨hro, ?_⟩
  by_contra howner
  obtain ⟨owner, howner⟩ := Option.ne_none_iff_exists'.1 howner
  obtain ⟨message, hrefused⟩ := refused_begin hro howner caller
  have hsame : (begin caller).exec db d = (.error (.lockError message), db, d) :=
    hrefused db.engine d
  rw [hsame] at h
  cases h

/-- What a transaction begins with. -/
theorem within_of_begin (hs : Sound db d) (hpending : db.hasPending = false)
    (h : (begin caller).exec db d = (.ok (), db', d')) :
    ∃ e slot, db' = { db with engine := e, transaction := slot } ∧ d' = d ∧
      slot.owner? = some caller ∧ Within db.engine e ∧ Sound db' d := by
  obtain ⟨hro, hfree⟩ := of_exec_begin_ok h
  have hsound := hs.begin caller
  rw [h] at hsound
  match hbegin : Engine.begin.exec db.engine d with
  | (r, e, d₁) =>
      obtain ⟨rfl, hwithin, -, -⟩ := of_exec_begin hbegin
      obtain ⟨slot, hexec, hslot⟩ := exec_begin hro hfree caller hbegin
      rw [h] at hexec
      cases hexec
      exact ⟨e, slot, rfl, rfl, hslot, hwithin (hs.clean hpending (isActive_of_free hfree)) rfl,
        hsound⟩

/-- **A rollback brings back what was there when the transaction began.** On a database over any
engine, with no change pending, a transaction is begun, and any operations follow, with or without
success. Then the rollback succeeds, the disk is as it was, no transaction is open, and whatever is
done with the records from then on, be it to fetch, to count or to scan them or to change them, it
is answered as if the transaction had never been opened, and does the same to the disk. -/
theorem rollback_restores [Codec] (h : Used db d) (hpending : db.hasPending = false)
    (hbegin : (begin caller).exec db d = (.ok (), db', d')) (work : List Operation) :
    ∃ answers db₁ db₂, (perform work).exec db' d' = (.ok answers, db₁, d) ∧
      (rollback caller).exec db₁ d = (.ok (), db₂, d) ∧ db₂.transaction.isActive = false ∧
      ∀ later, ((perform later).exec db₂ d).1 = ((perform later).exec db d).1 ∧
        ((perform later).exec db₂ d).2.2 = ((perform later).exec db d).2.2 := by
  have hs := h.sound
  obtain ⟨-, hfree⟩ := of_exec_begin_ok hbegin
  obtain ⟨e, slot, rfl, rfl, howner, hwithin, hbegun⟩ := within_of_begin hs hpending hbegin
  -- All that is done within the transaction leaves the disk alone and the way back open.
  have hactive : slot.isActive = true := by
    rw [isActive_eq_owner, howner]
    rfl
  have hjoins : ({ db with engine := e, transaction := slot } : Database).joins = true := by
    rw [joins, hactive, Bool.or_true]
  obtain ⟨answers, db₁, d₁, hwork, hstays⟩ := stays_perform work _ d' hjoins
  obtain ⟨rfl, hreworked⟩ := hstays.left.joined hactive
  obtain ⟨_, t, t', _, hexec, hexec', hm⟩ := matching_perform work _ _ _ hbegun.matching
  rw [hwork] at hexec hexec'
  cases hexec
  cases hexec'
  obtain ⟨hakin, -⟩ := (hwithin.reworked hreworked).rolledBack hs.akin hm.akin
  have howner₁ : db₁.transaction.owner? = some caller := hstays.owner.trans howner
  let db₂ : Database := { db₁ with
    engine := db₁.engine.rolledBack, transaction := db₁.transaction.abandon }
  refine ⟨answers, db₁, db₂, hwork, exec_rollback howner₁ d₁, rfl, fun later => ?_⟩
  have hmatching : Matching d₁ db db₂ :=
    ⟨⟨hstays.readOnly, hstays.autoCommit, hfree.symm, hakin⟩, hstays.scriptTimeout⟩
  obtain ⟨r, t, t', d₂, hright, hleft, -⟩ := matching_perform later _ _ _ hmatching
  rw [hright, hleft]
  exact ⟨rfl, rfl⟩

end

/-! ## A transaction on a file that may not grow -/

/-- A database on the empty file with room for one page. -/
def onOnePage : Database where
  path := "a"
  engine := withOnePage
  autoCommit := true
  readOnly := false
  scriptTimeout := none

theorem used_onOnePage : ∃ d, Used onOnePage d := by
  let o : Options := { onePage with compression := .off }
  obtain ⟨d, hpager⟩ := Pager.closed_emptyFiles.exec_open_empty (o := o) rfl rfl rfl rfl
  have hopen := exec_open (o := o) rfl (exec_openEngine (by decide) hpager) {}
  exact ⟨d, .opened Pager.namesLive_emptyFiles Pager.namesApart_emptyFiles hopen⟩

/-- A record that finds no room, and one that does. -/
def twoRecords : List Operation :=
  [.call 0 (.store [1] (List.replicate 124 0)) rfl, .call 0 (.store [1] [2]) rfl]

set_option maxRecDepth 4000 in
theorem begin_onOnePage [Codec] (d : Disk) :
    ∃ db, (begin 0).exec onOnePage d = (.ok (), db, d) ∧ ((perform twoRecords).exec db d).1 =
      .ok [.reply (.error (.full "page limit of 2 reached")), .reply (.ok .done)] := by
  with_unfolding_all exact ⟨_, rfl, rfl⟩

theorem rollback_restores_one_page :
    ∃ d db db₁ db₂, Used onOnePage d ∧ onOnePage.hasPending = false ∧
      (begin 0).exec onOnePage d = (.ok (), db, d) ∧
      (perform twoRecords).exec db d =
        (.ok [.reply (.error (.full "page limit of 2 reached")), .reply (.ok .done)], db₁, d) ∧
      (rollback 0).exec db₁ d = (.ok (), db₂, d) ∧
      ((perform [.call 0 (.find [1]) rfl, .scan true 9]).exec db₂ d).1 =
        .ok [.reply (.ok (.perhaps none)), .records (.ok [])] := by
  obtain ⟨d, hused⟩ := used_onOnePage
  obtain ⟨db, hbegin, hanswers⟩ := begin_onOnePage d
  obtain ⟨answers, db₁, db₂, hwork, hback, -, hlater⟩ :=
    rollback_restores hused rfl hbegin twoRecords
  rw [hwork] at hanswers
  obtain rfl := Except.ok.inj hanswers
  refine ⟨d, db, db₁, db₂, hused, rfl, hbegin, hwork, hback, ?_⟩
  rw [(hlater _).1]
  with_unfolding_all rfl

end PagedStore.Database
