import PagedStore.Proofs.Closing
import PagedStore.Proofs.CursorMoves
import PagedStore.Proofs.Neighbours
import PagedStore.Proofs.ReadOnlyDatabases

/-!
# Going through a database that others change

A cursor is put on the first record and goes on from record to record, perhaps taking records out as
it goes, or it goes the other way from the last one. Between its moves others do with the database
what they like. It lands on keys in their order and on none twice, on each of them while the record
is there, and when it has come to the end it has missed no key that was there all the time. Only
once it has found that its record is gone it does not see the record come back.

The invariant is about what lies ahead: a key that was there at every moment either has been landed
on or stands beyond the key that the cursor remembers (`Course.ahead`).
-/

set_option autoImplicit false

namespace PagedStore

open PagedStore.Action

/-! ## Searches in either direction -/

namespace Engine

/-- The record at which the way begins. -/
def start [Codec] (up : Bool) : Action Engine (Option (Bytes × Bytes)) := if up then first else last

/-- The record that comes after a key on the way. -/
def onward [Codec] (up : Bool) (key : Bytes) : Action Engine (Option (Bytes × Bytes)) :=
  if up then next key else prev key

section

variable {e : Engine} {d : Disk} {m : Contents}

variable [Codec]

theorem Holds.start (h : Holds e d m) (up : Bool) :
    ∃ r e', (Engine.start up).exec e d = (.ok r, e', d) ∧ m.IsNearest up (fun _ => True) r ∧
      Holds e' d m := by
  cases up with
  | true =>
      obtain ⟨r, e', hexec, hr, he'⟩ := h.first
      exact ⟨r, e', hexec, hr.isNearest, he'⟩
  | false =>
      obtain ⟨r, e', hexec, hr, he'⟩ := h.last
      exact ⟨r, e', hexec, hr.isNearest, he'⟩

theorem Holds.onward (h : Holds e d m) (up : Bool) (key : Bytes) :
    ∃ r e', (Engine.onward up key).exec e d = (.ok r, e', d) ∧
      m.IsNearest up (Precedes up key) r ∧ Holds e' d m := by
  cases up with
  | true =>
      obtain ⟨r, e', hexec, hr, he'⟩ := h.next key
      exact ⟨r, e', hexec, hr.isNearest, he'⟩
  | false =>
      obtain ⟨r, e', hexec, hr, he'⟩ := h.prev key
      exact ⟨r, e', hexec, hr.isNearest, he'⟩

theorem Mute.start (h : Mute e) (up : Bool) (d : Disk) :
    ∃ error e', (Engine.start up).exec e d = (.error error, e', d) ∧ Mute e' := by
  cases up with
  | true => exact h.first d
  | false => exact h.last d

theorem Mute.onward (h : Mute e) (up : Bool) (d : Disk) (key : Bytes) :
    ∃ error e', (Engine.onward up key).exec e d = (.error error, e', d) ∧ Mute e' := by
  cases up with
  | true => exact h.next d key
  | false => exact h.prev d key

end

end Engine

namespace Database

variable [Codec]

/-- A database on a file holds a map, or gives no answers. -/
theorem FileBacked.holds_or_mute [Codec.Lawful] {db : Database} {d : Disk} (h : FileBacked db d) :
    (∃ m, db.engine.Holds d m) ∨ db.engine.Mute := by
  rcases h.guarded with ⟨path, hdb⟩ | ⟨m, hdb⟩
  · exact hdb.engine.holds_or_mute
  · exact .inl ⟨m, hdb.engine.holds⟩

/-- The move by which a cursor sets out. -/
def CursorMove.start (up : Bool) : CursorMove := if up then .first else .last

/-- The move by which it goes on. -/
def CursorMove.onward (up : Bool) : CursorMove := if up then .next else .prev

theorem CursorMove.run_start (up : Bool) :
    (start up).run = Cursor.ensureOpen >>= fun _ => Cursor.goTo (Engine.start up) .eof := by
  cases up <;> rfl

theorem CursorMove.run_onward (up : Bool) :
    (onward up).run = Cursor.step (Engine.onward up) := by
  cases up <;> rfl

end Database

open Database

/-! ## Moments -/

/-- A cursor with its database and the disk. -/
structure Moment where
  cursor : Cursor
  db : Database
  disk : Disk
  /-- The key of the record on which the cursor has just been put. -/
  landed : Option Bytes := none

namespace Moment

variable [Codec]

/-- What a look for a key gives. -/
def find (m : Moment) (key : Bytes) : Except Error (Option Bytes) :=
  ((Database.find key).exec m.db m.disk).1

/-- What the cursor tells of its record. -/
def entry (m : Moment) : Except Error (Bytes × Bytes) :=
  (Cursor.entry.exec (m.cursor, m.db) m.disk).1

/-- The record of a key is there. -/
def Has (m : Moment) (key : Bytes) : Prop := ∃ value, m.find key = .ok (some value)

instance (m : Moment) (key : Bytes) : Decidable (m.Has key) :=
  match h : m.find key with
  | .ok (some value) => .isTrue ⟨value, h⟩
  | .ok none => .isFalse (by simp [Has, h])
  | .error _ => .isFalse (by simp [Has, h])

/-- The moment after a move of the cursor. -/
def moved (m : Moment) (move : CursorMove) : Moment :=
  match move.run.exec (m.cursor, m.db) m.disk with
  | (.ok _, (c, db), d) => ⟨c, db, d, c.key?⟩
  | (.error _, (c, db), d) => ⟨c, db, d, none⟩

/-- What can happen in a traversal. -/
inductive Step : Bool → Type where
  /-- The cursor goes on. -/
  | onward {up : Bool} : Step up
  /-- The cursor takes out its record, which leads it on as well. -/
  | takeOut : Step true
  /-- The record of the cursor is looked at. -/
  | read {up : Bool} : Step up
  /-- Someone else uses the database. -/
  | other {up : Bool} (u : Use) : Step up

/-- The moment after a step. -/
def step {up : Bool} (m : Moment) : Step up → Moment
  | .onward => m.moved (.onward up)
  | .takeOut => m.moved .delete
  | .read => { m.moved .entry with landed := none }
  | .other u => ⟨m.cursor, (u.run m.db m.disk).1, (u.run m.db m.disk).2, none⟩

end Moment

/-- The keys on which a cursor has landed, the first one first. The moments are listed from the last
one back. -/
def landings (ms : List Moment) : List Bytes := ms.reverse.filterMap (·.landed)

section

variable [Codec]

/-- Since the cursor landed for the last time it has found that the record of the key is gone. -/
def Lost (key : Bytes) (ms : List Moment) : Prop :=
  ∃ x ∈ ms.takeWhile (·.landed.isNone), x.cursor.position = .detached key ∧ x.find key = .ok none

/-- The moments of a traversal, from the last one back. -/
inductive Traversal (up : Bool) : List Moment → Prop where
  | start {m : Moment} (hdb : FileBacked m.db m.disk) (hc : m.cursor.closed = false)
      (hstarted : (m.moved (.start up)).landed ≠ none ∨ (m.moved (.start up)).cursor.isEof = true) :
      Traversal up [m.moved (.start up)]
  | step {m : Moment} {past : List Moment} (h : Traversal up (m :: past)) (s : Moment.Step up) :
      Traversal up (m.step s :: m :: past)

/-- What the cursor may tell of its record. -/
inductive Answers (m : Moment) (past : List Moment) : Except Error (Bytes × Bytes) → Prop where
  /-- The key on which it landed, with the value that is stored now. -/
  | record {key value : Bytes} (hlast : (landings (m :: past)).getLast? = some key)
      (hnow : m.find key = .ok (some value)) : Answers m past (.ok (key, value))
  /-- The record is gone. -/
  | missing {key : Bytes} (hlast : (landings (m :: past)).getLast? = some key)
      (hnow : m.find key = .ok none) :
      Answers m past (.error (.invalidState "record under cursor was deleted"))
  /-- The record has been found to be gone before, since the cursor landed there. -/
  | lost {key : Bytes} (hlast : (landings (m :: past)).getLast? = some key)
      (hlost : Lost key (m :: past)) :
      Answers m past (.error (.invalidState "record under cursor was deleted"))
  /-- It has come to the end. -/
  | over (heof : m.cursor.isEof = true) :
      Answers m past (.error (.invalidState "cursor is at end of input"))
  /-- A commit was stopped, and since then the database gives no answers. -/
  | failed {key : Bytes} {e : Error} (hlast : (landings (m :: past)).getLast? = some key)
      (hmute : m.db.engine.Mute) (hnow : m.find key = .error e) : Answers m past (.error e)

end

/-! ## What a traversal keeps -/

section

variable {up : Bool} {m m' : Moment} {past ms : List Moment} {key : Bytes}

theorem landings_cons (m : Moment) (ms : List Moment) :
    landings (m :: ms) = landings ms ++ m.landed.toList := by
  rw [landings, List.reverse_cons, List.filterMap_append, landings]
  cases h : m.landed <;> simp [h]

section

variable [Codec]

theorem Lost.cons (h : Lost key ms) (hm : m.landed = none) : Lost key (m :: ms) := by
  obtain ⟨x, hx, hlost⟩ := h
  refine ⟨x, ?_, hlost⟩
  rw [List.takeWhile_cons_of_pos (by rw [hm]; rfl)]
  exact List.mem_cons_of_mem _ hx

theorem Lost.head (hm : m.landed = none) (hp : m.cursor.position = .detached key)
    (hfind : m.find key = .ok none) : Lost key (m :: ms) := by
  refine ⟨m, ?_, hp, hfind⟩
  rw [List.takeWhile_cons_of_pos (by rw [hm]; rfl)]
  exact List.mem_cons_self

/-- What holds at every moment of a traversal. -/
structure Course (up : Bool) (m : Moment) (past : List Moment) : Prop where
  backed : FileBacked m.db m.disk
  isOpen : m.cursor.closed = false
  placed : m.cursor.position ≠ .unplaced
  /-- The keys are landed on in their order. -/
  ordered : (landings (m :: past)).Pairwise (Precedes up)
  /-- The cursor remembers the key on which it landed last. -/
  last : ∀ key, m.cursor.key? = some key → (landings (m :: past)).getLast? = some key
  /-- A key that was always there has been landed on or lies ahead. -/
  ahead : ∀ key, (∀ x ∈ m :: past, x.Has key) →
    key ∈ landings (m :: past) ∨ ∃ k, m.cursor.key? = some k ∧ Precedes up k key
  landed : ∀ key, m.landed = some key →
    ∃ value, m.cursor.position = .at key value ∧ m.find key = .ok (some value)
  lost : ∀ key, m.cursor.position = .detached key → Lost key (m :: past)

/-- The cursor stays where it is. -/
theorem Course.stay (h : Course up m past) (hb : FileBacked m'.db m'.disk)
    (ho : m'.cursor.closed = false) (hplaced : m'.cursor.position ≠ .unplaced)
    (hkey : m'.cursor.key? = m.cursor.key?) (hl : m'.landed = none)
    (hlost : ∀ key, m'.cursor.position = .detached key →
      m.cursor.position = .detached key ∨ m'.find key = .ok none) :
    Course up m' (m :: past) := by
  have hsame : landings (m' :: m :: past) = landings (m :: past) := by
    rw [landings_cons m', hl, Option.toList_none, List.append_nil]
  refine ⟨hb, ho, hplaced, ?_, ?_, ?_, ?_, ?_⟩
  · rw [hsame]
    exact h.ordered
  · rw [hsame, hkey]
    exact h.last
  · rw [hsame, hkey]
    exact fun key hkey => h.ahead key fun x hx => hkey x (List.mem_cons_of_mem _ hx)
  · simp [hl]
  · intro key hp
    rcases hlost key hp with hold | hnow
    · exact (h.lost key hold).cons hl
    · exact .head hl hp hnow

end

/-- What stands before the last element of a list in order stands before what comes after it. -/
theorem pairwise_concat {xs : List Bytes} {last next : Bytes} (h : xs.Pairwise (Precedes up))
    (hlast : xs.getLast? = some last) (hnext : Precedes up last next) :
    (xs ++ [next]).Pairwise (Precedes up) := by
  obtain ⟨front, rfl⟩ := List.getLast?_eq_some_iff.1 hlast
  refine List.pairwise_append.2 ⟨h, List.pairwise_singleton .., fun x hx y hy => ?_⟩
  obtain rfl := List.mem_singleton.1 hy
  rcases List.mem_append.1 hx with hx | hx
  · exact ((List.pairwise_append.1 h).2.2 x hx last (List.mem_singleton_self _)).trans hnext
  · obtain rfl := List.mem_singleton.1 hx
    exact hnext

/-! ## Moves -/

namespace Moment

variable {move : CursorMove} {c : Cursor} {db : Database} {d : Disk} {error : Error}
  {map : Contents}

variable [Codec]

theorem moved_ok (h : move.run.exec (m.cursor, m.db) m.disk = (.ok (), (c, db), d)) :
    m.moved move = ⟨c, db, d, c.key?⟩ := by
  rw [moved, h]

theorem moved_error (h : move.run.exec (m.cursor, m.db) m.disk = (.error error, (c, db), d)) :
    m.moved move = ⟨c, db, d, none⟩ := by
  rw [moved, h]

/-- The moment after a search has led the cursor on. -/
def follow (m : Moment) (r : Option (Bytes × Bytes)) (db : Database) (d : Disk) : Moment :=
  ⟨m.cursor.moved r, db, d, (m.cursor.moved r).key?⟩

theorem moved_search {r : Option (Bytes × Bytes)} (h : move.run.exec (m.cursor, m.db) m.disk =
    (Cursor.outcome error r, (m.cursor.moved r, db), d)) : m.moved move = m.follow r db d := by
  rw [moved, h]
  cases r <;> rfl

/-- Moves are uses of the database. -/
theorem backed_moved (h : FileBacked m.db m.disk) (move : CursorMove) :
    FileBacked (m.moved move).db (m.moved move).disk := by
  have hused := h.used (.move m.cursor move)
  rw [Use.run] at hused
  generalize hexec : move.run.exec (m.cursor, m.db) m.disk = out at hused
  obtain ⟨r, ⟨c, db⟩, d⟩ := out
  cases r with
  | ok _ =>
      rw [moved_ok hexec]
      exact hused
  | error _ =>
      rw [moved_error hexec]
      exact hused

theorem find_of_holds (h : m.db.engine.Holds m.disk map) (key : Bytes) :
    m.find key = .ok map[key]? := by
  obtain ⟨e, hexec, -⟩ := exec_find_of_holds h key
  rw [find, hexec]

theorem Has.exists_value (hkey : m.Has key) (h : m.db.engine.Holds m.disk map) :
    ∃ value, map[key]? = some value := by
  obtain ⟨value, hvalue⟩ := hkey
  rw [find_of_holds h] at hvalue
  exact ⟨value, Except.ok.inj hvalue⟩

theorem not_has_of_mute (h : m.db.engine.Mute) (key : Bytes) : ¬ m.Has key := by
  rintro ⟨value, hvalue⟩
  obtain ⟨error, e, hexec, -⟩ := exec_find_of_mute h m.disk key
  rw [find, hexec] at hvalue
  cases hvalue

end Moment

/-! ## Following a search -/

section

variable {db : Database} {d : Disk} {map : Contents} {r : Option (Bytes × Bytes)}

theorem landings_follow (m : Moment) (r : Option (Bytes × Bytes)) (db : Database) (d : Disk)
    (ms : List Moment) :
    landings (m.follow r db d :: ms) = landings ms ++ (r.map Prod.fst).toList := by
  rw [landings_cons, Moment.follow, Cursor.key?_moved]

/-- What a cursor that has followed a search has landed on is there. -/
theorem Moment.landed_follow [Codec] (m : Moment) (db : Database) (hm : db.engine.Holds d map)
    {P : Bytes → Prop} (hr : map.IsNearest up P r) (key : Bytes)
    (hl : (m.follow r db d).landed = some key) :
    ∃ value, (m.follow r db d).cursor.position = .at key value ∧
      (m.follow r db d).find key = .ok (some value) := by
  rw [Moment.follow, Cursor.key?_moved] at hl
  cases r with
  | none => cases hl
  | some r =>
      cases hl
      refine ⟨r.2, rfl, ?_⟩
      rw [Moment.find_of_holds hm, hr.1]

/-- The cursor goes on to the record that comes next and passes over none, or comes to the end when
nothing is left ahead of it. -/
theorem Course.follow [Codec] (h : Course up m past) (hkey : m.cursor.key? = some key)
    (hb : FileBacked db d) (hm : db.engine.Holds d map)
    (hr : map.IsNearest up (Precedes up key) r) : Course up (m.follow r db d) (m :: past) := by
  -- A key that was always there has been landed on, or was ahead of the key that is left.
  have hahead : ∀ j, (∀ x ∈ m.follow r db d :: m :: past, x.Has j) →
      j ∈ landings (m :: past) ∨ Precedes up key j ∧ ∃ value, map[j]? = some value := by
    intro j hj
    rcases h.ahead j fun x hx => hj x (List.mem_cons_of_mem _ hx) with hin | ⟨i, hi, hij⟩
    · exact .inl hin
    · rw [hkey] at hi
      obtain rfl := Option.some.inj hi
      exact .inr ⟨hij, (hj _ List.mem_cons_self).exists_value hm⟩
  have hlanded := m.landed_follow db hm hr
  cases r with
  | none =>
      have hsame : landings (m.follow none db d :: m :: past) = landings (m :: past) := by
        rw [landings_follow, Option.map_none, Option.toList_none, List.append_nil]
      refine ⟨hb, h.isOpen, m.cursor.placed_moved none, hsame ▸ h.ordered,
        by simp [Moment.follow, Cursor.key?_moved], fun j hj => ?_, hlanded,
        fun j hp => absurd hp (m.cursor.attached_moved _ j)⟩
      rw [hsame]
      rcases hahead j hj with hin | ⟨hlt, value, hvalue⟩
      · exact .inl hin
      · exact absurd hlt (hr j value hvalue)
  | some r =>
      obtain ⟨-, hnext, hfirst⟩ := hr
      have hmore : landings (m.follow (some r) db d :: m :: past) =
          landings (m :: past) ++ [r.1] := by
        rw [landings_follow, Option.map_some, Option.toList_some]
      refine ⟨hb, h.isOpen, m.cursor.placed_moved (some r), ?_, ?_, fun j hj => ?_, hlanded,
        fun j hp => absurd hp (m.cursor.attached_moved _ j)⟩
      · rw [hmore]
        exact pairwise_concat h.ordered (h.last key hkey) hnext
      · rw [hmore]
        rintro _ ⟨⟩
        exact List.getLast?_concat ..
      · rw [hmore, List.mem_append, List.mem_singleton]
        rcases hahead j hj with hin | ⟨hlt, value, hvalue⟩
        · exact .inl (.inl hin)
        · rcases Precedes.trichotomy up j r.1 with hbefore | rfl | hbeyond
          · exact absurd hbefore (hfirst j value hvalue hlt)
          · exact .inl (.inr rfl)
          · exact .inr ⟨r.1, rfl, hbeyond⟩

end

/-! ## Steps -/

variable [Codec]

/-- Where the records can be asked for, the cursor follows the search from its key. -/
theorem Course.exists_follow (h : Course up m past) (hkey : m.cursor.key? = some key)
    {map : Contents} (hmap : m.db.engine.Holds m.disk map) :
    ∃ r e, m.moved (.onward up) = m.follow r { m.db with engine := e } m.disk ∧
      map.IsNearest up (Precedes up key) r ∧ e.Holds m.disk map := by
  obtain ⟨r, e, hexec, hr, he⟩ := hmap.onward up key
  have hrun := Cursor.exec_step h.isOpen hkey m.db m.disk (Engine.onward up)
  rw [← CursorMove.run_onward, Cursor.exec_goTo hexec] at hrun
  exact ⟨r, e, Moment.moved_search hrun, hr, he⟩

/-- To go on keeps what a traversal keeps. -/
theorem Course.onward [Codec.Lawful] (h : Course up m past) :
    Course up (m.moved (.onward up)) (m :: past) := by
  have hb := m.backed_moved h.backed (.onward up)
  cases hkey : m.cursor.key? with
  | none =>
      obtain ⟨error, hexec⟩ := Cursor.exec_step_none h.isOpen hkey m.db m.disk (Engine.onward up)
      rw [← CursorMove.run_onward] at hexec
      rw [Moment.moved_error hexec] at hb ⊢
      exact h.stay hb h.isOpen h.placed rfl rfl fun _ hp => .inl hp
  | some key =>
      rcases h.backed.holds_or_mute with ⟨map, hmap⟩ | hmute
      · obtain ⟨r, e, hmoved, hr, he⟩ := h.exists_follow hkey hmap
        rw [hmoved] at hb ⊢
        exact h.follow hkey hb he hr
      · obtain ⟨error, e, hexec, -⟩ := hmute.onward up m.disk key
        have hrun := Cursor.exec_step h.isOpen hkey m.db m.disk (Engine.onward up)
        rw [← CursorMove.run_onward, Cursor.exec_goTo_error hexec] at hrun
        rw [Moment.moved_error hrun] at hb ⊢
        exact h.stay hb h.isOpen h.placed rfl rfl fun _ hp => .inl hp

/-- When a record could be taken out, the record that comes next was found among those that were
there, and they are still there without it. -/
theorem takeOut_of_mutate [Codec.Lawful] {db db' : Database} {d d' : Disk} {key : Bytes}
    {removed : Option (Option (Bytes × Bytes))} (hb : FileBacked db d)
    (h : (mutate (Cursor.takeOut key)).exec db d = (.ok removed, db', d')) :
    ∃ (map : Contents) (r : Option (Bytes × Bytes)), db'.engine.Holds d' (map.erase key) ∧
      map.IsNearest true (Precedes true key) r ∧
      removed = if map.contains key then some r else none := by
  rcases hb.guarded with ⟨path, hdb⟩ | ⟨m, hdb⟩
  · obtain ⟨e, d₁, ha, hkept⟩ := holds_of_mutate hdb.readOnly_eq h
    rcases hdb.engine.holds_or_mute with ⟨map, hmap⟩ | hmute
    · obtain ⟨r, e₁, hnext, hr, he₁⟩ := hmap.next key
      have hlasts₁ : e₁.Lasts path d := by
        have := Engine.keeps_lasts_next key _ _ hdb.engine
        rwa [hnext] at this
      obtain ⟨e₂, hdelete, he₂, hlasts₂⟩ := hlasts₁.delete he₁ key
      have hexec : (Cursor.takeOut key).exec db.engine d =
          (.ok (if map.contains key then some r else none), e₂, d) := by
        rw [Cursor.takeOut, exec_bind_ok hnext, exec_bind_ok hdelete]
        cases map.contains key <;> rfl
      rw [hexec] at ha
      obtain ⟨rfl, rfl, rfl⟩ := exec_ok_inj ha
      exact ⟨map, r, hkept hlasts₂ _ he₂, hr.isNearest, rfl⟩
    · obtain ⟨error, e₁, hnext, -⟩ := hmute.next d key
      rw [Cursor.takeOut, exec_bind_error hnext] at ha
      cases ha
  · rw [exec_mutate_refused hdb.readOnly_eq] at h
    cases h

/-- To take out the record keeps what a traversal keeps. -/
theorem Course.takeOut [Codec.Lawful] (h : Course true m past) :
    Course true (m.moved .delete) (m :: past) := by
  have hb := m.backed_moved h.backed .delete
  by_cases hat : ∃ key value, m.cursor.position = .at key value
  · obtain ⟨key, value, hp⟩ := hat
    have hkey : m.cursor.key? = some key := by rw [Cursor.key?, hp]
    generalize hm : (mutate (Cursor.takeOut key)).exec m.db m.disk = out
    obtain ⟨r, db, d⟩ := out
    cases r with
    | error error =>
        have hexec : CursorMove.delete.run.exec (m.cursor, m.db) m.disk = _ :=
          Cursor.exec_delete_error h.isOpen hp hm
        rw [Moment.moved_error hexec] at hb ⊢
        exact h.stay hb h.isOpen h.placed rfl rfl fun _ hp => .inl hp
    | ok removed =>
        obtain ⟨map, r, hmap, hr, rfl⟩ := takeOut_of_mutate h.backed hm
        cases hc : map.contains key with
        | false =>
            rw [hc] at hm
            have hexec : CursorMove.delete.run.exec (m.cursor, m.db) m.disk = _ :=
              Cursor.exec_delete h.isOpen hp hm
            rw [Moment.moved_error hexec] at hb ⊢
            refine h.stay hb h.isOpen (by simp [Cursor.removed]) hkey.symm rfl ?_
            rintro _ ⟨⟩
            refine .inr ((Moment.find_of_holds hmap key).trans (congrArg Except.ok ?_))
            exact Std.ExtTreeMap.getElem?_erase_self
        | true =>
            rw [hc] at hm
            have hexec : CursorMove.delete.run.exec (m.cursor, m.db) m.disk = _ :=
              Cursor.exec_delete h.isOpen hp hm
            rw [Moment.moved_ok hexec] at hb ⊢
            exact h.follow hkey hb hmap hr.erase
  · have hnot : ∀ key value, m.cursor.position ≠ .at key value := fun key value hp =>
      hat ⟨key, value, hp⟩
    have hexec : CursorMove.delete.run.exec (m.cursor, m.db) m.disk = _ :=
      Cursor.exec_delete_none h.isOpen hnot m.db m.disk
    rw [Moment.moved_error hexec] at hb ⊢
    exact h.stay hb h.isOpen h.placed rfl rfl fun _ hp => .inl hp

/-- To look at the record keeps what a traversal keeps. -/
theorem Course.read [Codec.Lawful] (h : Course up m past) :
    Course up { m.moved .entry with landed := none } (m :: past) := by
  have hb := m.backed_moved h.backed .entry
  have hrun : ∀ {r c db d}, Cursor.entry.exec (m.cursor, m.db) m.disk = (r, (c, db), d) →
      { m.moved .entry with landed := none } = (⟨c, db, d, none⟩ : Moment) := by
    intro r c db d hexec
    have hmove : CursorMove.entry.run.exec (m.cursor, m.db) m.disk = _ :=
      exec_bind_pure hexec fun _ => ()
    cases r with
    | ok x => rw [Moment.moved_ok hmove]
    | error error => rw [Moment.moved_error hmove]
  have hb' : FileBacked ({ m.moved .entry with landed := none } : Moment).db
      ({ m.moved .entry with landed := none } : Moment).disk := hb
  by_cases hat : ∃ key value, m.cursor.position = .at key value
  · obtain ⟨key, value, hp⟩ := hat
    have hkey : m.cursor.key? = some key := by rw [Cursor.key?, hp]
    rcases h.backed.holds_or_mute with ⟨map, hmap⟩ | hmute
    · obtain ⟨e, hfind, he⟩ := exec_find_of_holds hmap key
      cases hnow : map[key]? with
      | some now =>
          rw [hnow] at hfind
          rw [hrun (Cursor.exec_entry h.isOpen hp hfind)] at hb' ⊢
          exact h.stay hb' h.isOpen (by simp) hkey.symm rfl (by simp)
      | none =>
          rw [hnow] at hfind
          rw [hrun (Cursor.exec_entry_lost h.isOpen hp hfind)] at hb' ⊢
          refine h.stay hb' h.isOpen (by simp) hkey.symm rfl ?_
          rintro _ ⟨⟩
          exact .inr ((Moment.find_of_holds he key).trans (congrArg Except.ok hnow))
    · obtain ⟨error, e, hfind, -⟩ := exec_find_of_mute hmute m.disk key
      rw [hrun (Cursor.exec_entry_error h.isOpen hp hfind)] at hb' ⊢
      exact h.stay hb' h.isOpen h.placed rfl rfl fun _ hp => .inl hp
  · have hnot : ∀ key value, m.cursor.position ≠ .at key value := fun key value hp =>
      hat ⟨key, value, hp⟩
    rw [hrun (Cursor.exec_entry_none h.isOpen hnot m.db m.disk)] at hb' ⊢
    exact h.stay hb' h.isOpen h.placed rfl rfl fun _ hp => .inl hp

/-- **Every step keeps it.** -/
theorem Course.step [Codec.Lawful] (h : Course up m past) (s : Moment.Step up) :
    Course up (m.step s) (m :: past) := by
  cases s with
  | onward => exact h.onward
  | takeOut => exact h.takeOut
  | read => exact h.read
  | other u => exact h.stay (h.backed.used u) h.isOpen h.placed rfl rfl fun _ hp => .inl hp

/-- A cursor that has set out stands at the beginning of the way. -/
theorem Course.start [Codec.Lawful] (hdb : FileBacked m.db m.disk) (hc : m.cursor.closed = false)
    (hstarted : (m.moved (.start up)).landed ≠ none ∨
      (m.moved (.start up)).cursor.isEof = true) : Course up (m.moved (.start up)) [] := by
  have hb := m.backed_moved hdb (.start up)
  have hrun : (CursorMove.start up).run.exec (m.cursor, m.db) m.disk =
      (Cursor.goTo (Engine.start up) .eof).exec (m.cursor, m.db) m.disk := by
    rw [CursorMove.run_start, exec_bind_ok (Cursor.exec_ensureOpen hc m.db m.disk)]
  rcases hdb.holds_or_mute with ⟨map, hmap⟩ | hmute
  · obtain ⟨r, e, hexec, hr, he⟩ := hmap.start up
    rw [Cursor.exec_goTo hexec] at hrun
    rw [Moment.moved_search hrun] at hb ⊢
    have hlanded := m.landed_follow { m.db with engine := e } he hr
    cases r with
    | none =>
        refine ⟨hb, hc, m.cursor.placed_moved none, .nil,
          by simp [Moment.follow, Cursor.key?_moved], fun key hkey => ?_, hlanded,
          fun j hp => absurd hp (m.cursor.attached_moved _ j)⟩
        obtain ⟨value, hvalue⟩ := (hkey _ List.mem_cons_self).exists_value he
        exact absurd trivial (hr key value hvalue)
    | some r =>
        obtain ⟨-, -, hfirst⟩ := hr
        refine ⟨hb, hc, m.cursor.placed_moved (some r), List.pairwise_singleton .., ?_,
          fun key hkey => ?_, hlanded,
          fun j hp => absurd hp (m.cursor.attached_moved _ j)⟩
        · rintro _ ⟨⟩
          rfl
        · obtain ⟨value, hvalue⟩ := (hkey _ List.mem_cons_self).exists_value he
          rcases Precedes.trichotomy up key r.1 with hlt | rfl | hlt
          · exact absurd hlt (hfirst key value hvalue trivial)
          · exact .inl List.mem_cons_self
          · exact .inr ⟨r.1, rfl, hlt⟩
  · -- It can only have been at the end before, and no key can be found.
    obtain ⟨error, e, hexec, he⟩ := hmute.start up m.disk
    rw [Cursor.exec_goTo_error hexec] at hrun
    rw [Moment.moved_error hrun] at hb hstarted ⊢
    have hp : m.cursor.position = .eof := by
      rcases hstarted with hl | heof
      · exact absurd rfl hl
      · exact of_decide_eq_true heof
    have hk : m.cursor.key? = none := by rw [Cursor.key?, hp]
    refine ⟨hb, hc, by simp [hp], .nil, by simp [hk], fun key hkey => ?_, by simp, by simp [hp]⟩
    exact absurd (hkey _ List.mem_cons_self) (Moment.not_has_of_mute he key)

/-- **A traversal keeps its course.** -/
theorem Traversal.course [Codec.Lawful] (h : Traversal up (m :: past)) : Course up m past := by
  generalize hms : m :: past = ms at h
  induction h generalizing m past with
  | start hdb hc hstarted =>
      cases hms
      exact .start hdb hc hstarted
  | step h s ih =>
      cases hms
      exact (ih rfl).step s

/-! ## What a traversal lands on -/

/-- Until it has come to the end the cursor can go on. -/
theorem Course.goes_on [Codec.Lawful] (h : Course up m past) (heof : m.cursor.isEof = false)
    (hmute : ¬ m.db.engine.Mute) :
    (m.moved (.onward up)).landed ≠ none ∨ (m.moved (.onward up)).cursor.isEof = true := by
  obtain ⟨map, hmap⟩ := h.backed.holds_or_mute.resolve_right hmute
  obtain ⟨key, hkey⟩ : ∃ key, m.cursor.key? = some key := by
    rw [Cursor.key?]
    cases hp : m.cursor.position with
    | unplaced => exact absurd hp h.placed
    | «at» key value => exact ⟨key, rfl⟩
    | detached key => exact ⟨key, rfl⟩
    | eof => exact absurd hp (of_decide_eq_false heof)
  obtain ⟨r, e, hmoved, -, -⟩ := h.exists_follow hkey hmap
  rw [hmoved]
  cases r with
  | none => exact .inr rfl
  | some r => exact .inl (Option.some_ne_none _)

/-- What the cursor tells of its record is right. -/
theorem Course.answers [Codec.Lawful] (h : Course up m past) : Answers m past m.entry := by
  cases hp : m.cursor.position with
  | unplaced => exact absurd hp h.placed
  | «at» key value =>
      have hlast := h.last key (by rw [Cursor.key?, hp])
      rcases h.backed.holds_or_mute with ⟨map, hmap⟩ | hmute
      · obtain ⟨e, hfind, -⟩ := exec_find_of_holds hmap key
        cases hnow : map[key]? with
        | some now =>
            rw [hnow] at hfind
            rw [Moment.entry, Cursor.exec_entry h.isOpen hp hfind]
            exact .record hlast (congrArg Prod.fst hfind)
        | none =>
            rw [hnow] at hfind
            rw [Moment.entry, Cursor.exec_entry_lost h.isOpen hp hfind]
            exact .missing hlast (congrArg Prod.fst hfind)
      · obtain ⟨error, e, hfind, -⟩ := exec_find_of_mute hmute m.disk key
        rw [Moment.entry, Cursor.exec_entry_error h.isOpen hp hfind]
        exact .failed hlast hmute (congrArg Prod.fst hfind)
  | detached key =>
      have hlast := h.last key (by rw [Cursor.key?, hp])
      have hnot : ∀ k v, m.cursor.position ≠ .at k v := by simp [hp]
      rw [Moment.entry, Cursor.exec_entry_none h.isOpen hnot, hp]
      exact .lost hlast (h.lost key hp)
  | eof =>
      have hnot : ∀ k v, m.cursor.position ≠ .at k v := by simp [hp]
      rw [Moment.entry, Cursor.exec_entry_none h.isOpen hnot, hp]
      exact .over (decide_eq_true hp)

/-- **A traversal misses nothing and repeats nothing**, on the way up and on the way down, whatever
others do to the database between its moves. The keys are landed on in their order. Until the cursor
has come to the end it can go on, and then each key that was there at every moment has been landed
on exactly once. A key that is landed on is there at that moment, with the value that the cursor
holds. And what the cursor tells of its record at any moment is the value that is stored then,
unless the record is gone, or the cursor has found before that it was. -/
theorem traversal_sound [Codec.Lawful] (h : Traversal up (m :: past)) :
    (landings (m :: past)).Pairwise (Precedes up) ∧
      (m.cursor.isEof = false → ¬ m.db.engine.Mute →
        (m.moved (.onward up)).landed ≠ none ∨ (m.moved (.onward up)).cursor.isEof = true) ∧
      (m.cursor.isEof = true → ∀ key, (∀ x ∈ m :: past, x.Has key) →
        (landings (m :: past)).count key = 1) ∧
      (∀ key, m.landed = some key →
        ∃ value, m.cursor.position = .at key value ∧ m.find key = .ok (some value)) ∧
      Answers m past m.entry := by
  have hcourse := h.course
  refine ⟨hcourse.ordered, hcourse.goes_on, fun heof key hkey => ?_, hcourse.landed,
    hcourse.answers⟩
  have hp : m.cursor.position = .eof := of_decide_eq_true heof
  have hk : m.cursor.key? = none := by rw [Cursor.key?, hp]
  have hnodup : (landings (m :: past)).Nodup := hcourse.ordered.imp Precedes.ne
  rcases hcourse.ahead key hkey with hin | ⟨k, hk', -⟩
  · exact List.count_eq_one_of_mem hnodup hin
  · rw [hk] at hk'
    cases hk'

end

/-! ## A file with a few records -/

/-- A cursor that has not set out, on a file that was empty before it was used. -/
def Moment.before [Codec] (uses : List Use) : Moment where
  cursor := {}
  db := (Use.runAll uses (onEmptyFile none) (openedFiles none)).1
  disk := (Use.runAll uses (onEmptyFile none) (openedFiles none)).2

theorem backed_before [Codec] (uses : List Use) :
    FileBacked (Moment.before uses).db (Moment.before uses).disk :=
  (FileBacked.writer (reached_onEmptyFile none).1).usedAll uses

/-- The cursor goes up from the first of two records. A record is stored between them, the cursor
takes out its own and lands on the new one, and goes on to the other and to the end. -/
theorem traversal_sound_record_between :
    ∃ m past, Traversal true (m :: past) ∧ landings (m :: past) = [[1], [2], [3]] ∧
      m.cursor.isEof = true ∧ (∀ x ∈ m :: past, x.Has [3]) ∧
      (landings (m :: past)).count [3] = 1 := by
  have hstart : Traversal true [_] :=
    .start (backed_before [.call 0 .begin, .call 0 (.store [1] [2]), .call 0 (.store [3] [4])]) rfl
      (.inl (by decide +kernel))
  have hend :=
    (((hstart.step (.other (.call 0 (.store [2] [5])))).step .takeOut).step .onward).step .onward
  refine ⟨_, _, hend, by decide +kernel, ?heof, ?hthere,
    (traversal_sound hend).2.2.1 ?heof [3] ?hthere⟩
  case heof => decide +kernel
  case hthere => decide +kernel

/-! ## A record that comes back -/

/-- **A cursor does not see that its record has come back.** The record on which it stands is taken
away, the cursor is read and finds that, and the record is stored again. It is there, and yet the
cursor tells that it was deleted. -/
theorem record_stored_again_stays_lost :
    ∃ m past, Traversal true (m :: past) ∧ landings (m :: past) = [[1]] ∧
      m.find [1] = .ok (some [9]) ∧
      m.entry = .error (.invalidState "record under cursor was deleted") := by
  have hstart : Traversal true [_] :=
    .start (backed_before [.call 0 .begin, .call 0 (.store [1] [2])]) rfl
      (.inl (by decide +kernel))
  have hend := ((hstart.step (.other (.call 0 (.delete [1])))).step .read).step
    (.other (.call 0 (.store [1] [9])))
  exact ⟨_, _, hend, by decide +kernel, by decide +kernel, by decide +kernel⟩

end PagedStore
