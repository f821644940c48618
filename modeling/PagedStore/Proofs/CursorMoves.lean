import PagedStore.Proofs.DatabaseLife

/-!
# Moves of a cursor

A cursor that is not released goes where a search of the engine leads it: to the record that was
found, or beyond the records if there was none (`Cursor.moved`). If the search fails it stays. To go
on it searches from the key that it remembers (`Cursor.key?`), be the record of that key there or
not. Only to read the record, or to take it away, the cursor must stand on one.
-/

set_option autoImplicit false

namespace PagedStore.Cursor

open PagedStore.Action Database

/-- The key that a cursor goes on from. -/
def key? (c : Cursor) : Option Bytes :=
  match c.position with
  | .at key _ => some key
  | .detached key => some key
  | .unplaced => none
  | .eof => none

/-- The cursor after a search. -/
def moved (c : Cursor) : Option (Bytes × Bytes) → Cursor
  | some (key, value) => { c with position := .at key value }
  | none => { c with position := .eof }

/-- How a search ends for the cursor. -/
def outcome (miss : Error) : Option (Bytes × Bytes) → Except Error Unit
  | some _ => .ok ()
  | none => .error miss

theorem key?_moved (c : Cursor) (found : Option (Bytes × Bytes)) :
    (c.moved found).key? = found.map Prod.fst := by
  cases found <;> rfl

theorem placed_moved (c : Cursor) (found : Option (Bytes × Bytes)) :
    (c.moved found).position ≠ .unplaced := by
  cases found <;> simp [moved]

theorem attached_moved (c : Cursor) (found : Option (Bytes × Bytes)) (key : Bytes) :
    (c.moved found).position ≠ .detached key := by
  cases found <;> simp [moved]

section

variable {c : Cursor} {db db' : Database} {d d' : Disk} {e : Engine} {error : Error}
  {key value : Bytes} {found : Option (Bytes × Bytes)}
  {search : Action Engine (Option (Bytes × Bytes))}

theorem exec_ensureOpen (hc : c.closed = false) (db : Database) (d : Disk) :
    ensureOpen.exec (c, db) d = (.ok (), (c, db), d) := by
  rw [ensureOpen, exec_bind, exec_self]
  dsimp only
  rw [hc]
  rfl

theorem exec_onDatabase {α : Type} {a : Action Database α} {r : Except Error α}
    (h : a.exec db d = (r, db', d')) (c : Cursor) :
    (onDatabase a).exec (c, db) d = (r, (c, db'), d') := by
  rw [onDatabase, exec_zoom, h]

/-! ## Searches -/

theorem exec_goTo (h : search.exec db.engine d = (.ok found, e, d')) (c : Cursor) (miss : Error) :
    (goTo search miss).exec (c, db) d =
      (outcome miss found, (c.moved found, { db with engine := e }), d') := by
  have hsearch : (onEngine search).exec db d = (.ok found, { db with engine := e }, d') := by
    rw [exec_onEngine, h]
  rw [goTo, exec_bind_ok (exec_onDatabase hsearch c)]
  cases found <;> rfl

theorem exec_goTo_error (h : search.exec db.engine d = (.error error, e, d')) (c : Cursor)
    (miss : Error) :
    (goTo search miss).exec (c, db) d = (.error error, (c, { db with engine := e }), d') := by
  have hsearch : (onEngine search).exec db d = (.error error, { db with engine := e }, d') := by
    rw [exec_onEngine, h]
  rw [goTo, exec_bind_error (exec_onDatabase hsearch c)]

/-- **A cursor goes on from the key that it remembers.** -/
theorem exec_step (hc : c.closed = false) (hkey : c.key? = some key) (db : Database) (d : Disk)
    (search : Bytes → Action Engine (Option (Bytes × Bytes))) :
    (step search).exec (c, db) d = (goTo (search key) .eof).exec (c, db) d := by
  rw [step, exec_bind_ok (exec_ensureOpen hc db d), exec_bind, exec_self]
  dsimp only
  rw [key?] at hkey
  cases hp : c.position with
  | «at» k v =>
      rw [hp] at hkey
      cases hkey
      rfl
  | detached k =>
      rw [hp] at hkey
      cases hkey
      rfl
  | unplaced => simp [hp] at hkey
  | eof => simp [hp] at hkey

/-- Without a key it does not move. -/
theorem exec_step_none (hc : c.closed = false) (hkey : c.key? = none) (db : Database) (d : Disk)
    (search : Bytes → Action Engine (Option (Bytes × Bytes))) :
    ∃ error, (step search).exec (c, db) d = (.error error, (c, db), d) := by
  rw [step, exec_bind_ok (exec_ensureOpen hc db d), exec_bind, exec_self]
  dsimp only
  rw [key?] at hkey
  cases hp : c.position with
  | «at» k v => simp [hp] at hkey
  | detached k => simp [hp] at hkey
  | unplaced => exact ⟨_, rfl⟩
  | eof => exact ⟨_, rfl⟩

/-! ## The current record -/

/-- The cursor after a look for its record. -/
def refreshed (c : Cursor) (key : Bytes) : Option Bytes → Cursor
  | some now => { c with position := .at key now }
  | none => { c with position := .detached key }

variable [Codec]

theorem exec_refresh (hp : c.position = .at key value) {now : Option Bytes}
    (h : (find key).exec db d = (.ok now, db', d')) :
    refresh.exec (c, db) d = (.ok (), (c.refreshed key now, db'), d') := by
  rw [refresh, exec_bind, exec_self]
  dsimp only
  rw [hp]
  dsimp only
  rw [exec_bind_ok (exec_onDatabase h c)]
  cases now <;> rfl

theorem exec_refresh_error (hp : c.position = .at key value)
    (h : (find key).exec db d = (.error error, db', d')) :
    refresh.exec (c, db) d = (.error error, (c, db'), d') := by
  rw [refresh, exec_bind, exec_self]
  dsimp only
  rw [hp]
  dsimp only
  rw [exec_bind_error (exec_onDatabase h c)]

/-- Where there is no record there is nothing to be looked for. -/
theorem exec_refresh_none (hp : ∀ key value, c.position ≠ .at key value) (db : Database)
    (d : Disk) : refresh.exec (c, db) d = (.ok (), (c, db), d) := by
  rw [refresh, exec_bind, exec_self]
  dsimp only
  cases hpos : c.position with
  | «at» key value => exact absurd hpos (hp key value)
  | unplaced => rfl
  | detached key => rfl
  | eof => rfl

/-- **The record is read anew**: its value is the one that is stored now. -/
theorem exec_entry (hc : c.closed = false) (hp : c.position = .at key value) {now : Bytes}
    (h : (find key).exec db d = (.ok (some now), db', d')) :
    entry.exec (c, db) d = (.ok (key, now), ({ c with position := .at key now }, db'), d') := by
  rw [entry, exec_bind_ok (exec_ensureOpen hc db d), exec_bind_ok (exec_refresh hp h)]
  rfl

/-- If the record is gone the cursor is detached. -/
theorem exec_entry_lost (hc : c.closed = false) (hp : c.position = .at key value)
    (h : (find key).exec db d = (.ok none, db', d')) :
    entry.exec (c, db) d = (.error (.invalidState "record under cursor was deleted"),
      ({ c with position := .detached key }, db'), d') := by
  rw [entry, exec_bind_ok (exec_ensureOpen hc db d), exec_bind_ok (exec_refresh hp h)]
  rfl

theorem exec_entry_error (hc : c.closed = false) (hp : c.position = .at key value)
    (h : (find key).exec db d = (.error error, db', d')) :
    entry.exec (c, db) d = (.error error, (c, db'), d') := by
  rw [entry, exec_bind_ok (exec_ensureOpen hc db d), exec_bind_error (exec_refresh_error hp h)]

/-- Where there is no record there is nothing to be read. -/
theorem exec_entry_none (hc : c.closed = false) (hp : ∀ key value, c.position ≠ .at key value)
    (db : Database) (d : Disk) :
    entry.exec (c, db) d = (.error (noRecord c.position), (c, db), d) := by
  rw [entry, exec_bind_ok (exec_ensureOpen hc db d), exec_bind_ok (exec_refresh_none hp db d),
    exec_bind, exec_self]
  dsimp only
  cases hpos : c.position with
  | «at» key value => exact absurd hpos (hp key value)
  | unplaced => rfl
  | detached key => rfl
  | eof => rfl

/-! ## Taking the record away -/

/-- The cursor after it has taken its record away, or has found that it was gone before. -/
def removed (c : Cursor) (key : Bytes) : Option (Option (Bytes × Bytes)) → Cursor
  | some next => c.moved next
  | none => { c with position := .detached key }

/-- How that ends. -/
def removal : Option (Option (Bytes × Bytes)) → Except Error Unit
  | some _ => .ok ()
  | none => .error (.invalidState "record under cursor was deleted")

/-- **Taking the record away** leads to the record after it. -/
theorem exec_delete (hc : c.closed = false) (hp : c.position = .at key value)
    {next : Option (Option (Bytes × Bytes))}
    (h : (mutate (takeOut key)).exec db d = (.ok next, db', d')) :
    delete.exec (c, db) d = (removal next, (c.removed key next, db'), d') := by
  rw [delete, exec_bind_ok (exec_ensureOpen hc db d), exec_bind, exec_self]
  dsimp only
  rw [hp]
  dsimp only
  rw [exec_bind_ok (exec_onDatabase h c)]
  cases next with
  | none => rfl
  | some next => cases next <;> rfl

theorem exec_delete_error (hc : c.closed = false) (hp : c.position = .at key value)
    (h : (mutate (takeOut key)).exec db d = (.error error, db', d')) :
    delete.exec (c, db) d = (.error error, (c, db'), d') := by
  rw [delete, exec_bind_ok (exec_ensureOpen hc db d), exec_bind, exec_self]
  dsimp only
  rw [hp]
  dsimp only
  rw [exec_bind_error (exec_onDatabase h c)]

theorem exec_delete_none (hc : c.closed = false) (hp : ∀ key value, c.position ≠ .at key value)
    (db : Database) (d : Disk) :
    delete.exec (c, db) d = (.error (noRecord c.position), (c, db), d) := by
  rw [delete, exec_bind_ok (exec_ensureOpen hc db d), exec_bind, exec_self]
  dsimp only
  cases hpos : c.position with
  | «at» key value => exact absurd hpos (hp key value)
  | unplaced => rfl
  | detached key => rfl
  | eof => rfl

end

end PagedStore.Cursor
