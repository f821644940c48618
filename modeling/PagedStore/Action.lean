import PagedStore.Disk

/-!
# Actions

An action works on a state of its own and on the disk and either gives a result or fails. What it
had done before it failed stays done: nothing is taken back but by those who say so.
-/

set_option autoImplicit false

namespace PagedStore

/-- An operation on a state `σ` and the disk. -/
abbrev Action (σ : Type) := ExceptT Error (StateM (σ × Disk))

namespace Action

variable {σ τ α : Type}

/-- The state. -/
@[inline] def self : Action σ σ := do return (← getThe (σ × Disk)).1

/-- The disk. -/
@[inline] def disk : Action σ Disk := do return (← getThe (σ × Disk)).2

/-- Changes the state. -/
@[inline] def update (f : σ → σ) : Action σ Unit :=
  modifyThe (σ × Disk) fun (s, d) => (f s, d)

/-- Changes the disk. -/
@[inline] def updateDisk (f : Disk → Disk) : Action σ Unit :=
  modifyThe (σ × Disk) fun (s, d) => (s, f d)

/-- Runs an action from a state and a disk. -/
@[inline] def exec (a : Action σ α) (s : σ) (d : Disk) : Except Error α × σ × Disk :=
  a.run.run (s, d)

/-- An action on a part of the state. -/
@[inline] def zoom (get : τ → σ) (put : σ → τ → τ) (a : Action σ α) : Action τ α :=
  fun (t, d) =>
    match a.exec (get t) d with
    | (r, s, d) => (r, put s t, d)

/-- Runs an action on a state of its own, which is given back with the outcome. -/
@[inline] def alone (a : Action σ α) (s : σ) : Action τ (Except Error α × σ) :=
  fun (t, d) =>
    match a.exec s d with
    | (r, s, d) => (.ok (r, s), t, d)

/-- Gives the outcome of an action without failing. -/
@[inline] def attempt (a : Action σ α) : Action σ (Except Error α) :=
  fun sd =>
    match a.run.run sd with
    | (r, sd) => (.ok r, sd)

/-- Gives the outcome of an action. One that stopped at a check of its own has none, and stops
whoever waits for it. -/
@[inline] def outcome (a : Action σ α) : Action σ (Except Error α) := do
  match ← attempt a with
  | .error .panicked => throw .panicked
  | r => return r

/-- Takes over an outcome. -/
@[inline] def ofResult (r : Except Error α) : Action σ α := ExceptT.mk (pure r)

end Action

end PagedStore
