import Mathlib.Order.Defs.Unbundled
import PagedStore.Action

/-!
# Running actions

What each way of putting actions together does to the outcome, the state and the disk, and what
can be said of all runs of an action, whether they give a result or fail:

* `Keeps I a`: from states with `I` it leads to states with `I`;
* `Leaves R a`: it leaves the disk alone, and `R` between the states before and after;
* `Respects T a`: from two states with `T` it leads to two states with `T`, with the same result
  and the same disk.

Each of them is closed under sequence and choice, so what holds of the single steps of a program
holds of the whole program.
-/

set_option autoImplicit false

namespace PagedStore.Action

variable {σ τ α β : Type}

/-! ## Outcomes -/

@[simp] theorem exec_pure (x : α) (s : σ) (d : Disk) :
    (pure x : Action σ α).exec s d = (.ok x, s, d) := rfl

@[simp] theorem exec_throw (e : Error) (s : σ) (d : Disk) :
    (throw e : Action σ α).exec s d = (.error e, s, d) := rfl

@[simp] theorem exec_self (s : σ) (d : Disk) : (self : Action σ σ).exec s d = (.ok s, s, d) := rfl

@[simp] theorem exec_disk (s : σ) (d : Disk) : (disk : Action σ Disk).exec s d = (.ok d, s, d) :=
  rfl

@[simp] theorem exec_update (f : σ → σ) (s : σ) (d : Disk) :
    (update f).exec s d = (.ok (), f s, d) := rfl

@[simp] theorem exec_updateDisk (f : Disk → Disk) (s : σ) (d : Disk) :
    (updateDisk f : Action σ Unit).exec s d = (.ok (), s, f d) := rfl

@[simp] theorem exec_ofResult (r : Except Error α) (s : σ) (d : Disk) :
    (ofResult r : Action σ α).exec s d = (r, s, d) := rfl

@[simp] theorem exec_attempt (a : Action σ α) (s : σ) (d : Disk) :
    (attempt a).exec s d = (.ok (a.exec s d).1, (a.exec s d).2) := rfl

@[simp] theorem exec_alone (a : Action σ α) (s : σ) (t : τ) (d : Disk) :
    (alone a s : Action τ _).exec t d =
      (.ok ((a.exec s d).1, (a.exec s d).2.1), t, (a.exec s d).2.2) := rfl

@[simp] theorem exec_zoom (get : τ → σ) (put : σ → τ → τ) (a : Action σ α) (t : τ) (d : Disk) :
    (zoom get put a).exec t d =
      ((a.exec (get t) d).1, put (a.exec (get t) d).2.1 t, (a.exec (get t) d).2.2) := rfl

/-- What follows a first action: the next one after a result, nothing after a failure. -/
theorem exec_bind (a : Action σ α) (k : α → Action σ β) (s : σ) (d : Disk) :
    (a >>= k).exec s d =
      match a.exec s d with
      | (.ok x, s', d') => (k x).exec s' d'
      | (.error e, s', d') => (.error e, s', d') := by
  show ((a >>= k).run.run (s, d)) = _
  rw [ExceptT.run_bind, StateT.run_bind]
  show (do let p ← a.run.run (s, d); _) = _
  simp only [exec]
  cases h : a.run.run (s, d) with
  | mk r sd => cases r <;> rfl

theorem exec_bind_ok {a : Action σ α} {k : α → Action σ β} {s s' : σ} {d d' : Disk} {x : α}
    (h : a.exec s d = (.ok x, s', d')) : (a >>= k).exec s d = (k x).exec s' d' := by
  rw [exec_bind, h]

/-- An action that does not stop at a check of its own has an outcome. -/
theorem exec_outcome {a : Action σ α} {s : σ} {d : Disk} (h : (a.exec s d).1 ≠ .error .panicked) :
    (outcome a).exec s d = (.ok (a.exec s d).1, (a.exec s d).2) := by
  unfold outcome
  rw [exec_bind_ok (exec_attempt a s d)]
  split
  · rename_i hpanicked
    exact absurd hpanicked h
  · rfl

theorem exec_bind_error {a : Action σ α} {k : α → Action σ β} {s s' : σ} {d d' : Disk} {e : Error}
    (h : a.exec s d = (.error e, s', d')) : (a >>= k).exec s d = (.error e, s', d') := by
  rw [exec_bind, h]

/-- What an action gives may be put in other words. -/
theorem exec_bind_pure {a : Action σ α} {s s' : σ} {d d' : Disk} {r : Except Error α}
    (h : a.exec s d = (r, s', d')) (f : α → β) :
    (a >>= fun x => pure (f x)).exec s d = (r.map f, s', d') := by
  rw [exec_bind, h]
  cases r <;> rfl

/-- What is put in other words succeeds as it did before. -/
theorem exec_bind_pure_ok_iff {a : Action σ α} {f : α → β} {s : σ} {d : Disk} {y : β} :
    ((a >>= fun x => pure (f x)).exec s d).1 = .ok y ↔ ∃ x, (a.exec s d).1 = .ok x ∧ f x = y := by
  have hout : a.exec s d = ((a.exec s d).1, (a.exec s d).2.1, (a.exec s d).2.2) := rfl
  rw [exec_bind_pure hout]
  cases (a.exec s d).1 with
  | error e => simp [Except.map]
  | ok x => simp [Except.map]

/-- A sequence gives a result only if its first action does. -/
theorem of_exec_bind_ok {a : Action σ α} {k : α → Action σ β} {s t : σ} {d e : Disk} {y : β}
    (h : (a >>= k).exec s d = (.ok y, t, e)) :
    ∃ x s' d', a.exec s d = (.ok x, s', d') ∧ (k x).exec s' d' = (.ok y, t, e) := by
  rw [exec_bind] at h
  match ha : a.exec s d with
  | (.ok x, s', d') =>
      rw [ha] at h
      exact ⟨x, s', d', rfl, h⟩
  | (.error e, s', d') =>
      rw [ha] at h
      cases h

theorem exec_ok_inj {x y : α} {s t : σ} {d e : Disk}
    (h : ((.ok x, s, d) : Except Error α × σ × Disk) = (.ok y, t, e)) : x = y ∧ s = t ∧ d = e := by
  cases h
  exact ⟨rfl, rfl, rfl⟩

/-- What is put in other words fails as it failed before. -/
theorem of_exec_bind_pure_error {a : Action σ α} {f : α → β} {s t : σ} {d e : Disk} {error : Error}
    (h : (a >>= fun x => pure (f x)).exec s d = (.error error, t, e)) :
    a.exec s d = (.error error, t, e) := by
  rw [exec_bind] at h
  match ha : a.exec s d with
  | (.ok x, s', d') =>
      rw [ha] at h
      cases h
  | (.error e', s', d') =>
      rw [ha] at h
      cases h
      rfl

/-- A sequence that ends with a value gives that value or none. -/
theorem eq_of_exec_bind_pure {a : Action σ α} {s t : σ} {d e : Disk} {x y : β}
    (h : (a >>= fun _ => pure y).exec s d = (.ok x, t, e)) : x = y := by
  obtain ⟨_, _, _, -, h⟩ := of_exec_bind_ok h
  exact (exec_ok_inj h).1.symm

/-! ## Invariants -/

/-- From states with `I` the action leads to states with `I`, also when it fails. -/
def Keeps (I : σ → Disk → Prop) (a : Action σ α) : Prop :=
  ∀ s d, I s d → I (a.exec s d).2.1 (a.exec s d).2.2

namespace Keeps

variable {I : σ → Disk → Prop}

theorem pure (x : α) : Keeps I (pure x : Action σ α) := fun _ _ h => h

theorem ofResult (r : Except Error α) : Keeps I (ofResult r : Action σ α) := fun _ _ h => h

theorem throw (e : Error) : Keeps I (throw e : Action σ α) := ofResult (.error e)

/-- What stands behind a failure is never reached. -/
theorem throw_bind (e : Error) (k : α → Action σ β) : Keeps I (MonadExcept.throw e >>= k) :=
  fun _ _ h => h

theorem update {f : σ → σ} (hf : ∀ s d, I s d → I (f s) d) : Keeps I (update f) :=
  fun s d h => hf s d h

theorem attempt {a : Action σ α} (ha : Keeps I a) : Keeps I (attempt a) := fun s d h => ha s d h

theorem self_bind {k : σ → Action σ β} (hk : ∀ s, Keeps I (k s)) : Keeps I (self >>= k) :=
  fun s d h => hk s s d h

/-- What holds of a part is kept when the action works on that part. -/
theorem zoom {a : Action σ α} (ha : Keeps I a) {get : τ → σ} {put : σ → τ → τ}
    (hput : ∀ s t, get (put s t) = s) : Keeps (fun t d => I (get t) d) (zoom get put a) := by
  intro t d h
  show I (get (put (a.exec (get t) d).2.1 t)) _
  rw [hput]
  exact ha _ _ h

theorem bind {a : Action σ α} {k : α → Action σ β} (ha : Keeps I a) (hk : ∀ x, Keeps I (k x)) :
    Keeps I (a >>= k) := by
  intro s d hI
  have hI' := ha s d hI
  rw [exec_bind]
  match hr : a.exec s d with
  | (.ok x, s', d') =>
      rw [hr] at hI'
      exact hk x s' d' hI'
  | (.error e, s', d') =>
      rw [hr] at hI'
      exact hI'

theorem outcome {a : Action σ α} (ha : Keeps I a) : Keeps I (outcome a) := by
  refine .bind ha.attempt fun r => ?_
  split
  · exact .throw _
  · exact .ofResult (.ok _)

end Keeps

/-! ## What is left between two states -/

/-- The action leaves the disk alone, and `R` between the states before it and after it. -/
def Leaves (R : σ → σ → Prop) (a : Action σ α) : Prop :=
  ∀ s d, R s (a.exec s d).2.1 ∧ (a.exec s d).2.2 = d

namespace Leaves

variable {R : σ → σ → Prop} {a : Action σ α}

theorem mono {R' : σ → σ → Prop} (h : Leaves R a) (hR : ∀ s t, R s t → R' s t) :
    Leaves R' a := fun s d => ⟨hR _ _ (h s d).1, (h s d).2⟩

theorem of_exec (h : Leaves R a) {s t : σ} {d d' : Disk} {r : Except Error α}
    (hexec : a.exec s d = (r, t, d')) : R s t ∧ d' = d := by
  have hleft := h s d
  rw [hexec] at hleft
  exact hleft

/-- What `R` carries over is an invariant. -/
theorem keeps (h : Leaves R a) {I : σ → Prop} (hI : ∀ s t, R s t → I s → I t) :
    Keeps (fun s _ => I s) a := fun s d hs => hI _ _ (h s d).1 hs

theorem update {f : σ → σ} (hf : ∀ s, R s (f s)) : Leaves R (update f) := fun s _ => ⟨hf s, rfl⟩

theorem self_bind {k : σ → Action σ β} (hk : ∀ s, Leaves R (k s)) : Leaves R (self >>= k) :=
  fun s d => hk s s d

theorem disk_bind {k : Disk → Action σ β} (hk : ∀ d, Leaves R (k d)) : Leaves R (disk >>= k) :=
  fun s d => hk d s d

variable [IsPreorder σ R]

theorem ofResult (r : Except Error α) : Leaves R (ofResult r) := fun s _ => ⟨refl s, rfl⟩

theorem bind {k : α → Action σ β} (ha : Leaves R a) (hk : ∀ x, Leaves R (k x)) :
    Leaves R (a >>= k) := by
  intro s d
  have hfirst := ha s d
  rw [exec_bind]
  match hexec : a.exec s d with
  | (.error e, t, d') =>
      rw [hexec] at hfirst
      exact hfirst
  | (.ok x, t, d') =>
      rw [hexec] at hfirst
      obtain ⟨ht, rfl⟩ := hfirst
      obtain ⟨hr, hd⟩ := hk x t d'
      exact ⟨IsTrans.trans _ _ _ ht hr, hd⟩

end Leaves

/-! ## Two runs side by side -/

/-- Two actions lead from two states to two states with `T`, with the same result and the same
disk. -/
def Together (T : Disk → σ → σ → Prop) (d : Disk) (s t : σ) (a b : Action σ α) : Prop :=
  ∃ r s' t' d', a.exec s d = (r, s', d') ∧ b.exec t d = (r, t', d') ∧ T d' s' t'

/-- From states with `T` the action leads to states with `T`, with the same result and the same
disk. -/
def Respects (T : Disk → σ → σ → Prop) (a : Action σ α) : Prop :=
  ∀ d s t, T d s t → Together T d s t a a

section

variable {T : Disk → σ → σ → Prop} {d : Disk} {s t : σ}

namespace Together

theorem ofResult (h : T d s t) (r : Except Error α) :
    Together T d s t (ofResult r) (ofResult r) := ⟨r, s, t, d, rfl, rfl, h⟩

theorem update {f g : σ → σ} (h : T d (f s) (g t)) : Together T d s t (update f) (update g) :=
  ⟨.ok (), f s, g t, d, rfl, rfl, h⟩

theorem bind {a b : Action σ α} {k l : α → Action σ β} (h : Together T d s t a b)
    (hk : ∀ x d' s' t', T d' s' t' → Together T d' s' t' (k x) (l x)) :
    Together T d s t (a >>= k) (b >>= l) := by
  obtain ⟨r, s', t', d', ha, hb, ht⟩ := h
  cases r with
  | error e => exact ⟨_, s', t', d', exec_bind_error ha, exec_bind_error hb, ht⟩
  | ok x =>
      obtain ⟨r', s'', t'', d'', ha', hb', ht'⟩ := hk x d' s' t' ht
      exact ⟨r', s'', t'', d'', (exec_bind_ok ha).trans ha', (exec_bind_ok hb).trans hb', ht'⟩

end Together

namespace Respects

theorem ofResult (r : Except Error α) : Respects T (ofResult r) := fun _ _ _ h => .ofResult h r

theorem pure (x : α) : Respects T (pure x : Action σ α) := ofResult (.ok x)

theorem throw (e : Error) : Respects T (throw e : Action σ α) := ofResult (.error e)

theorem update {f : σ → σ} (hf : ∀ {d s t}, T d s t → T d (f s) (f t)) : Respects T (update f) :=
  fun _ _ _ h => .update (hf h)

theorem bind {a : Action σ α} {k : α → Action σ β} (ha : Respects T a)
    (hk : ∀ x, Respects T (k x)) : Respects T (a >>= k) := fun d s t h =>
  (ha d s t h).bind fun x => hk x

theorem attempt {a : Action σ α} (ha : Respects T a) : Respects T (attempt a) := by
  intro d s t h
  obtain ⟨r, s', t', d', hs, ht, hT⟩ := ha d s t h
  refine ⟨.ok r, s', t', d', ?_, ?_, hT⟩
  · rw [exec_attempt, hs]
  · rw [exec_attempt, ht]

end Respects

end

end PagedStore.Action
