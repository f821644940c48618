import PagedStore.Proofs.TreeRecords

/-!
# Questions to a tree of records

The value of a key, the first and the last record and the neighbours of a key are those of the map
that the file stores. Nothing that can be seen of the file changes.
-/

set_option autoImplicit false

namespace PagedStore.Tree

open PagedStore.Action Pager

/-! ## Searches of a list -/

section

variable {α : Type} {key : α → Bytes} {x : Bytes} {xs lower upper : List α} {same : Option α}

theorem find?_of_parted (h : Parted key x xs lower same upper) :
    (xs.find? fun a => decide (key a = x)) = same := by
  have hlower : (lower.find? fun a => decide (key a = x)) = none :=
    List.find?_eq_none.2 fun a ha => by simpa using (h.below a ha).ne
  have hupper : (upper.find? fun a => decide (key a = x)) = none :=
    List.find?_eq_none.2 fun a ha => by simpa using (h.above a ha).ne.symm
  rw [h.eq, List.find?_append, List.find?_append, hlower, hupper]
  cases same with
  | none => rfl
  | some a => simp [h.at_key a rfl]

theorem find?_true (xs : List α) : (xs.find? fun _ => true) = xs.head? := by
  cases xs <;> rfl

end

section

variable {bound k : Bytes}

theorem below_true : below bound true k = true ↔ ¬ KeyLt bound k := by
  rw [below, if_pos rfl, compare_isLE]

theorem below_false : below bound false k = true ↔ KeyLt k bound := by
  rw [below, if_neg Bool.false_ne_true, beq_iff_eq, compare_eq_lt]

end

/-! ## The operations -/

section

variable {f : Face} {m : Contents} {E : Error → Prop}

variable [Codec]

/-- **The value of a key** is that of the map. -/
theorem does_get (h : Stores f m) (key : Bytes) :
    Does f (get key) E fun r g => g = f ∧ r = m[key]? := by
  have hfound : (m.toList.find? fun r => decide (r.1 = key)).map Prod.snd = m[key]? := by
    obtain ⟨lower, same, upper, hp⟩ := Parted.exists_of_inKeyOrder m.inKeyOrder_toList key
    rw [Contents.getElem?_of_parted hp, find?_of_parted hp]
  refine .bind (does_fromRoot_find? (q := fun k => decide (k = key)) h fun ht hf => ?_) ?_
  · refine (does_lookupFrom key ht hf).post ?_
    rintro r g ⟨rfl, lower, upper, hp⟩
    exact ⟨rfl, (find?_of_parted hp).symm⟩
  · rintro r g ⟨rfl, rfl⟩
    exact .pure ⟨rfl, hfound⟩

/-- **The first record** has the least key. -/
theorem does_first (h : Stores f m) :
    Does f first E fun r g => g = f ∧ m.IsLeast (fun _ => True) r := by
  refine (does_fromRoot_find? (q := fun _ => true) h fun ht hf => ?_).post ?_
  · simp only [find?_true]
    exact does_firstFrom ht hf
  · rintro r g ⟨rfl, rfl⟩
    exact ⟨rfl, Contents.isLeast_find? (p := fun _ => true) fun _ => by simp⟩

/-- **The last record** has the greatest key. -/
theorem does_last (h : Stores f m) :
    Does f last E fun r g => g = f ∧ m.IsGreatest (fun _ => True) r := by
  refine (does_fromRoot_reverse (q := fun _ => true) h fun ht hf => ?_).post ?_
  · simp only [find?_true, List.head?_reverse]
    exact does_lastFrom ht hf
  · rintro r g ⟨rfl, rfl⟩
    exact ⟨rfl, Contents.isGreatest_find? (p := fun _ => true) fun _ => by simp⟩

theorem does_fromRoot_ceilAt (h : Stores f m) (bound : Bytes) (strict : Bool) :
    Does f (fromRoot (ceilAt bound strict)) E fun r g =>
      g = f ∧ r = m.toList.find? fun r => !below bound strict r.1 :=
  does_fromRoot_find? (q := fun k => !below bound strict k) h
    fun ht hf => does_ceilFrom bound strict ht hf hf

theorem does_fromRoot_floorAt (h : Stores f m) (bound : Bytes) (strict : Bool) :
    Does f (fromRoot (floorAt bound strict)) E fun r g =>
      g = f ∧ r = m.toList.reverse.find? fun r => below bound (!strict) r.1 :=
  does_fromRoot_reverse (q := fun k => below bound (!strict) k) h
    fun ht hf => does_floorFrom bound strict ht hf hf

/-- **The next record** has the least key that is greater. -/
theorem does_next (h : Stores f m) (key : Bytes) :
    Does f (next key) E fun r g => g = f ∧ m.IsLeast (KeyLt key) r := by
  refine (does_fromRoot_ceilAt h key true).post ?_
  rintro r g ⟨rfl, rfl⟩
  refine ⟨rfl, Contents.isLeast_find? (p := fun k => !below key true k) fun k => ?_⟩
  rw [Bool.not_eq_true', ← Bool.not_eq_true, below_true, not_not]

/-- **The previous record** has the greatest key that is less. -/
theorem does_prev (h : Stores f m) (key : Bytes) :
    Does f (prev key) E fun r g => g = f ∧ m.IsGreatest (fun k => KeyLt k key) r := by
  refine (does_fromRoot_floorAt h key true).post ?_
  rintro r g ⟨rfl, rfl⟩
  exact ⟨rfl, Contents.isGreatest_find? (p := below key false) fun k => below_false⟩

/-- What a key and a mode mean in a map. -/
def IsSought (m : Contents) (key : Bytes) : SeekMode → Option (Bytes × Bytes) → Prop
  | .exact, r => r = m[key]?.map fun value => (key, value)
  | .atMost, r => m.IsGreatest (fun k => ¬ KeyLt key k) r
  | .atLeast, r => m.IsLeast (fun k => ¬ KeyLt k key) r

/-- **Seeking** finds the record that the key and the mode mean. -/
theorem does_seek (h : Stores f m) (key : Bytes) (mode : SeekMode) :
    Does f (seek key mode) E fun r g => g = f ∧ IsSought m key mode r := by
  cases mode with
  | exact =>
      refine .bind (does_get h key) ?_
      rintro r g ⟨rfl, rfl⟩
      exact .pure ⟨rfl, rfl⟩
  | atMost =>
      refine (does_fromRoot_floorAt h key false).post ?_
      rintro r g ⟨rfl, rfl⟩
      exact ⟨rfl, Contents.isGreatest_find? (p := below key true) fun k => below_true⟩
  | atLeast =>
      refine (does_fromRoot_ceilAt h key false).post ?_
      rintro r g ⟨rfl, rfl⟩
      refine ⟨rfl, Contents.isLeast_find? (p := fun k => !below key false k) fun k => ?_⟩
      rw [Bool.not_eq_true', ← Bool.not_eq_true, below_false]

end

end PagedStore.Tree
