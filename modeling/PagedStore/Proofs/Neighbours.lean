import PagedStore.Proofs.Contents

/-!
# Neighbours in either direction

Records are gone through on the way up, from the least key on, or on the way down. What holds of the
one way holds of the other with the order turned round, so both are told at once: `Precedes` is the
order of the way, and `IsNearest` the record that comes first on it.
-/

set_option autoImplicit false

namespace PagedStore

/-- One key stands before another on the way up, or on the way down. -/
def Precedes (up : Bool) (a b : Bytes) : Prop := if up then KeyLt a b else KeyLt b a

namespace Precedes

variable {up : Bool} {a b c : Bytes}

theorem trans (h : Precedes up a b) (h' : Precedes up b c) : Precedes up a c := by
  cases up with
  | true => exact KeyLt.trans h h'
  | false => exact KeyLt.trans h' h

theorem irrefl (up : Bool) (a : Bytes) : ¬ Precedes up a a := by
  cases up <;> exact KeyLt.irrefl a

theorem ne (h : Precedes up a b) : a ≠ b := by
  rintro rfl
  exact irrefl up a h

theorem asymm (h : Precedes up a b) : ¬ Precedes up b a := fun h' => irrefl up a (h.trans h')

theorem trichotomy (up : Bool) (a b : Bytes) : Precedes up a b ∨ a = b ∨ Precedes up b a := by
  cases up with
  | true => exact KeyLt.trichotomy a b
  | false => exact (KeyLt.trichotomy b a).imp_right fun h => h.imp_left Eq.symm

end Precedes

namespace Contents

variable (m : Contents)

/-- The record that comes first among those of whose keys `P` holds; nothing exactly if there is
none. -/
def IsNearest (up : Bool) (P : Bytes → Prop) : Option (Bytes × Bytes) → Prop
  | none => ∀ k v, m[k]? = some v → ¬ P k
  | some (k, v) => m[k]? = some v ∧ P k ∧ ∀ k' v', m[k']? = some v' → P k' → ¬ Precedes up k' k

variable {m} {up : Bool} {P : Bytes → Prop} {r r' : Option (Bytes × Bytes)}

theorem IsLeast.isNearest (h : m.IsLeast P r) : m.IsNearest true P r := by
  cases r <;> exact h

theorem IsGreatest.isNearest (h : m.IsGreatest P r) : m.IsNearest false P r := by
  cases r <;> exact h

theorem IsNearest.unique (h : m.IsNearest up P r) (h' : m.IsNearest up P r') : r = r' := by
  cases r with
  | none =>
      cases r' with
      | none => rfl
      | some b => exact absurd h'.2.1 (h _ _ h'.1)
  | some a =>
      cases r' with
      | none => exact absurd h.2.1 (h' _ _ h.1)
      | some b =>
          obtain ⟨hmem, hP, hfirst⟩ := h
          obtain ⟨hmem', hP', hfirst'⟩ := h'
          rcases Precedes.trichotomy up a.1 b.1 with hlt | heq | hlt
          · exact absurd hlt (hfirst' _ _ hmem hP)
          · rw [heq, hmem'] at hmem
            exact congrArg some (Prod.ext heq (Option.some.inj hmem).symm)
          · exact absurd hlt (hfirst _ _ hmem' hP')

/-- Beyond a key there is nearest what was so before the key was taken away. -/
theorem IsNearest.erase {k : Bytes} (h : m.IsNearest up (Precedes up k) r) :
    Contents.IsNearest (m.erase k) up (Precedes up k) r := by
  have hkept : ∀ {j}, Precedes up k j → (m.erase k)[j]? = m[j]? := by
    intro j hlt
    rw [Std.ExtTreeMap.getElem?_erase, if_neg]
    exact fun heq => hlt.ne (compare_eq_eq.1 heq)
  cases r with
  | none => exact fun j v hj hlt => h j v ((hkept hlt).symm.trans hj) hlt
  | some r =>
      obtain ⟨hin, hnext, hfirst⟩ := h
      exact ⟨(hkept hnext).trans hin, hnext,
        fun j v hj hlt => hfirst j v ((hkept hlt).symm.trans hj) hlt⟩

/-- Of a list of the records in question, in the order of the way, the first one is the nearest. -/
theorem isNearest_head? {rs : List (Bytes × Bytes)}
    (hrs : ∀ r, r ∈ rs ↔ m[r.1]? = some r.2 ∧ P r.1)
    (hordered : rs.Pairwise fun a b => Precedes up a.1 b.1) : m.IsNearest up P rs.head? := by
  cases rs with
  | nil => exact fun k v hk hP => absurd ((hrs (k, v)).2 ⟨hk, hP⟩) List.not_mem_nil
  | cons r rs =>
      obtain ⟨hmem, hP⟩ := (hrs r).1 List.mem_cons_self
      refine ⟨hmem, hP, fun k v hk hPk => ?_⟩
      rcases List.mem_cons.1 ((hrs (k, v)).2 ⟨hk, hPk⟩) with rfl | hin
      · exact Precedes.irrefl up k
      · exact ((List.pairwise_cons.1 hordered).1 _ hin).asymm

/-- The way begins at an end of the list. -/
theorem isNearest_end (up : Bool) :
    m.IsNearest up (fun _ => True) (if up then m.toList.head? else m.toList.getLast?) := by
  cases up with
  | true => exact isNearest_head? (fun r => by simp [mem_toList]) m.inKeyOrder_toList
  | false =>
      rw [if_neg Bool.false_ne_true, ← List.head?_reverse]
      exact isNearest_head? (fun r => by simp [mem_toList])
        (List.pairwise_reverse.2 m.inKeyOrder_toList)

/-- It goes on, from a key that may be there or not, beside the cut that the key makes. -/
theorem isNearest_of_parted {k : Bytes} {lower upper : List (Bytes × Bytes)}
    {same : Option (Bytes × Bytes)} (h : Parted Prod.fst k m.toList lower same upper) (up : Bool) :
    m.IsNearest up (Precedes up k) (if up then upper.head? else lower.getLast?) := by
  have hordered := m.inKeyOrder_toList
  rw [h.eq] at hordered
  obtain ⟨hlower, hrest, -⟩ := List.pairwise_append.1 hordered
  obtain ⟨-, hupper, -⟩ := List.pairwise_append.1 hrest
  -- A record stands on one side of the cut only.
  have hside : ∀ r, m[r.1]? = some r.2 → r ∈ lower ∨ r.1 = k ∨ r ∈ upper := by
    intro r hr
    rcases h.mem_iff.1 (mem_toList.2 hr) with hl | hs | hu
    · exact .inl hl
    · exact .inr (.inl (h.at_key r hs))
    · exact .inr (.inr hu)
  cases up with
  | true =>
      refine isNearest_head? (fun r => ⟨fun hr => ?_, ?_⟩) hupper
      · exact ⟨mem_toList.1 (h.mem_iff.2 (.inr (.inr hr))), h.above r hr⟩
      · rintro ⟨hr, hlt⟩
        rcases hside r hr with hl | heq | hu
        · exact absurd hlt (KeyLt.asymm (h.below r hl))
        · exact absurd hlt (heq ▸ KeyLt.irrefl r.1)
        · exact hu
  | false =>
      rw [if_neg Bool.false_ne_true, ← List.head?_reverse]
      refine isNearest_head? (fun r => ⟨fun hr => ?_, ?_⟩) (List.pairwise_reverse.2 hlower)
      · have hl := List.mem_reverse.1 hr
        exact ⟨mem_toList.1 (h.mem_iff.2 (.inl hl)), h.below r hl⟩
      · rintro ⟨hr, hlt⟩
        rcases hside r hr with hl | heq | hu
        · exact List.mem_reverse.2 hl
        · exact absurd hlt (heq ▸ KeyLt.irrefl r.1)
        · exact absurd hlt (KeyLt.asymm (h.above r hu))

end Contents

end PagedStore
