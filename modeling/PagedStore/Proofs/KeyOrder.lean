import Mathlib.Data.List.TakeWhile
import PagedStore.Bytes

/-!
# The order of keys

Keys are compared byte by byte. `KeyLt` is the strict order that the comparison decides, and
`Parted` cuts a list in the order of its keys at some key, which may be there or not: into what
lies below it, the element that has it, and what lies above it. Every operation on an ordered list
of records is described by the three parts.
-/

set_option autoImplicit false

namespace PagedStore

/-- One key stands before another. -/
def KeyLt (a b : Bytes) : Prop := compare a b = .lt

theorem compare_eq_lt {a b : Bytes} : compare a b = .lt ↔ KeyLt a b := Iff.rfl

theorem compare_eq_gt {a b : Bytes} : compare a b = .gt ↔ KeyLt b a := by
  rw [KeyLt, Std.OrientedCmp.gt_iff_lt]

theorem compare_eq_eq {a b : Bytes} : compare a b = .eq ↔ a = b := Std.LawfulEqCmp.compare_eq_iff_eq

theorem compare_isLE {a b : Bytes} : (compare a b).isLE = true ↔ ¬ KeyLt b a := by
  rw [← compare_eq_gt]
  cases compare a b <;> simp

namespace KeyLt

variable {a b c : Bytes}

theorem trans (h₁ : KeyLt a b) (h₂ : KeyLt b c) : KeyLt a c := Std.TransCmp.lt_trans h₁ h₂

theorem irrefl (a : Bytes) : ¬ KeyLt a a := by
  rw [KeyLt, compare_eq_eq.2 rfl]
  decide

theorem asymm (h : KeyLt a b) : ¬ KeyLt b a := fun h' => irrefl a (h.trans h')

theorem ne (h : KeyLt a b) : a ≠ b := fun he => irrefl b (he ▸ h)

/-- Of two keys one stands before the other, or they are the same. -/
theorem trichotomy (a b : Bytes) : KeyLt a b ∨ a = b ∨ KeyLt b a := by
  match h : compare a b with
  | .lt => exact .inl h
  | .eq => exact .inr (.inl (compare_eq_eq.1 h))
  | .gt => exact .inr (.inr (compare_eq_gt.1 h))

theorem trans_not (h₁ : KeyLt a b) (h₂ : ¬ KeyLt c b) : KeyLt a c := by
  rcases trichotomy b c with h | rfl | h
  · exact h₁.trans h
  · exact h₁
  · exact absurd h h₂

theorem not_trans (h₁ : ¬ KeyLt b a) (h₂ : KeyLt b c) : KeyLt a c := by
  rcases trichotomy a b with h | rfl | h
  · exact h.trans h₂
  · exact h₂
  · exact absurd h h₁

end KeyLt

/-! ## Lists in the order of keys -/

section

variable {α : Type} (key : α → Bytes)

/-- Each key stands before all that follow. -/
def InKeyOrder (xs : List α) : Prop := xs.Pairwise fun a b => KeyLt (key a) (key b)

/-- A list cut at a key. -/
structure Parted (x : Bytes) (xs lower : List α) (same : Option α) (upper : List α) : Prop where
  eq : xs = lower ++ (same.toList ++ upper)
  below : ∀ a ∈ lower, KeyLt (key a) x
  at_key : ∀ a ∈ same, key a = x
  above : ∀ a ∈ upper, KeyLt x (key a)

variable {key} {x : Bytes} {xs lower upper : List α} {same : Option α}

theorem Parted.nil (key : α → Bytes) (x : Bytes) : Parted key x [] [] none [] :=
  ⟨rfl, by simp, by simp, by simp⟩

theorem Parted.singleton {a : α} (h : key a = x) : Parted key x [a] [] (some a) [] := by
  refine ⟨rfl, by simp, ?_, by simp⟩
  intro b hb
  obtain rfl := Option.some.inj hb
  exact h

/-- A list in the order of its keys can be cut at every key. -/
theorem Parted.exists_of_inKeyOrder (h : InKeyOrder key xs) (x : Bytes) :
    ∃ lower same upper, Parted key x xs lower same upper := by
  -- The cut is in front of the first element whose key is not less than `x`.
  induction xs with
  | nil => exact ⟨[], none, [], rfl, by simp, by simp, by simp⟩
  | cons a xs ih =>
      obtain ⟨ha, hxs⟩ := List.pairwise_cons.1 h
      rcases KeyLt.trichotomy (key a) x with hlt | heq | hgt
      · obtain ⟨lower, same, upper, hp⟩ := ih hxs
        refine ⟨a :: lower, same, upper, by rw [hp.eq]; rfl, ?_, hp.at_key, hp.above⟩
        intro b hb
        rcases List.mem_cons.1 hb with rfl | hb
        · exact hlt
        · exact hp.below b hb
      · refine ⟨[], some a, xs, rfl, by simp, ?_, fun b hb => heq ▸ ha b hb⟩
        intro b hb
        obtain rfl := Option.mem_some_iff.1 hb
        exact heq
      · refine ⟨[], none, a :: xs, rfl, by simp, by simp, ?_⟩
        intro b hb
        rcases List.mem_cons.1 hb with rfl | hb
        · exact hgt
        · exact hgt.trans (ha b hb)

theorem Parted.mem_iff (h : Parted key x xs lower same upper) {a : α} :
    a ∈ xs ↔ a ∈ lower ∨ a ∈ same ∨ a ∈ upper := by
  rw [h.eq]
  simp only [List.mem_append, Option.mem_toList, Option.mem_def]

/-- A list in the order of its keys is cut at the key of each element. -/
theorem Parted.of_inKeyOrder {a : α} (h : InKeyOrder key (lower ++ a :: upper)) :
    Parted key (key a) (lower ++ a :: upper) lower (some a) upper := by
  obtain ⟨-, hrest, hbelow⟩ := List.pairwise_append.1 h
  refine ⟨rfl, fun b hb => hbelow b hb a List.mem_cons_self, ?_, (List.pairwise_cons.1 hrest).1⟩
  rintro b ⟨⟩
  rfl

/-- Without the element at the cut the list is cut at a key that it does not have. -/
theorem Parted.erased (h : Parted key x xs lower same upper) :
    Parted key x (lower ++ upper) lower none upper :=
  ⟨rfl, h.below, nofun, h.above⟩

/-- What stands around the elements with keys near `x` takes part in the cut. -/
theorem Parted.extend (h : Parted key x xs lower same upper) {before after : List α}
    (hb : ∀ a ∈ before, KeyLt (key a) x) (ha : ∀ a ∈ after, KeyLt x (key a)) :
    Parted key x (before ++ (xs ++ after)) (before ++ lower) same (upper ++ after) where
  eq := by rw [h.eq]; simp only [List.append_assoc]
  below := by
    intro a hm
    rcases List.mem_append.1 hm with hm | hm
    · exact hb a hm
    · exact h.below a hm
  at_key := h.at_key
  above := by
    intro a hm
    rcases List.mem_append.1 hm with hm | hm
    · exact h.above a hm
    · exact ha a hm

/-- An element with the key of the cut may take the place there. -/
theorem Parted.inKeyOrder_insert (h : Parted key x xs lower same upper) (hs : InKeyOrder key xs)
    {a : α} (ha : key a = x) : InKeyOrder key (lower ++ a :: upper) := by
  rw [h.eq] at hs
  obtain ⟨h₁, h₂, -⟩ := List.pairwise_append.1 hs
  obtain ⟨-, h₃, -⟩ := List.pairwise_append.1 h₂
  refine List.pairwise_append.2 ⟨h₁, List.pairwise_cons.2 ⟨fun b hb => ha ▸ h.above b hb, h₃⟩, ?_⟩
  intro b hb c hc
  rcases List.mem_cons.1 hc with rfl | hc
  · rw [ha]
    exact h.below b hb
  · exact (h.below b hb).trans (h.above c hc)

/-- Without the element at the cut the order stays. -/
theorem Parted.inKeyOrder_erase (h : Parted key x xs lower same upper) (hs : InKeyOrder key xs) :
    InKeyOrder key (lower ++ upper) := by
  rw [h.eq] at hs
  obtain ⟨h₁, h₂, h₃⟩ := List.pairwise_append.1 hs
  exact List.pairwise_append.2 ⟨h₁, (List.pairwise_append.1 h₂).2.1,
    fun b hb c hc => h₃ b hb c (List.mem_append_right _ hc)⟩

end

end PagedStore
