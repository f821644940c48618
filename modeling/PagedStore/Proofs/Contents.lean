import Mathlib.Data.List.Sort
import PagedStore.Proofs.KeyOrder
import Std.Data.ExtTreeMap

/-!
# Records as a map

What a file holds, seen from outside, is a map from keys to values. The records in the order of
their keys determine the map, so the operations on the map are operations on that list: putting and
erasing act at the cut that the key makes, and the neighbours of a key are found by a search from
one end.
-/

set_option autoImplicit false

namespace PagedStore

/-- The records of a file. -/
abbrev Contents := Std.ExtTreeMap Bytes Bytes

/-- A list in the order of its keys is determined by its elements. -/
theorem InKeyOrder.eq_of_mem_iff {α : Type} {key : α → Bytes} {xs ys : List α}
    (hx : InKeyOrder key xs) (hy : InKeyOrder key ys) (h : ∀ a, a ∈ xs ↔ a ∈ ys) : xs = ys := by
  have : Std.Irrefl fun a b => KeyLt (key a) (key b) := ⟨fun a => KeyLt.irrefl (key a)⟩
  have : Std.Asymm fun a b => KeyLt (key a) (key b) := ⟨fun _ _ h => h.asymm⟩
  exact List.Pairwise.eq_of_mem_iff hx hy (fun {a} => h a)

/-- The first element with a property stands before all others that have it. -/
theorem find?_of_pairwise {α : Type} {R : α → α → Prop} {p : α → Bool} {xs : List α} {a : α}
    (h : xs.Pairwise R) (hf : xs.find? p = some a) :
    a ∈ xs ∧ p a = true ∧ ∀ b ∈ xs, p b = true → b = a ∨ R a b := by
  obtain ⟨hp, before, after, rfl, hbefore⟩ := List.find?_eq_some_iff_append.1 hf
  obtain ⟨-, hafter, -⟩ := List.pairwise_append.1 h
  refine ⟨List.mem_append_right _ List.mem_cons_self, hp, fun b hb hpb => ?_⟩
  rcases List.mem_append.1 hb with hb | hb
  · have hnot := hbefore b hb
    rw [hpb] at hnot
    cases hnot
  rcases List.mem_cons.1 hb with rfl | hb
  · exact .inl rfl
  · exact .inr ((List.pairwise_cons.1 hafter).1 b hb)

namespace Contents

variable (m : Contents) {k : Bytes} {lower upper : List (Bytes × Bytes)}
  {same : Option (Bytes × Bytes)}

theorem inKeyOrder_toList : InKeyOrder Prod.fst m.toList :=
  Std.ExtTreeMap.ordered_keys_toList

variable {m}

theorem mem_toList {r : Bytes × Bytes} : r ∈ m.toList ↔ m[r.1]? = some r.2 :=
  Std.ExtTreeMap.mem_toList_iff_getElem?_eq_some

theorem getElem?_of_parted (h : Parted Prod.fst k m.toList lower same upper) :
    m[k]? = same.map Prod.snd := by
  cases same with
  | some r =>
      obtain rfl := h.at_key r rfl
      exact mem_toList.1 (h.mem_iff.2 (.inr (.inl rfl)))
  | none =>
      rw [Option.map_none, Option.eq_none_iff_forall_ne_some]
      intro v hv
      have hmem : (k, v) ∈ m.toList := mem_toList.2 hv
      rcases h.mem_iff.1 hmem with hl | hs | hu
      · exact KeyLt.irrefl k (h.below _ hl)
      · cases hs
      · exact KeyLt.irrefl k (h.above _ hu)

/-- A record stands beside the cut exactly if it is in the map under another key. -/
theorem mem_beside (h : Parted Prod.fst k m.toList lower same upper) {r : Bytes × Bytes} :
    r ∈ lower ∨ r ∈ upper ↔ r.1 ≠ k ∧ m[r.1]? = some r.2 := by
  rw [← mem_toList, h.mem_iff]
  constructor
  · rintro (hl | hu)
    · exact ⟨(h.below r hl).ne, .inl hl⟩
    · exact ⟨(h.above r hu).ne.symm, .inr (.inr hu)⟩
  · rintro ⟨hne, hl | hs | hu⟩
    · exact .inl hl
    · exact absurd (h.at_key r hs) hne
    · exact .inr hu

/-- **Putting a record into the map** puts it where its key cuts the list. -/
theorem toList_insert (h : Parted Prod.fst k m.toList lower same upper) (v : Bytes) :
    (m.insert k v).toList = lower ++ (k, v) :: upper := by
  refine (inKeyOrder_toList _).eq_of_mem_iff (h.inKeyOrder_insert m.inKeyOrder_toList rfl) ?_
  rintro ⟨k', v'⟩
  rw [mem_toList, Std.ExtTreeMap.getElem?_insert, List.mem_append, List.mem_cons, or_left_comm,
    mem_beside h, Prod.mk.injEq]
  by_cases hk : k = k'
  · subst hk
    simp [eq_comm]
  · rw [if_neg (fun heq => hk (compare_eq_eq.1 heq))]
    simp [Ne.symm hk]

/-- **Erasing a key from the map** leaves what stands beside its cut. -/
theorem toList_erase (h : Parted Prod.fst k m.toList lower same upper) :
    (m.erase k).toList = lower ++ upper := by
  refine (inKeyOrder_toList _).eq_of_mem_iff (h.inKeyOrder_erase m.inKeyOrder_toList) ?_
  rintro ⟨k', v'⟩
  rw [mem_toList, Std.ExtTreeMap.getElem?_erase, List.mem_append, mem_beside h]
  by_cases hk : k = k'
  · subst hk
    simp
  · rw [if_neg (fun heq => hk (compare_eq_eq.1 heq))]
    simp [Ne.symm hk]

/-! ## Neighbours -/

variable (m)

/-- The record with the least key of which `P` holds; nothing exactly if there is none. -/
def IsLeast (P : Bytes → Prop) : Option (Bytes × Bytes) → Prop
  | none => ∀ k v, m[k]? = some v → ¬ P k
  | some (k, v) => m[k]? = some v ∧ P k ∧ ∀ k' v', m[k']? = some v' → P k' → ¬ KeyLt k' k

/-- The record with the greatest key of which `P` holds; nothing exactly if there is none. -/
def IsGreatest (P : Bytes → Prop) : Option (Bytes × Bytes) → Prop
  | none => ∀ k v, m[k]? = some v → ¬ P k
  | some (k, v) => m[k]? = some v ∧ P k ∧ ∀ k' v', m[k']? = some v' → P k' → ¬ KeyLt k k'

variable {m} {p : Bytes → Bool} {P : Bytes → Prop}

theorem isLeast_find? (hP : ∀ k, p k = true ↔ P k) :
    m.IsLeast P (m.toList.find? fun r => p r.1) := by
  cases hr : m.toList.find? fun r => p r.1 with
  | none =>
      rw [List.find?_eq_none] at hr
      exact fun k v hk hp => hr (k, v) (mem_toList.2 hk) ((hP k).2 hp)
  | some r =>
      obtain ⟨hmem, hp, hfirst⟩ := find?_of_pairwise m.inKeyOrder_toList hr
      refine ⟨mem_toList.1 hmem, (hP _).1 hp, fun k v hk hpk => ?_⟩
      rcases hfirst (k, v) (mem_toList.2 hk) ((hP k).2 hpk) with rfl | hlt
      · exact KeyLt.irrefl k
      · exact hlt.asymm

theorem isGreatest_find? (hP : ∀ k, p k = true ↔ P k) :
    m.IsGreatest P (m.toList.reverse.find? fun r => p r.1) := by
  cases hr : m.toList.reverse.find? fun r => p r.1 with
  | none =>
      rw [List.find?_eq_none] at hr
      exact fun k v hk hp => hr (k, v) (List.mem_reverse.2 (mem_toList.2 hk)) ((hP k).2 hp)
  | some r =>
      obtain ⟨hmem, hp, hfirst⟩ :=
        find?_of_pairwise (List.pairwise_reverse.2 m.inKeyOrder_toList) hr
      refine ⟨mem_toList.1 (List.mem_reverse.1 hmem), (hP _).1 hp, fun k v hk hpk => ?_⟩
      rcases hfirst (k, v) (List.mem_reverse.2 (mem_toList.2 hk)) ((hP k).2 hpk) with rfl | hlt
      · exact KeyLt.irrefl k
      · exact hlt.asymm

end Contents

end PagedStore
