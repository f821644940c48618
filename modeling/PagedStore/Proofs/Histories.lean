import Mathlib.Data.List.Induction

/-!
# Systems asked one thing after another

A system that is asked something gives an answer and goes on to another state. What it has been
asked is a list; its answers are a list too, and its state after them is reached step by step. Two
systems that stay related by every step give the same answers to every list.
-/

set_option autoImplicit false

namespace PagedStore

section

variable {σ τ ι ο : Type}

/-- The answers of a system that is asked one thing after another. -/
def answersTo (step : σ → ι → ο × σ) (s : σ) : List ι → List ο
  | [] => []
  | i :: is => (step s i).1 :: answersTo step (step s i).2 is

/-- The state of a system after it was asked one thing after another. -/
def stateAfter (step : σ → ι → ο × σ) (s : σ) (is : List ι) : σ :=
  is.foldl (fun s i => (step s i).2) s

theorem stateAfter_append (step : σ → ι → ο × σ) (s : σ) (is js : List ι) :
    stateAfter step s (is ++ js) = stateAfter step (stateAfter step s is) js := List.foldl_append

theorem stateAfter_concat (step : σ → ι → ο × σ) (s : σ) (is : List ι) (i : ι) :
    stateAfter step s (is ++ [i]) = (step (stateAfter step s is) i).2 :=
  stateAfter_append ..

/-- **Two systems that every step leaves related** give the same answers, and stay related. -/
theorem answersTo_eq_of_related {step : σ → ι → ο × σ} {step' : τ → ι → ο × τ} {R : σ → τ → Prop}
    (hstep : ∀ {s t}, R s t → ∀ i, (step s i).1 = (step' t i).1 ∧ R (step s i).2 (step' t i).2)
    {s : σ} {t : τ} (h : R s t) (is : List ι) :
    answersTo step s is = answersTo step' t is ∧
      R (stateAfter step s is) (stateAfter step' t is) := by
  induction is generalizing s t with
  | nil => exact ⟨rfl, h⟩
  | cons i is ih =>
      obtain ⟨hanswer, hnext⟩ := hstep h i
      obtain ⟨hanswers, hlast⟩ := ih hnext
      exact ⟨congrArg₂ List.cons hanswer hanswers, hlast⟩

/-- Some place of a request in a list that has grown by one: the last one, or a place that it had
before. -/
theorem exists_place_concat {P : List ι → List ι → Prop} {is : List ι} {i j : ι} :
    (∃ before since, is ++ [i] = before ++ j :: since ∧ P before since) ↔
      (i = j ∧ P is []) ∨ ∃ before since, is = before ++ j :: since ∧ P before (since ++ [i]) := by
  constructor
  · rintro ⟨before, since, heq, hp⟩
    rcases List.eq_nil_or_concat since with rfl | ⟨since, last, rfl⟩
    · obtain ⟨rfl, h⟩ := List.append_inj' heq rfl
      exact .inl ⟨(List.cons.inj h).1, hp⟩
    · rw [List.concat_eq_append] at heq hp
      rw [← List.cons_append, ← List.append_assoc] at heq
      obtain ⟨rfl, h⟩ := List.append_inj' heq rfl
      obtain ⟨rfl, -⟩ := List.cons.inj h
      exact .inr ⟨before, since, rfl, hp⟩
  · rintro (⟨rfl, hp⟩ | ⟨before, since, rfl, hp⟩)
    · exact ⟨is, [], rfl, hp⟩
    · exact ⟨before, since ++ [i], by simp, hp⟩

end

end PagedStore
