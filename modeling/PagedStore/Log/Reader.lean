import PagedStore.Log.Fragment

/-!
# Reading a log

A reader takes records off the front of what is left of a log, putting together those that were
divided. The log may end anywhere, since a crash can cut it short, and it may hold anything, since
a block of the disk can go bad; the reader then fails at that place. It can go on behind a damaged
fragment, but `readAll` stops at the first failure: what lies behind it has lost its context.

The position of a reader counts the fragments that were there in full, good or bad.
-/

set_option autoImplicit false

namespace PagedStore.Log

/-- What a reader has still before it, and the length of the fragments behind it. -/
structure Reader where
  rest : Bytes
  position : Nat

namespace Reader

/-- Takes one fragment, or finds that nothing is left. -/
def fragment (r : Reader) : Except Error (Option Fragment) × Reader :=
  let frame := r.rest.take frameLength
  if frame = [] then (.ok none, r)
  else if frame.length < frameLength then
    (.error (.corrupt "truncated fragment header"), { r with rest := [] })
  else
    let whole := frameLength + Fragment.announced frame
    let bs := r.rest.take whole
    if bs.length < whole then
      (.error (.corrupt "truncated fragment body"), { r with rest := [] })
    else ((Fragment.decode bs).map some, ⟨r.rest.drop whole, r.position + whole⟩)

theorem length_fragment {r s : Reader} {f : Fragment} (h : r.fragment = (.ok (some f), s)) :
    s.rest.length < r.rest.length := by
  unfold fragment at h
  simp only at h
  split at h
  · simp at h
  · split at h
    · simp at h
    · split at h
      · simp at h
      · rename_i h₁ h₂ h₃
        obtain ⟨-, rfl⟩ := Prod.mk.inj h
        simp only [List.length_take, frameLength] at h₂
        simp [frameLength]
        omega

/-- Takes fragments until a record is complete; `sofar` is what has been put together of it. -/
def assemble (sofar : Option Bytes) (r : Reader) : Except Error (Option Bytes) × Reader :=
  match _ : r.fragment with
  | (.error e, s) => (.error e, s)
  | (.ok none, s) =>
      match sofar with
      | some _ => (.error (.corrupt "log ends inside a fragmented entry"), s)
      | none => (.ok none, s)
  | (.ok (some f), s) =>
      match f.kind, sofar with
      | .full, none => (.ok (some f.data), s)
      | .first, none => assemble (some f.data) s
      | .middle, some bs => assemble (some (bs ++ f.data)) s
      | .last, some bs => (.ok (some (bs ++ f.data)), s)
      | kind, _ =>
          (.error (.corrupt
            ("unexpected " ++ kind.name ++ " fragment at offset " ++ toString s.position)), s)
termination_by r.rest.length
decreasing_by all_goals exact length_fragment ‹_›

/-- Takes one record, or finds that nothing is left. -/
def next (r : Reader) : Except Error (Option Bytes) × Reader := r.assemble none

theorem length_assemble {sofar : Option Bytes} {r s : Reader} {bs : Bytes}
    (h : r.assemble sofar = (.ok (some bs), s)) : s.rest.length < r.rest.length := by
  fun_induction assemble sofar r with
  | case1 => simp at h
  | case2 => simp at h
  | case3 => simp at h
  | case4 r f s' hf =>
      obtain ⟨-, rfl⟩ := Prod.mk.inj h
      exact length_fragment hf
  | case5 r f s' hf _ ih => exact Nat.lt_trans (ih h) (length_fragment hf)
  | case6 r f s' hf _ _ ih => exact Nat.lt_trans (ih h) (length_fragment hf)
  | case7 r f s' hf =>
      obtain ⟨-, rfl⟩ := Prod.mk.inj h
      exact length_fragment hf
  | case8 => simp at h

/-- Takes records until nothing is left or the log is damaged. -/
def readAll (r : Reader) : List Bytes × Reader :=
  match _ : r.next with
  | (.ok (some bs), s) =>
      match readAll s with
      | (more, s) => (bs :: more, s)
  | (_, s) => ([], s)
termination_by r.rest.length
decreasing_by exact length_assemble ‹_›

end Reader

/-- The records at the front of a log. -/
def records (log : Bytes) : List Bytes := (Reader.readAll ⟨log, 0⟩).1

end PagedStore.Log
