import Mathlib.Data.List.TakeWhile
import PagedStore.Disk
import PagedStore.Proofs.Encoding

/-!
# The contents of files

A file is a byte string. Writing into it is `patch`: the bytes at the place are replaced, and what
lies between the old end and the place becomes zero. A stretch of the file (`slice`) that the
place does not touch stays what it was, and the stretch at the place is what was written.

The second half carries the operations of the disk over to this view, with what each of them
leaves alone: other files, names and locks.
-/

set_option autoImplicit false

namespace PagedStore

namespace Bytes

/-! ## Stretches -/

/-- The `n` bytes from a place on, or fewer where the string ends. -/
def slice (at' n : Nat) (bs : Bytes) : Bytes := (bs.drop at').take n

/-- A byte string with others written into it at a place. -/
def patch (at' : Nat) (new old : Bytes) : Bytes :=
  if new = [] then old else resize at' old ++ (new ++ old.drop (at' + new.length))

theorem length_slice (at' n : Nat) (bs : Bytes) :
    (slice at' n bs).length = min n (bs.length - at') := by
  rw [slice, List.length_take, List.length_drop]

theorem slice_zero (n : Nat) (bs : Bytes) : slice 0 n bs = bs.take n := rfl

theorem take_slice {k n : Nat} (h : k ≤ n) (at' : Nat) (bs : Bytes) :
    (slice at' n bs).take k = slice at' k bs := by
  rw [slice, List.take_take, Nat.min_eq_left h, slice]

theorem patch_nil (at' : Nat) (old : Bytes) : patch at' [] old = old := if_pos rfl

theorem patch_zero (new old : Bytes) : patch 0 new old = new ++ old.drop new.length := by
  by_cases h : new = []
  · rw [h, patch_nil, List.nil_append, List.length_nil, List.drop_zero]
  · rw [patch, if_neg h, List.eq_nil_of_length_eq_zero (length_resize 0 old), List.nil_append,
      Nat.zero_add]

theorem length_patch {at' : Nat} {new old : Bytes} (h : new ≠ []) :
    (patch at' new old).length = max old.length (at' + new.length) := by
  rw [patch, if_neg h, List.length_append, List.length_append, length_resize, List.length_drop]
  omega

theorem le_length_patch (at' : Nat) (new old : Bytes) : old.length ≤ (patch at' new old).length := by
  by_cases h : new = []
  · rw [h, patch_nil]
  · rw [length_patch h]
    exact Nat.le_max_left _ _

theorem length_patch_of_le {at' : Nat} {new old : Bytes} (h : at' + new.length ≤ old.length) :
    (patch at' new old).length = old.length := by
  by_cases hne : new = []
  · rw [hne, patch_nil]
  · rw [length_patch hne, Nat.max_eq_left h]

theorem slice_patch_self {at' n : Nat} {new : Bytes} (h : new.length = n) (hn : 0 < n)
    (old : Bytes) : slice at' n (patch at' new old) = new := by
  have hne : new ≠ [] := List.ne_nil_of_length_pos (by omega)
  rw [slice, patch, if_neg hne, List.drop_left' (length_resize at' old), List.take_left' h]

/-- What lies before the place of a write stays. -/
theorem slice_patch_before {b n at' : Nat} {new old : Bytes} (hb : b + n ≤ at')
    (hold : b + n ≤ old.length) : slice b n (patch at' new old) = slice b n old := by
  by_cases hne : new = []
  · rw [hne, patch_nil]
  have hlen : (resize at' old).length = at' := length_resize at' old
  rw [slice, patch, if_neg hne, List.drop_append_of_le_length (by omega),
    List.take_append_of_le_length (by rw [List.length_drop]; omega), slice]
  -- Also where the write makes the file longer, the bytes before its place are the old ones.
  apply List.ext_getElem?
  intro i
  by_cases hi : i < n
  · rw [List.getElem?_take_of_lt hi, List.getElem?_take_of_lt hi, List.getElem?_drop,
      List.getElem?_drop, resize,
      List.getElem?_append_left (by rw [List.length_take]; omega),
      List.getElem?_take_of_lt (by omega)]
  · rw [List.getElem?_eq_none, List.getElem?_eq_none] <;> rw [List.length_take] <;> omega

/-- What lies behind the bytes of a write stays. -/
theorem slice_patch_behind {b n at' : Nat} {new old : Bytes} (hb : at' + new.length ≤ b) :
    slice b n (patch at' new old) = slice b n old := by
  by_cases hne : new = []
  · rw [hne, patch_nil]
  have hlen : (resize at' old).length = at' := length_resize at' old
  rw [slice, patch, if_neg hne, ← List.append_assoc, slice]
  congr 1
  rw [show b = (resize at' old ++ new).length + (b - (at' + new.length)) by
      rw [List.length_append, hlen]; omega,
    List.drop_length_add_append, List.drop_drop]
  congr 1
  rw [List.length_append, hlen]

/-- A stretch that a write does not touch stays. -/
theorem slice_patch_of_disjoint {b n at' : Nat} {new old : Bytes}
    (h : b + n ≤ at' ∨ at' + new.length ≤ b) (hold : b + n ≤ old.length) :
    slice b n (patch at' new old) = slice b n old := by
  rcases h with h | h
  · exact slice_patch_before h hold
  · exact slice_patch_behind h

end Bytes

/-! ## Files on the disk -/

namespace Disk

open Bytes

/-- Every name leads to a node that is there. -/
def NamesLive (d : Disk) : Prop := ∀ name n, d.find? name = some n → n < d.nodes.size

/-- No node has two names. -/
def NamesApart (d : Disk) : Prop :=
  ∀ name other n, d.find? name = some n → d.find? other = some n → name = other

theorem toList_toByteArray (bs : Bytes) : bs.toByteArray.data.toList = bs := by
  simp

theorem toList_fit (n : Nat) (c : ByteArray) : (fit n c).data.toList = resize n c.data.toList := by
  have hsize : c.data.toList.length = c.size := rfl
  rw [fit, resize, hsize]
  split
  · rename_i h
    rw [ByteArray.data_extract, Array.toList_extract, Nat.sub_eq_zero_of_le h]
    simp
  · rename_i h
    rw [ByteArray.data_append, Array.toList_append,
      List.take_of_length_le (by rw [hsize]; omega)]
    simp

theorem toList_overwrite (c : ByteArray) (at' : Nat) (bs : Bytes) :
    (overwrite c at' bs.toByteArray).data.toList = patch at' bs c.data.toList := by
  have hsize : bs.toByteArray.size = bs.length := by simp
  rw [overwrite, hsize, patch]
  by_cases hne : bs = []
  · rw [if_pos hne, if_pos (by rw [hne]; rfl)]
  have hlen : bs.length ≠ 0 := fun h => hne (List.length_eq_zero_iff.1 h)
  rw [if_neg hne, if_neg hlen]
  -- Extending first changes neither what stands before the place nor what lies behind the write.
  have hfit : ∀ x : ByteArray, x = (if c.size < at' then fit at' c else c) →
      x.data.toList.take at' = resize at' c.data.toList ∧
        x.data.toList.drop (at' + bs.length) = c.data.toList.drop (at' + bs.length) := by
    intro x hx
    have hc : c.data.toList.length = c.size := rfl
    split at hx
    · rename_i h
      rw [hx, toList_fit, List.take_of_length_le (by rw [length_resize]),
        List.drop_eq_nil_of_le (by rw [length_resize]; omega),
        List.drop_eq_nil_of_le (by rw [hc]; omega)]
      exact ⟨rfl, rfl⟩
    · rename_i h
      rw [hx, resize, hc, Nat.sub_eq_zero_of_le (by omega), List.replicate_zero, List.append_nil]
      exact ⟨rfl, rfl⟩
  obtain ⟨h₁, h₂⟩ := hfit _ rfl
  rw [← h₁, ← h₂]
  simp only [ByteArray.copySlice, Array.toList_append, Array.toList_extract, List.extract_eq_take_drop,
    List.drop_zero, Nat.sub_zero, Nat.zero_add]
  rw [List.append_assoc]
  generalize (if c.size < at' then fit at' c else c) = x
  have hmin : min bs.length bs.toByteArray.data.size = bs.length := Nat.min_eq_left hsize.ge
  have hdrop : (x.data.toList.drop (at' + bs.length)).length = x.data.size - (at' + bs.length) := by
    rw [List.length_drop, Array.length_toList]
  rw [hmin, ← hdrop, List.take_length, toList_toByteArray, List.take_length]

theorem read_eq_slice (d : Disk) (n : NodeId) (at' count : Nat) :
    d.read n at' count = slice at' count (d.readAll n) := by
  rw [read, readAll, ByteArray.data_extract, Array.toList_extract, List.extract_eq_take_drop,
    Nat.add_sub_cancel_left, slice]

/-! ## What a change of one node leaves alone -/

theorem node_modify_self {d : Disk} {n : NodeId} (h : n < d.nodes.size) (f : Node → Node) :
    (d.modify n f).node n = f (d.node n) := by
  simp only [modify, node, Array.getD_eq_getD_getElem?, Array.getElem?_modify, if_true,
    Array.getElem?_eq_getElem h, Option.map_some, Option.getD_some]

theorem node_modify_of_ne {d : Disk} {n m : NodeId} (h : m ≠ n) (f : Node → Node) :
    (d.modify n f).node m = d.node m := by
  simp only [modify, node, Array.getD_eq_getD_getElem?, Array.getElem?_modify, if_neg h.symm]

@[simp] theorem size_nodes_modify (d : Disk) (n : NodeId) (f : Node → Node) :
    (d.modify n f).nodes.size = d.nodes.size := Array.size_modify

@[simp] theorem find?_modify (d : Disk) (n : NodeId) (f : Node → Node) (name : String) :
    (d.modify n f).find? name = d.find? name := rfl

@[simp] theorem size_nodes_write (d : Disk) (n : NodeId) (at' : Nat) (bs : Bytes) :
    (d.write n at' bs).nodes.size = d.nodes.size := size_nodes_modify ..

theorem readAll_write_self {d : Disk} {n : NodeId} (h : n < d.nodes.size) (at' : Nat) (bs : Bytes) :
    (d.write n at' bs).readAll n = patch at' bs (d.readAll n) := by
  rw [readAll, write, node_modify_self h]
  exact toList_overwrite _ _ _

theorem readAll_append_self {d : Disk} {n : NodeId} (h : n < d.nodes.size) (bs : Bytes) :
    (d.append n bs).readAll n = d.readAll n ++ bs := by
  rw [readAll, append, node_modify_self h, readAll]
  simp

theorem readAll_truncate_self {d : Disk} {n : NodeId} (h : n < d.nodes.size) (k : Nat) :
    (d.truncate n k).readAll n = resize k (d.readAll n) := by
  rw [readAll, truncate, node_modify_self h]
  exact toList_fit _ _

theorem readAll_modify_of_ne {d : Disk} {n m : NodeId} (h : m ≠ n) (f : Node → Node) :
    (d.modify n f).readAll m = d.readAll m := by
  rw [readAll, node_modify_of_ne h, readAll]

/-! ## New files and locks -/

theorem find?_make_self (d : Disk) (name : String) (isFolder : Bool) :
    (d.make name isFolder).2.find? name = some d.nodes.size := List.lookup_cons_self

theorem find?_make_of_ne (d : Disk) {name other : String} (h : other ≠ name) (isFolder : Bool) :
    (d.make name isFolder).2.find? other = d.find? other := by
  rw [find?, make, List.lookup_cons, beq_false_of_ne h, find?]

theorem size_nodes_make (d : Disk) (name : String) (isFolder : Bool) :
    (d.make name isFolder).2.nodes.size = d.nodes.size + 1 := Array.size_push ..

theorem node_make_self (d : Disk) (name : String) (isFolder : Bool) :
    (d.make name isFolder).2.node d.nodes.size = ⟨isFolder, .empty, .free⟩ := by
  rw [node, make, Array.getD_eq_getD_getElem?, Array.getElem?_push_size, Option.getD_some]

theorem node_make_of_lt (d : Disk) {n : NodeId} (h : n < d.nodes.size) (name : String)
    (isFolder : Bool) : (d.make name isFolder).2.node n = d.node n := by
  rw [node, node, make, Array.getD_eq_getD_getElem?, Array.getD_eq_getD_getElem?,
    Array.getElem?_push_lt h, Array.getElem?_eq_getElem h]

/-- What opening a file for writing comes to. -/
theorem openToWrite_eq_ok {d d' : Disk} {name : String} {n : NodeId}
    (h : d.openToWrite name = .ok (n, d')) :
    (d.find? name = some n ∧ (d.node n).isFolder = false ∧ d' = d) ∨
      (d.find? name = none ∧ n = d.nodes.size ∧ d' = (d.make name false).2) := by
  rw [openToWrite] at h
  split at h
  · rename_i m hm
    split at h
    · cases h
    · rename_i hf
      obtain ⟨rfl, rfl⟩ := Prod.mk.inj (Except.ok.inj h)
      exact .inl ⟨hm, by simpa using hf, rfl⟩
  · rename_i hm
    cases hc : d.checkFolder name with
    | error e =>
        rw [hc] at h
        cases h
    | ok u =>
        rw [hc] at h
        obtain ⟨rfl, rfl⟩ := Prod.mk.inj (Except.ok.inj h)
        exact .inr ⟨hm, rfl, rfl⟩

theorem tryLock_eq_some {d d' : Disk} {n : NodeId} (h : d.tryLock n true = some d') :
    d' = d.modify n fun x => { x with lock := .exclusive } := by
  unfold tryLock at h
  split at h
  · exact (Option.some.inj h).symm
  · rename_i ht
    cases ht
  · rename_i ht
    cases ht
  · cases h

/-! ## Changes of contents alone -/

/-- Two disks with the same names, files and locks, whatever the files hold. -/
structure SameShape (d d' : Disk) : Prop where
  names : d'.names = d.names
  size : d'.nodes.size = d.nodes.size
  folder : ∀ n, (d'.node n).isFolder = (d.node n).isFolder
  lock : ∀ n, (d'.node n).lock = (d.node n).lock

namespace SameShape

theorem refl (d : Disk) : SameShape d d := ⟨rfl, rfl, fun _ => rfl, fun _ => rfl⟩

theorem trans {d₁ d₂ d₃ : Disk} (h₁ : SameShape d₁ d₂) (h₂ : SameShape d₂ d₃) :
    SameShape d₁ d₃ where
  names := h₂.names.trans h₁.names
  size := h₂.size.trans h₁.size
  folder n := (h₂.folder n).trans (h₁.folder n)
  lock n := (h₂.lock n).trans (h₁.lock n)

theorem find? {d d' : Disk} (h : SameShape d d') (name : String) : d'.find? name = d.find? name := by
  rw [Disk.find?, Disk.find?, h.names]

theorem modify (d : Disk) (n : NodeId) (f : ByteArray → ByteArray) :
    SameShape d (d.modify n fun x => { x with contents := f x.contents }) where
  names := rfl
  size := size_nodes_modify ..
  folder m := by
    simp only [Disk.modify, node, Array.getD_eq_getD_getElem?, Array.getElem?_modify]
    split <;> cases d.nodes[m]? <;> rfl
  lock m := by
    simp only [Disk.modify, node, Array.getD_eq_getD_getElem?, Array.getElem?_modify]
    split <;> cases d.nodes[m]? <;> rfl

theorem write (d : Disk) (n : NodeId) (at' : Nat) (bs : Bytes) : SameShape d (d.write n at' bs) :=
  modify d n fun c => overwrite c at' bs.toByteArray

theorem append (d : Disk) (n : NodeId) (bs : Bytes) : SameShape d (d.append n bs) :=
  modify d n fun c => c ++ bs.toByteArray

theorem truncate (d : Disk) (n : NodeId) (k : Nat) : SameShape d (d.truncate n k) :=
  modify d n fun c => fit k c

end SameShape

end Disk

end PagedStore
