import Mathlib.Algebra.Order.Group.Multiset
import Mathlib.Data.Multiset.UnionInter
import PagedStore.Proofs.Faces

/-!
# Page accounting

Every page but the header page is either in use or on the free list, and only once. `Accounts`
says so of a face for given pages in use and a given free list; allocation, writing and freeing
move pages between the two. What is not moved or written is left as it was (`Kept`).
-/

set_option autoImplicit false

namespace PagedStore

open Bytes

/-! ## The free list -/

/-- The free list from a page on: free pages, each naming the next one, and zero at the end. -/
def FreeList (f : Face) : PageId → List PageId → Prop
  | head, [] => head = 0
  | head, id :: ids => id = head ∧ ∃ next,
      f.pages head = .ok (.blank head f.pageSize .free (ofU32 next)) ∧ FreeList f next ids

theorem FreeList.congr {f g : Face} {head : PageId} {ids : List PageId} (h : FreeList f head ids)
    (hpages : ∀ id ∈ ids, g.pages id = f.pages id) (hsize : g.pageSize = f.pageSize) :
    FreeList g head ids := by
  induction ids generalizing head with
  | nil => exact h
  | cons id ids ih =>
      obtain ⟨rfl, next, hpage, hrest⟩ := h
      refine ⟨rfl, next, ?_, ih hrest fun other ho => hpages other (List.mem_cons_of_mem _ ho)⟩
      rw [hpages id List.mem_cons_self, hsize]
      exact hpage

/-! ## Accounts -/

/-- Each page is in use or on the free list, and none is both or twice. -/
structure Accounts (f : Face) (used : Multiset PageId) (free : List PageId) : Prop where
  pos : f.header.pageCount ≠ 0
  listed : FreeList f f.header.freeHead free
  counted : f.header.freeCount.toNat = free.length
  once : (used + (free : Multiset PageId)).Nodup
  all : ∀ id, id ∈ used + (free : Multiset PageId) ↔ f.Has id

/-- The pages in use, with what is not in use on the free list. -/
def Balanced (f : Face) (used : Multiset PageId) : Prop := ∃ free, Accounts f used free

/-- The root and the number of records are the same, and so are some of the pages; the file may
have grown. -/
structure Kept (kept : Multiset PageId) (f g : Face) : Prop where
  pages : ∀ id ∈ kept, g.pages id = f.pages id
  pageSize : g.pageSize = f.pageSize
  count : f.header.pageCount.toNat ≤ g.header.pageCount.toNat
  root : g.header.root = f.header.root
  records : g.header.recordCount = f.header.recordCount

/-- A face with another root. -/
def Face.withRoot (f : Face) (root : PageId) : Face := f.withHeader { f.header with root := root }

/-- A face with another number of records. -/
def Face.counting (f : Face) (delta : Int) : Face :=
  f.withHeader { f.header with recordCount := Pager.addSaturating f.header.recordCount delta }

namespace Kept

variable {kept kept' : Multiset PageId} {f g k : Face}

theorem refl (kept : Multiset PageId) (f : Face) : Kept kept f f :=
  ⟨fun _ _ => rfl, rfl, Nat.le_refl _, rfl, rfl⟩

theorem trans (h₁ : Kept kept f g) (h₂ : Kept kept g k) : Kept kept f k where
  pages id hid := (h₂.pages id hid).trans (h₁.pages id hid)
  pageSize := h₂.pageSize.trans h₁.pageSize
  count := Nat.le_trans h₁.count h₂.count
  root := h₂.root.trans h₁.root
  records := h₂.records.trans h₁.records

theorem withRoot (h : Kept kept f g) (root : PageId) :
    Kept kept (f.withRoot root) (g.withRoot root) :=
  ⟨h.pages, h.pageSize, h.count, rfl, h.records⟩

theorem mono (h : Kept kept f g) (hle : ∀ id ∈ kept', id ∈ kept) : Kept kept' f g :=
  ⟨fun id hid => h.pages id (hle id hid), h.pageSize, h.count, h.root, h.records⟩

end Kept

namespace Accounts

variable {f : Face} {used : Multiset PageId} {free : List PageId}

theorem has_of_mem (h : Accounts f used free) {id : PageId} (hid : id ∈ used) : f.Has id :=
  (h.all id).1 (Multiset.mem_add.2 (.inl hid))

theorem has_of_free (h : Accounts f used free) {id : PageId} (hid : id ∈ free) : f.Has id :=
  (h.all id).1 (Multiset.mem_add.2 (.inr hid))

theorem not_mem_free (h : Accounts f used free) {id : PageId} (hid : id ∈ used) : id ∉ free :=
  fun hf => Multiset.disjoint_left.1 (Multiset.nodup_add.1 h.once).2.2 hid hf

/-- A free list that begins nowhere is empty. -/
theorem eq_nil (h : Accounts f used free) (hnone : f.header.freeHead = 0) : free = [] := by
  have hlisted := h.listed
  cases free with
  | nil => rfl
  | cons id rest =>
      obtain ⟨rfl, -⟩ := hlisted
      exact absurd hnone (h.has_of_free List.mem_cons_self).1

/-- All that the accounts of a face depend on. -/
theorem congr {g : Face} (h : Accounts f used free)
    (hcount : g.header.pageCount = f.header.pageCount)
    (hhead : g.header.freeHead = f.header.freeHead)
    (hfree : g.header.freeCount = f.header.freeCount)
    (hpages : ∀ id ∈ free, g.pages id = f.pages id) (hsize : g.pageSize = f.pageSize) :
    Accounts g used free where
  pos := by
    rw [hcount]
    exact h.pos
  listed := by
    rw [hhead]
    exact h.listed.congr hpages hsize
  counted := by
    rw [hfree]
    exact h.counted
  once := h.once
  all id := by rw [h.all, Face.Has, Face.Has, hcount]

end Accounts

/-! ## Giving out pages -/

/-- A number at the front of a payload is read back. -/
theorem Page.take_four_payload (id : PageId) (k : PageKind) {size : Nat} {n : UInt32} {rest : Bytes}
    (h : (ofU32 n ++ rest).length ≤ size - frontLength) :
    UInt32.ofNat (toNatLE ((blank id size k (ofU32 n ++ rest)).payload.take 4)) = n := by
  rw [payload_blank_of_fits h, List.append_assoc, take_four_ofU32]

/-- A free page says which one is the next on the list. -/
theorem Face.Sane.next_free {f : Face} (hs : f.Sane) (id next : PageId) :
    UInt32.ofNat (toNatLE ((Page.blank id f.pageSize .free (ofU32 next)).payload.take 4)) = next := by
  have := hs.bounds
  have hfit : (ofU32 next ++ []).length ≤ f.pageSize - Page.frontLength := by
    rw [List.append_nil, length_ofU32, show Page.frontLength = 5 from rfl]
    omega
  have htake := Page.take_four_payload id .free hfit
  rwa [List.append_nil] at htake

namespace Accounts

variable {f g : Face} {used : Multiset PageId} {free : List PageId}

/-- A free list that is not empty begins with a page that can be given out. -/
theorem offers (h : Accounts f used free) (hne : f.header.freeHead ≠ 0) : ∃ page, f.Offers page := by
  have hlisted := h.listed
  cases free with
  | nil => exact absurd hlisted hne
  | cons id rest =>
      obtain ⟨rfl, next, hpage, -⟩ := hlisted
      refine ⟨_, hpage, Page.kind_blank, fun h0 => ?_⟩
      have hcount := h.counted
      rw [h0] at hcount
      cases hcount

/-- The first page of the free list comes into use, and the others stay on it. -/
theorem reused (h : Accounts f used free) (hs : f.Sane) {page : Page} (ho : f.Offers page)
    (hne : f.header.freeHead ≠ 0) :
    ∃ rest, free = f.header.freeHead :: rest ∧
      Accounts (f.reused page) ({f.header.freeHead} + used) rest := by
  have hlisted := h.listed
  cases free with
  | nil => exact absurd hlisted hne
  | cons id rest =>
      obtain ⟨rfl, next, hpage, hrest⟩ := hlisted
      obtain rfl := Except.ok.inj (ho.first.symm.trans hpage)
      have hperm : ({f.header.freeHead} + used) + (rest : Multiset PageId) =
          used + ((f.header.freeHead :: rest : List PageId) : Multiset PageId) := by
        rw [← Multiset.cons_coe, ← Multiset.singleton_add]
        ac_rfl
      refine ⟨rest, rfl, h.pos, ?_, ?_, ?_, ?_⟩
      · show FreeList (f.reused _) (UInt32.ofNat _) rest
        rw [hs.next_free]
        exact hrest.congr (fun _ _ => rfl) rfl
      · show (f.header.freeCount - 1).toNat = _
        rw [toNat_pred ho.counted, h.counted, List.length_cons, Nat.add_sub_cancel]
      · rw [hperm]
        exact h.once
      · intro other
        rw [hperm]
        exact h.all other

/-- A page by which the file has grown comes into use. -/
theorem grown (h : Accounts f used free) (hg : f.Grown g) (hnone : f.header.freeHead = 0) :
    Accounts g ({f.header.pageCount} + used) [] := by
  obtain rfl := h.eq_nil hnone
  have hcount : g.header.pageCount = f.header.pageCount + 1 := by rw [hg.header]
  have hall : ∀ id, id ∈ used ↔ f.Has id := by
    intro id
    rw [← h.all id]
    simp
  -- The number of pages is the number of the new page, which no page can have had.
  have hnew : f.header.pageCount ∉ used := fun hm =>
    UInt32.lt_irrefl _ ((hall _).1 hm).2
  have honce := h.once
  rw [Multiset.coe_nil, add_zero] at honce
  refine ⟨?_, ?_, ?_, ?_, ?_⟩
  · rw [hcount]
    intro h0
    have := toNat_succ hg.room
    rw [h0] at this
    exact absurd this (by simp)
  · rw [hg.header]
    exact hnone
  · rw [hg.header]
    exact h.counted
  · rw [Multiset.coe_nil, add_zero, Multiset.singleton_add]
    exact Multiset.nodup_cons.2 ⟨hnew, honce⟩
  · intro id
    rw [Multiset.coe_nil, add_zero, Multiset.mem_add, Multiset.mem_singleton, hall, Face.Has,
      Face.Has, hcount, lt_succ_iff hg.room]
    constructor
    · rintro (rfl | ⟨h0, hlt⟩)
      · exact ⟨h.pos, .inl rfl⟩
      · exact ⟨h0, .inr hlt⟩
    · rintro ⟨h0, rfl | hlt⟩
      · exact .inl rfl
      · exact .inr ⟨h0, hlt⟩

end Accounts

namespace Balanced

open Pager

variable {f : Face} {used : Multiset PageId}

/-- **Allocation brings a page into use that was not in use before**, and fails only when there
are as many pages as there may be. -/
theorem allocate (h : Balanced f used) :
    Does f Pager.allocate IsFull fun id g => Balanced g ({id} + used) ∧ Kept used f g := by
  obtain ⟨free, h⟩ := h
  refine .of_sane fun hs => (Does.allocate f).mono ?_ ?_
  · rintro e (⟨-, he⟩ | ⟨hne, hno⟩)
    · exact he
    · obtain ⟨page, ho⟩ := h.offers hne
      exact absurd ho (hno page)
  · rintro _ g (⟨rfl, hne, page, ho, rfl⟩ | ⟨hnone, rfl, hg⟩)
    · obtain ⟨rest, -, h'⟩ := h.reused hs ho hne
      exact ⟨⟨rest, h'⟩, fun _ _ => rfl, rfl, Nat.le_refl _, rfl, rfl⟩
    · refine ⟨⟨[], h.grown hg hnone⟩, ?_, hg.pageSize, ?_, ?_, ?_⟩
      · intro id hid
        refine hg.pages id ?_
        rintro rfl
        exact UInt32.lt_irrefl _ (h.has_of_mem hid).2
      · rw [hg.header, toNat_succ hg.room]
        exact Nat.le_succ _
      · rw [hg.header]
      · rw [hg.header]

end Balanced

/-! ## Writing and taking back -/

namespace Accounts

variable {f : Face} {used : Multiset PageId} {free : List PageId} {page : Page}

/-- Writing a page in use leaves the free list alone. -/
theorem set (h : Accounts f used free) (hid : page.id ∈ used) : Accounts (f.set page) used free where
  pos := h.pos
  listed := h.listed.congr
    (fun _ hf => Face.pages_set_of_ne fun he => h.not_mem_free hid (he ▸ hf)) rfl
  counted := h.counted
  once := h.once
  all := h.all

/-- The pages, in use and free together, are all but one of those that the file has. -/
theorem card_succ (h : Accounts f used free) :
    used.card + free.length + 1 = f.header.pageCount.toNat := by
  have hpos : f.header.pageCount.toNat ≠ 0 := fun he => h.pos (UInt32.toNat_inj.1 he)
  have hnodup : ((used + (free : Multiset PageId)).map UInt32.toNat).Nodup :=
    h.once.map fun _ _ hn => UInt32.toNat_inj.1 hn
  -- They are the numbers from one up to the count, each of them once.
  have hall : (used + (free : Multiset PageId)).map UInt32.toNat =
      (List.range' 1 (f.header.pageCount.toNat - 1) : Multiset Nat) := by
    refine (Multiset.Nodup.ext hnodup (Multiset.coe_nodup.2 List.nodup_range')).2 fun n => ?_
    rw [Multiset.mem_map, Multiset.mem_coe, List.mem_range'_1]
    constructor
    · rintro ⟨id, hid, rfl⟩
      obtain ⟨h0, hlt⟩ := (h.all id).1 hid
      have hne : id.toNat ≠ 0 := fun he => h0 (UInt32.toNat_inj.1 he)
      have hlt' := UInt32.lt_iff_toNat_lt.1 hlt
      omega
    · rintro ⟨h1, hn⟩
      have hmax : n < 2 ^ 32 := Nat.lt_trans (by omega) f.header.pageCount.toNat_lt
      have hto : (UInt32.ofNat n).toNat = n := UInt32.toNat_ofNat_of_lt' hmax
      refine ⟨UInt32.ofNat n, (h.all _).2 ⟨fun h0 => ?_, ?_⟩, hto⟩
      · rw [h0] at hto
        exact Nat.ne_of_lt h1 hto
      · rw [UInt32.lt_iff_toNat_lt, hto]
        omega
  have hcard := congrArg Multiset.card hall
  rw [Multiset.card_map, Multiset.card_add, Multiset.coe_card, Multiset.coe_card,
    List.length_range'] at hcard
  omega

/-- There are fewer pages, in use and free together, than the file has. -/
theorem card_lt (h : Accounts f used free) :
    used.card + free.length < f.header.pageCount.toNat := by
  rw [← h.card_succ]
  exact Nat.lt_succ_self _

/-- A page in use goes to the front of the free list. -/
theorem freed {id : PageId} (h : Accounts f ({id} + used) free) :
    Accounts (f.freed id) used (id :: free) := by
  have hmem : id ∈ {id} + used := Multiset.mem_add.2 (.inl (Multiset.mem_singleton_self id))
  have hperm : used + ((id :: free : List PageId) : Multiset PageId) =
      ({id} + used) + (free : Multiset PageId) := by
    rw [← Multiset.cons_coe, ← Multiset.singleton_add]
    ac_rfl
  have hpages : ∀ other ∈ free, (f.freed id).pages other = f.pages other := fun other ho =>
    Face.pages_freed_of_ne fun he => h.not_mem_free hmem (he ▸ ho)
  refine ⟨h.pos, ⟨rfl, f.header.freeHead, ?_, h.listed.congr hpages rfl⟩, ?_, ?_, ?_⟩
  · exact Face.pages_set_self f (.make id f.pageSize .free (ofU32 f.header.freeHead))
  · -- The count of free pages cannot overflow, as there are fewer of them than pages.
    have hlt := h.card_lt
    have hmax := f.header.pageCount.toNat_lt
    show (f.header.freeCount + 1).toNat = _
    rw [UInt32.toNat_add, h.counted, List.length_cons]
    exact Nat.mod_eq_of_lt (by simp; omega)
  · rw [hperm]
    exact h.once
  · intro other
    rw [hperm]
    exact h.all other

end Accounts

namespace Balanced

open Pager

variable {f : Face} {used : Multiset PageId} {E : Error → Prop}

theorem has_of_mem (h : Balanced f used) {id : PageId} (hid : id ∈ used) : f.Has id := by
  obtain ⟨free, h⟩ := h
  exact h.has_of_mem hid

/-- A page is in use once. -/
theorem not_mem_rest {id : PageId} (h : Balanced f ({id} + used)) : id ∉ used := by
  obtain ⟨free, h⟩ := h
  have hnodup := (Multiset.nodup_add.1 h.once).1
  rw [Multiset.singleton_add] at hnodup
  exact (Multiset.nodup_cons.1 hnodup).1

theorem card_lt (h : Balanced f used) : used.card < f.header.pageCount.toNat := by
  obtain ⟨free, h⟩ := h
  exact Nat.lt_of_le_of_lt (Nat.le_add_right _ _) h.card_lt

/-- **Writing a page in use** changes no other page in use. -/
theorem write {page : Page} (h : Balanced f ({page.id} + used))
    (hlen : page.image.length = f.pageSize) :
    Does f (Pager.write page) E fun _ g =>
      Balanced g ({page.id} + used) ∧ Kept used f g ∧ g.pages page.id = .ok page.sealed := by
  have hmem : page.id ∈ {page.id} + used :=
    Multiset.mem_add.2 (.inl (Multiset.mem_singleton_self _))
  refine .write_ok (h.has_of_mem hmem) hlen ⟨?_, ?_, Face.pages_set_self f page⟩
  · obtain ⟨free, ha⟩ := h
    exact ⟨free, ha.set hmem⟩
  · refine ⟨fun id hid => Face.pages_set_of_ne fun he => ?_, rfl, Nat.le_refl _, rfl, rfl⟩
    exact h.not_mem_rest (he ▸ hid)

/-- **Freeing a page in use** changes no other page in use. -/
theorem free {id : PageId} (h : Balanced f ({id} + used)) :
    Does f (Pager.free id) E fun _ g => Balanced g used ∧ Kept used f g := by
  have hmem : id ∈ {id} + used := Multiset.mem_add.2 (.inl (Multiset.mem_singleton_self _))
  refine (Does.free f id).mono (fun _ he => absurd (h.has_of_mem hmem) he) ?_
  rintro ⟨⟩ g ⟨-, rfl⟩
  refine ⟨?_, fun other ho => ?_, rfl, Nat.le_refl _, rfl, rfl⟩
  · obtain ⟨free, ha⟩ := h
    exact ⟨id :: free, ha.freed⟩
  · exact Face.pages_freed_of_ne fun he => h.not_mem_rest (he ▸ ho)

/-- The root and the number of records play no part in the accounts. -/
theorem withHeader (h : Balanced f used) (root : PageId) (records : UInt64) :
    Balanced (f.withHeader { f.header with root := root, recordCount := records }) used := by
  obtain ⟨free, ha⟩ := h
  exact ⟨free, ha.congr rfl rfl rfl (fun _ _ => rfl) rfl⟩

theorem withRoot (h : Balanced f used) (root : PageId) : Balanced (f.withRoot root) used :=
  h.withHeader root f.header.recordCount

theorem counting (h : Balanced f used) (delta : Int) : Balanced (f.counting delta) used :=
  h.withHeader f.header.root _

end Balanced

end PagedStore
