import PagedStore.Page.Cache

/-!
# What a cache holds

A cache never makes up a page: what it holds was put into it and not taken out since. Every page
that it holds stands in the queue, so that there is always one to drop, and it holds no more than
its capacity.
-/

set_option autoImplicit false

namespace PagedStore

/-! ## Pages by number -/

namespace PageMap

theorem getElem?_insert (m : PageMap) (id other : PageId) (page : Page) :
    (m.insert id page)[other]? = if id = other then some page else m[other]? := by
  rw [Std.ExtTreeMap.getElem?_insert]
  simp only [Std.LawfulEqCmp.compare_eq_iff_eq]

theorem getElem?_erase (m : PageMap) (id other : PageId) :
    (m.erase id)[other]? = if id = other then none else m[other]? := by
  rw [Std.ExtTreeMap.getElem?_erase]
  simp only [Std.LawfulEqCmp.compare_eq_iff_eq]

theorem mem_iff {m : PageMap} {id : PageId} : id ∈ m ↔ ∃ page, m[id]? = some page := by
  rw [← Option.isSome_iff_exists, Std.ExtTreeMap.isSome_getElem?_iff_mem]

end PageMap

namespace Cache

/-- Each page stands in the queue, and there are not more of them than the capacity allows. -/
structure Sound (c : Cache) : Prop where
  queued : ∀ id, id ∈ c.entries → id ∈ c.queue
  bounded : c.entries.size ≤ c.capacity

/-! ## Evicting -/

theorem evictOne_of_cons {c : Cache} {id : PageId} {queue : List PageId}
    (h : c.queue = id :: queue) : c.evictOne = { c with
      entries := c.entries.erase id
      queue := queue
      stats := { c.stats with
        evictions := c.stats.evictions + if c.entries.contains id then 1 else 0 } } := by
  rw [evictOne, h]

theorem getElem?_evict {c : Cache} {id : PageId} {page : Page}
    (h : c.evict.entries[id]? = some page) : c.entries[id]? = some page := by
  fun_induction evict c with
  | case1 c hc ih =>
      obtain ⟨first, queue, hq⟩ := List.exists_cons_of_ne_nil hc.2
      have h' := ih h
      rw [evictOne_of_cons hq, PageMap.getElem?_erase] at h'
      split at h'
      · cases h'
      · exact h'
  | case2 => exact h

theorem sound_evict {c : Cache} (hq : ∀ id, id ∈ c.entries → id ∈ c.queue) : c.evict.Sound := by
  fun_induction evict c with
  | case1 c hc ih =>
      obtain ⟨first, queue, hcons⟩ := List.exists_cons_of_ne_nil hc.2
      apply ih
      rw [evictOne_of_cons hcons]
      intro id hid
      obtain ⟨page, hp⟩ := PageMap.mem_iff.1 hid
      rw [PageMap.getElem?_erase] at hp
      split at hp
      · cases hp
      · rename_i hne
        have := hq id (PageMap.mem_iff.2 ⟨page, hp⟩)
        rw [hcons] at this
        rcases List.mem_cons.1 this with rfl | h
        · exact absurd rfl hne
        · exact h
  | case2 c hc =>
      refine ⟨hq, Nat.le_of_not_lt fun hlt => ?_⟩
      -- With an empty queue there is no page, hence not too many.
      have hnil : c.queue = [] := Classical.byContradiction fun hne => hc ⟨hlt, hne⟩
      have hempty : c.entries = ∅ := Std.ExtTreeMap.eq_empty_iff_forall_not_mem.2 fun id hid => by
        have := hq id hid
        rw [hnil] at this
        cases this
      rw [hempty, Std.ExtTreeMap.size_empty] at hlt
      omega

/-! ## Operations -/

theorem mem_unqueue {queue : List PageId} {id other : PageId} :
    other ∈ unqueue queue id ↔ other ∈ queue ∧ other ≠ id := by
  simp [unqueue]

theorem mem_touch {queue : List PageId} {id other : PageId} :
    other ∈ touch queue id ↔ other ∈ queue ∨ other = id := by
  rw [touch, List.mem_append, List.mem_singleton]
  by_cases h : other = id
  · simp [h]
  · rw [List.mem_erase_of_ne h]

theorem fst_get (c : Cache) (id : PageId) : (c.get id).1 = c.entries[id]? := by
  rw [get]
  dsimp only
  split <;> simp [*]

theorem entries_get (c : Cache) (id : PageId) : (c.get id).2.entries = c.entries := by
  rw [get]
  dsimp only
  split <;> rfl

theorem Sound.get {c : Cache} (h : c.Sound) (id : PageId) : (c.get id).2.Sound := by
  rw [Cache.get]
  dsimp only
  split
  · exact ⟨fun other ho => mem_touch.2 (.inl (h.queued other ho)), h.bounded⟩
  · exact ⟨h.queued, h.bounded⟩

/-- What is found after a page was put in is that page or was there before. -/
theorem getElem?_insert {c : Cache} {page found : Page} {id : PageId}
    (h : (c.insert page).entries[id]? = some found) :
    (id = page.id ∧ found = page) ∨
      ((c.capacity = 0 ∨ id ≠ page.id) ∧ c.entries[id]? = some found) := by
  rw [insert] at h
  split at h
  · rename_i h0
    exact .inr ⟨.inl h0, h⟩
  · have h' := getElem?_evict h
    rw [put, PageMap.getElem?_insert] at h'
    split at h'
    · rename_i heq
      exact .inl ⟨heq.symm, (Option.some.inj h').symm⟩
    · rename_i hne
      exact .inr ⟨.inr fun he => hne he.symm, h'⟩

theorem Sound.insert {c : Cache} (h : c.Sound) (page : Page) : (c.insert page).Sound := by
  rw [Cache.insert]
  split
  · exact h
  · apply sound_evict
    intro id hid
    rw [put, Std.ExtTreeMap.mem_insert, Std.LawfulEqCmp.compare_eq_iff_eq] at hid
    rw [put, List.mem_append, List.mem_singleton]
    by_cases heq : id = page.id
    · exact .inr heq
    · have hqueued := h.queued id (hid.resolve_left fun he => heq he.symm)
      refine .inl ?_
      split
      · exact mem_unqueue.2 ⟨hqueued, heq⟩
      · exact hqueued

theorem Sound.resize {c : Cache} (h : c.Sound) (capacity : Nat) : (c.resize capacity).Sound :=
  sound_evict h.queued

theorem sound_empty (capacity : Nat) : Sound { capacity := capacity } where
  queued := fun _ h => absurd h Std.ExtTreeMap.not_mem_empty
  bounded := Nat.zero_le _

/-- A cache of no capacity holds nothing. -/
theorem Sound.getElem?_of_capacity {c : Cache} (h : c.Sound) (h0 : c.capacity = 0) (id : PageId) :
    c.entries[id]? = none := by
  have hsize : c.entries.size = 0 := by
    have := h.bounded
    omega
  rw [Std.ExtTreeMap.eq_empty_iff_size_eq_zero.2 hsize, Std.ExtTreeMap.getElem?_empty]

/-- After pages were put in, what is found under the number of one of them is one of them. -/
theorem getElem?_foldl_insert (pages : List Page) {c : Cache} (hc : c.Sound) {id : PageId}
    {found : Page} (h : (pages.foldl Cache.insert c).entries[id]? = some found) :
    (found ∈ pages ∧ id = found.id) ∨ ((∀ p ∈ pages, p.id ≠ id) ∧ c.entries[id]? = some found) := by
  induction pages generalizing c with
  | nil => exact .inr ⟨by simp, h⟩
  | cons page pages ih =>
      rcases ih (hc.insert page) h with ⟨hm, hid⟩ | ⟨hne, hf⟩
      · exact .inl ⟨List.mem_cons_of_mem _ hm, hid⟩
      · rcases getElem?_insert hf with ⟨hid, rfl⟩ | ⟨hid, hf'⟩
        · exact .inl ⟨List.mem_cons_self, hid⟩
        · refine .inr ⟨?_, hf'⟩
          intro p hp
          rcases List.mem_cons.1 hp with rfl | hp
          · rcases hid with h0 | hid
            · rw [hc.getElem?_of_capacity h0] at hf'
              cases hf'
            · exact fun he => hid he.symm
          · exact hne p hp

theorem Sound.foldl_insert (pages : List Page) {c : Cache} (hc : c.Sound) :
    (pages.foldl Cache.insert c).Sound := by
  induction pages generalizing c with
  | nil => exact hc
  | cons page pages ih => exact ih (hc.insert page)

end Cache

end PagedStore
