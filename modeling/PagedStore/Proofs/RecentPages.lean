import PagedStore.Proofs.CachePages
import PagedStore.Proofs.Histories
import Mathlib.Data.List.Nodup
import Mathlib.Data.List.Perm.Basic

/-!
# The cache as a list of pages by their last use

A cache is two structures that every operation changes on its own: the pages by number, and the
queue of numbers. Here both are told by one list of pages, the least recently used first
(`Holds`), and what every use of the cache does is said on the list alone (`RecentPages.after`):
a page that is used goes to the end, and pages leave from the front while there are too many.
-/

set_option autoImplicit false

namespace PagedStore

/-- Pages in the order of their last use, the least recently used first, and how many there may
be. -/
structure RecentPages where
  capacity : Nat
  pages : List Page
  distinct : (pages.map Page.id).Nodup
  within : pages.length ≤ capacity

/-- What was counted between two readings of the counters: among the lookups, hits and misses
together. -/
structure CacheStats.Grown (s t : CacheStats) (lookups hits insertions evictions : Nat) : Prop where
  lookups_eq : t.lookups = s.lookups + lookups
  hits_eq : t.hits = s.hits + hits
  misses_eq : t.misses + hits = s.misses + lookups
  insertions_eq : t.insertions = s.insertions + insertions
  evictions_eq : t.evictions = s.evictions + evictions

namespace CacheStats.Grown

theorem refl (s : CacheStats) : s.Grown s 0 0 0 0 := ⟨rfl, rfl, rfl, rfl, rfl⟩

theorem trans {s t u : CacheStats} {l h i e l' h' i' e' : Nat} (hst : s.Grown t l h i e)
    (htu : t.Grown u l' h' i' e') : s.Grown u (l + l') (h + h') (i + i') (e + e') := by
  obtain ⟨h1, h2, h3, h4, h5⟩ := hst
  obtain ⟨g1, g2, g3, g4, g5⟩ := htu
  constructor <;> omega

theorem hits_add_misses {s t : CacheStats} {l h i e : Nat} (hst : s.Grown t l h i e)
    (hs : s.hits + s.misses = s.lookups) : t.hits + t.misses = t.lookups := by
  obtain ⟨hlookups, hhits, hmisses, -, -⟩ := hst
  omega

end CacheStats.Grown

namespace Cache

/-- What a cache is asked to do. -/
inductive Use where
  | get (id : PageId)
  | insert (page : Page)
  | remove (id : PageId)
  | resize (capacity : Nat)
  | clear

namespace Use

/-- Carries out a use, and answers with the page found if there is any. -/
def serve (c : Cache) : Use → Option Page × Cache
  | get id => c.get id
  | insert page => (none, c.insert page)
  | remove id => (none, c.remove id)
  | resize capacity => (none, c.resize capacity)
  | clear => (none, c.clear)

/-- The cache when a use has just taken place, before it makes room. -/
def start (c : Cache) : Use → Cache
  | get id => (c.get id).2
  | insert page => if c.capacity = 0 then c else c.put page
  | remove id => c.remove id
  | resize capacity => { c with capacity := capacity }
  | clear => c.clear

/-- Whether a page is looked up. -/
def looksUp : Use → Bool
  | get _ => true
  | _ => false

/-- The uses after which the page found before under a number is not the one found after: another
one is put in its place, or it is taken out. -/
def Displaces (id : PageId) : Use → Prop
  | get _ => False
  | insert page => page.id = id
  | remove other => other = id
  | resize _ => False
  | clear => True

end Use

end Cache

open Cache (Use)

/-! ## Lists of pages -/

/-- The pages without the one of a number. -/
def withoutPage (pages : List Page) (id : PageId) : List Page := pages.filter (·.id != id)

section

variable {pages : List Page} {page : Page} {id : PageId}

theorem map_withoutPage (pages : List Page) (id : PageId) :
    (withoutPage pages id).map Page.id = Cache.unqueue (pages.map Page.id) id := by
  rw [withoutPage, Cache.unqueue, List.filter_map]
  rfl

theorem withoutPage_of_not_mem (h : id ∉ pages.map Page.id) : withoutPage pages id = pages := by
  refine List.filter_eq_self.2 fun page hp => bne_iff_ne.2 ?_
  rintro rfl
  exact h (List.mem_map_of_mem hp)

theorem find?_eq_none_iff : pages.find? (·.id == id) = none ↔ id ∉ pages.map Page.id := by
  simp

theorem id_of_find? (h : pages.find? (·.id == id) = some page) : page.id = id := by
  have := List.find?_some h
  exact beq_iff_eq.1 this

theorem find?_withoutPage (pages : List Page) (id other : PageId) :
    (withoutPage pages id).find? (·.id == other) =
      if id = other then none else pages.find? (·.id == other) := by
  rw [withoutPage, List.find?_filter]
  split
  · rename_i h
    subst h
    exact List.find?_eq_none.2 fun page _ => by simp
  · rename_i h
    congr 1
    funext page
    by_cases hid : page.id = other
    · simp [hid, Ne.symm h]
    · simp [hid]

theorem find?_moved (pages : List Page) (page : Page) (id : PageId) :
    (withoutPage pages page.id ++ [page]).find? (·.id == id) =
      if page.id = id then some page else pages.find? (·.id == id) := by
  rw [List.find?_append, find?_withoutPage]
  split
  · rename_i h
    simp [h]
  · rename_i h
    simp [h]

theorem mem_withoutPage {other : Page} :
    other ∈ withoutPage pages id ↔ other ∈ pages ∧ other.id ≠ id := by
  simp [withoutPage]

theorem mem_moved {other : Page} :
    other ∈ withoutPage pages page.id ++ [page] ↔
      (other ∈ pages ∧ other.id ≠ page.id) ∨ other = page := by
  rw [List.mem_append, mem_withoutPage, List.mem_singleton]

/-- Distinct numbers: a page is told by its own. -/
theorem eq_of_mem_of_id (h : (pages.map Page.id).Nodup) {other : Page} (hp : other ∈ pages)
    (hq : page ∈ pages) (hid : other.id = page.id) : other = page :=
  List.inj_on_of_nodup_map h hp hq hid

theorem find?_eq_some_iff_mem (h : (pages.map Page.id).Nodup) :
    pages.find? (·.id == id) = some page ↔ page ∈ pages ∧ page.id = id := by
  constructor
  · exact fun hfind => ⟨List.mem_of_find?_eq_some hfind, id_of_find? hfind⟩
  · rintro ⟨hmem, rfl⟩
    cases hfind : pages.find? (·.id == page.id) with
    | none => exact absurd (List.mem_map_of_mem hmem) (find?_eq_none_iff.1 hfind)
    | some found =>
        rw [eq_of_mem_of_id h (List.mem_of_find?_eq_some hfind) hmem (id_of_find? hfind)]

theorem nodup_withoutPage (h : (pages.map Page.id).Nodup) (id : PageId) :
    ((withoutPage pages id).map Page.id).Nodup :=
  h.sublist (List.filter_sublist.map _)

theorem nodup_moved (h : (pages.map Page.id).Nodup) (page : Page) :
    ((withoutPage pages page.id ++ [page]).map Page.id).Nodup := by
  rw [List.map_append, List.map_singleton, List.nodup_append]
  refine ⟨nodup_withoutPage h page.id, List.nodup_singleton _, ?_⟩
  rintro id hid other hother rfl
  rw [map_withoutPage, Cache.mem_unqueue] at hid
  exact hid.2 (List.mem_singleton.1 hother)

end

/-! ## What a use does to the list -/

namespace RecentPages

/-- No pages yet. -/
def empty (capacity : Nat) : RecentPages := ⟨capacity, [], List.nodup_nil, Nat.zero_le _⟩

/-- The page of a number. -/
def page? (r : RecentPages) (id : PageId) : Option Page := r.pages.find? (·.id == id)

/-- The page that a use is answered with. -/
def answer (r : RecentPages) : Use → Option Page
  | .get id => r.page? id
  | _ => none

/-- How many pages there may be after a use. -/
def room (r : RecentPages) : Use → Nat
  | .resize capacity => capacity
  | _ => r.capacity

/-- The page that a use puts in. -/
def admitted (r : RecentPages) : Use → Option Page
  | .insert page => if r.capacity = 0 then none else some page
  | _ => none

/-- The pages in the order of their last use when a use has just taken place, before any is dropped
for space. -/
def arranged (r : RecentPages) : Use → List Page
  | .get id =>
      match r.page? id with
      | some page => withoutPage r.pages id ++ [page]
      | none => r.pages
  | .insert page => if r.capacity = 0 then r.pages else withoutPage r.pages page.id ++ [page]
  | .remove id => withoutPage r.pages id
  | .resize _ => r.pages
  | .clear => []

/-- The pages dropped for space: the least recently used ones, as many as there are too many. -/
def excess (r : RecentPages) (use : Use) : List Page :=
  (r.arranged use).take ((r.arranged use).length - r.room use)

theorem nodup_arranged (r : RecentPages) (use : Use) : ((r.arranged use).map Page.id).Nodup := by
  cases use with
  | get id =>
      rw [arranged]
      split
      · rename_i page hp
        exact id_of_find? hp ▸ nodup_moved r.distinct page
      · exact r.distinct
  | insert page =>
      rw [arranged]
      split
      · exact r.distinct
      · exact nodup_moved r.distinct page
  | remove id => exact nodup_withoutPage r.distinct id
  | resize capacity => exact r.distinct
  | clear => exact List.nodup_nil

/-- The pages after a use. -/
def after (r : RecentPages) (use : Use) : RecentPages where
  capacity := r.room use
  pages := (r.arranged use).drop ((r.arranged use).length - r.room use)
  distinct := (r.nodup_arranged use).sublist ((List.drop_sublist _ _).map _)
  within := by
    rw [List.length_drop]
    omega

theorem pages_after (r : RecentPages) (use : Use) :
    (r.after use).pages = (r.arranged use).drop ((r.arranged use).length - r.room use) := rfl

theorem excess_append (r : RecentPages) (use : Use) :
    r.excess use ++ (r.after use).pages = r.arranged use := List.take_append_drop _ _

/-! ### One use after the other -/

/-- A list of pages that is used like a cache. -/
def serve (r : RecentPages) (use : Use) : Option Page × RecentPages := (r.answer use, r.after use)

/-- The pages after uses. -/
def afterAll (r : RecentPages) (uses : List Use) : RecentPages := stateAfter serve r uses

/-- All pages that uses put in. -/
def allAdmitted (r : RecentPages) : List Use → List Page
  | [] => []
  | use :: uses => (r.admitted use).toList ++ (r.after use).allAdmitted uses

/-- All pages dropped for space by uses. -/
def allExcess (r : RecentPages) : List Use → List Page
  | [] => []
  | use :: uses => r.excess use ++ (r.after use).allExcess uses

/-- Through uses, the page of a number is neither replaced nor taken out nor dropped for space. -/
def Stays (id : PageId) (r : RecentPages) : List Use → Prop
  | [] => True
  | use :: uses =>
      ¬use.Displaces id ∧ id ∉ (r.excess use).map Page.id ∧ Stays id (r.after use) uses

theorem afterAll_append (r : RecentPages) (uses more : List Use) :
    r.afterAll (uses ++ more) = (r.afterAll uses).afterAll more := stateAfter_append ..

theorem stays_append {id : PageId} {r : RecentPages} {uses more : List Use} :
    Stays id r (uses ++ more) ↔ Stays id r uses ∧ Stays id (r.afterAll uses) more := by
  induction uses generalizing r with
  | nil => exact (and_iff_right trivial).symm
  | cons use uses ih =>
      simp only [List.cons_append, Stays, ih, and_assoc]
      rfl

/-! ### Which pages are there -/

theorem page?_eq_some_iff {r : RecentPages} {id : PageId} {page : Page} :
    r.page? id = some page ↔ page ∈ r.pages ∧ page.id = id :=
  find?_eq_some_iff_mem r.distinct

theorem mem_arranged (r : RecentPages) (use : Use) (page : Page) :
    page ∈ r.arranged use ↔
      (use = .insert page ∧ r.capacity ≠ 0) ∨ (page ∈ r.pages ∧ ¬use.Displaces page.id) := by
  cases use with
  | get id =>
      rw [arranged]
      split
      · rename_i found hfound
        obtain ⟨hmem, rfl⟩ := page?_eq_some_iff.1 hfound
        rw [mem_moved]
        constructor
        · rintro (⟨h, -⟩ | rfl)
          · exact .inr ⟨h, id⟩
          · exact .inr ⟨hmem, id⟩
        · rintro (⟨h, -⟩ | ⟨h, -⟩)
          · cases h
          · by_cases hid : page.id = found.id
            · exact .inr (eq_of_mem_of_id r.distinct h hmem hid)
            · exact .inl ⟨h, hid⟩
      · simp [Use.Displaces]
  | insert other =>
      rw [arranged]
      split
      · rename_i h0
        have hnil : r.pages = [] := List.eq_nil_of_length_eq_zero (by have := r.within; omega)
        simp [h0, hnil]
      · rename_i h0
        rw [mem_moved]
        constructor
        · rintro (⟨h, hid⟩ | rfl)
          · exact .inr ⟨h, fun he => hid he.symm⟩
          · exact .inl ⟨rfl, h0⟩
        · rintro (⟨h, -⟩ | ⟨h, hid⟩)
          · exact .inr (Use.insert.inj h).symm
          · exact .inl ⟨h, fun he => hid he.symm⟩
  | remove id =>
      rw [arranged, mem_withoutPage]
      simp [Use.Displaces, eq_comm]
  | resize capacity => simp [arranged, Use.Displaces]
  | clear => simp [arranged, Use.Displaces]

theorem mem_after_insert {r : RecentPages} {page : Page} (h : r.capacity ≠ 0) :
    page ∈ (r.after (.insert page)).pages := by
  have harranged : r.arranged (.insert page) = withoutPage r.pages page.id ++ [page] := if_neg h
  have hroom : r.room (.insert page) = r.capacity := rfl
  rw [pages_after, harranged, hroom, List.drop_append_of_le_length]
  · exact List.mem_append_right _ (List.mem_singleton_self _)
  · rw [List.length_append, List.length_singleton]
    omega

/-- **The pages after a use** are the page just put in, and those that were there before and are
neither displaced by the use nor dropped for space. -/
theorem mem_after (r : RecentPages) (use : Use) (page : Page) :
    page ∈ (r.after use).pages ↔
      (use = .insert page ∧ r.capacity ≠ 0) ∨
        (page ∈ r.pages ∧ ¬use.Displaces page.id ∧ page.id ∉ (r.excess use).map Page.id) := by
  have hsplit := r.excess_append use
  have hdistinct := r.nodup_arranged use
  rw [← hsplit, List.map_append, List.nodup_append] at hdistinct
  constructor
  · intro h
    have hnot : page.id ∉ (r.excess use).map Page.id := fun he =>
      hdistinct.2.2 _ he _ (List.mem_map_of_mem h) rfl
    have hmem : page ∈ r.arranged use := hsplit ▸ List.mem_append_right _ h
    rcases (mem_arranged r use page).1 hmem with hnew | ⟨hold, hstays⟩
    · exact .inl hnew
    · exact .inr ⟨hold, hstays, hnot⟩
  · rintro (⟨rfl, h0⟩ | ⟨hold, hstays, hnot⟩)
    · exact mem_after_insert h0
    · have hmem := (mem_arranged r use page).2 (.inr ⟨hold, hstays⟩)
      rw [← hsplit] at hmem
      exact (List.mem_append.1 hmem).resolve_left fun he => hnot (List.mem_map_of_mem he)

/-- **A page is there** exactly when it was put in at some time and has stayed since. -/
theorem mem_afterAll_iff (capacity : Nat) (uses : List Use) (page : Page) :
    page ∈ ((empty capacity).afterAll uses).pages ↔
      ∃ before since, uses = before ++ .insert page :: since ∧
        ((empty capacity).afterAll before).capacity ≠ 0 ∧
        Stays page.id ((empty capacity).afterAll (before ++ [.insert page])) since := by
  induction uses using List.reverseRecOn with
  | nil =>
      constructor
      · intro h
        cases h
      · rintro ⟨before, since, h, -⟩
        simp at h
  | append_singleton uses use ih =>
      have hafter : (empty capacity).afterAll (uses ++ [use]) =
          ((empty capacity).afterAll uses).after use := stateAfter_concat ..
      rw [hafter, mem_after, ih, exists_place_concat]
      refine or_congr ⟨fun ⟨hlast, h0⟩ => ⟨hlast, h0, trivial⟩, fun ⟨hlast, h0, _⟩ => ⟨hlast, h0⟩⟩
        ⟨?_, ?_⟩
      · rintro ⟨⟨before, since, rfl, h0, hstays⟩, hnot, hexcess⟩
        refine ⟨before, since, rfl, h0, stays_append.2 ⟨hstays, hnot, ?_, trivial⟩⟩
        rwa [List.append_cons, afterAll_append] at hexcess
      · rintro ⟨before, since, rfl, h0, hstays⟩
        obtain ⟨hsince, hnot, hexcess, -⟩ := stays_append.1 hstays
        refine ⟨⟨before, since, rfl, h0, hsince⟩, hnot, ?_⟩
        rwa [List.append_cons, afterAll_append]

end RecentPages

/-! ## A cache that holds a list of pages -/

namespace Cache

/-- A cache with exactly these pages, the least recently used first. -/
structure Holds (c : Cache) (pages : List Page) : Prop where
  queue_eq : c.queue = pages.map Page.id
  getElem?_eq : ∀ id, c.entries[id]? = pages.find? (·.id == id)
  distinct : (pages.map Page.id).Nodup

/-- The rounds in which a cache makes room: while there are more pages than the capacity allows, the
number at the front of the queue leaves, and the page that is held under it. A cache for which a
round drops no page is not on the way to anywhere. -/
inductive Evicts : Cache → List Page → Cache → Prop
  | done {c : Cache} (h : c.entries.size ≤ c.capacity) : Evicts c [] c
  | round {c d : Cache} {page : Page} {dropped : List Page} (hfull : c.capacity < c.entries.size)
      (hfront : c.queue.head? = some page.id) (hheld : c.entries[page.id]? = some page)
      (hrest : Evicts c.evictOne dropped d) : Evicts c (page :: dropped) d

section

variable {c d : Cache} {pages dropped : List Page} {page : Page} {id : PageId}

theorem Holds.mem_iff (h : c.Holds pages) : id ∈ c.entries ↔ id ∈ pages.map Page.id := by
  rw [← Std.ExtTreeMap.isSome_getElem?_iff_mem, h.getElem?_eq, ← not_iff_not, Bool.not_eq_true,
    Option.isSome_eq_false_iff, Option.isNone_iff_eq_none, find?_eq_none_iff]

theorem Holds.contains_iff (h : c.Holds pages) :
    c.entries.contains id = true ↔ id ∈ pages.map Page.id :=
  Std.ExtTreeMap.contains_iff_mem.trans h.mem_iff

/-- **The queue is a permutation of the numbers of the pages held.** -/
theorem Holds.queue_perm (h : c.Holds pages) : c.queue.Perm c.entries.keys := by
  rw [h.queue_eq]
  refine (List.perm_ext_iff_of_nodup h.distinct c.entries.nodup_keys).2 fun id => ?_
  rw [Std.ExtTreeMap.mem_keys, h.mem_iff]

theorem Holds.size_eq (h : c.Holds pages) : c.entries.size = pages.length := by
  rw [← Std.ExtTreeMap.length_keys, ← h.queue_perm.length_eq, h.queue_eq, List.length_map]

/-! ### Eviction -/

theorem Holds.evictOne (h : c.Holds (page :: pages)) :
    c.evictOne.Holds pages ∧ c.evictOne.capacity = c.capacity ∧
      c.evictOne.stats = { c.stats with evictions := c.stats.evictions + 1 } := by
  obtain ⟨hnot, hdistinct⟩ := List.nodup_cons.1 h.distinct
  have hheld : c.entries.contains page.id = true := h.contains_iff.2 List.mem_cons_self
  rw [evictOne_of_cons (h.queue_eq.trans List.map_cons)]
  refine ⟨⟨rfl, fun id => ?_, hdistinct⟩, rfl, ?_⟩
  · rw [PageMap.getElem?_erase, h.getElem?_eq]
    split
    · rename_i hid
      exact (find?_eq_none_iff.2 (hid ▸ hnot)).symm
    · rename_i hid
      rw [List.find?_cons_of_neg (by simpa using hid)]
  · rw [hheld, if_pos rfl]

/-- **Eviction always makes progress**: every round drops the least recently used page. -/
theorem Holds.evicts (h : c.Holds pages) :
    Evicts c (pages.take (pages.length - c.capacity)) c.evict := by
  induction pages generalizing c with
  | nil =>
      have hsize : c.entries.size = 0 := h.size_eq
      have hroom : ¬(c.capacity < c.entries.size ∧ c.queue ≠ []) := by omega
      rw [Cache.evict, if_neg hroom, List.take_nil]
      exact .done (by omega)
  | cons page pages ih =>
      have hsize : c.entries.size = pages.length + 1 := h.size_eq
      rw [Cache.evict, List.length_cons]
      split
      · rename_i hc
        obtain ⟨hrest, hcapacity, -⟩ := h.evictOne
        have hdropped := ih hrest
        rw [hcapacity] at hdropped
        rw [show pages.length + 1 - c.capacity = pages.length - c.capacity + 1 by omega,
          List.take_succ_cons]
        refine .round hc.1 ?_ ?_ hdropped
        · rw [h.queue_eq, List.map_cons, List.head?_cons]
        · rw [h.getElem?_eq, List.find?_cons_of_pos (by simp)]
      · rename_i hc
        have hne : c.queue ≠ [] := by
          rw [h.queue_eq]
          simp
        have hle : c.entries.size ≤ c.capacity := Nat.le_of_not_lt fun hlt => hc ⟨hlt, hne⟩
        rw [show pages.length + 1 - c.capacity = 0 by omega, List.take_zero]
        exact .done hle

/-- What eviction leaves: the pages behind those that it dropped. -/
theorem Evicts.holds (h : Evicts c dropped d) (hc : c.Holds pages) :
    d.Holds (pages.drop dropped.length) ∧ d.capacity = c.capacity ∧
      d.stats = { c.stats with evictions := c.stats.evictions + dropped.length } := by
  induction h generalizing pages with
  | done => exact ⟨hc, rfl, rfl⟩
  | @round c d page dropped hfull hfront hheld hrest ih =>
      cases pages with
      | nil =>
          have hsize : c.entries.size = 0 := hc.size_eq
          exact absurd hfull (by omega)
      | cons first pages =>
          obtain ⟨hnext, hcapacity, hstats⟩ := hc.evictOne
          obtain ⟨hholds, hcap, hst⟩ := ih hnext
          refine ⟨hholds, hcap.trans hcapacity, ?_⟩
          rw [hst, hstats, List.length_cons, Nat.add_comm dropped.length, ← Nat.add_assoc]

/-! ### The uses -/

/-- A cache that holds the pages of a list, under the same capacity. -/
structure Serves (c : Cache) (r : RecentPages) : Prop where
  holds : c.Holds r.pages
  capacity_eq : c.capacity = r.capacity

theorem serves_empty (capacity : Nat) :
    Serves { capacity := capacity } (RecentPages.empty capacity) :=
  ⟨⟨rfl, fun _ => Std.ExtTreeMap.getElem?_empty, List.nodup_nil⟩, rfl⟩

variable {r : RecentPages}

theorem Serves.getElem?_eq (h : c.Serves r) (id : PageId) : c.entries[id]? = r.page? id :=
  h.holds.getElem?_eq id

theorem Serves.size_le (h : c.Serves r) : c.entries.size ≤ c.capacity := by
  rw [h.holds.size_eq, h.capacity_eq]
  exact r.within

/-- While every number stands in the queue once, taking it from where it stands first takes it
away. -/
theorem touch_map (h : (pages.map Page.id).Nodup) (page : Page) :
    touch (pages.map Page.id) page.id = (withoutPage pages page.id ++ [page]).map Page.id := by
  rw [touch, h.erase_eq_filter, List.map_append, map_withoutPage]
  rfl

theorem Holds.put (h : c.Holds pages) (page : Page) :
    (c.put page).Holds (withoutPage pages page.id ++ [page]) where
  queue_eq := by
    rw [Cache.put, List.map_append, map_withoutPage, List.map_singleton]
    dsimp only
    congr 1
    split
    · rw [h.queue_eq]
    · rename_i hnot
      rw [← map_withoutPage, withoutPage_of_not_mem (mt h.contains_iff.2 hnot), h.queue_eq]
  getElem?_eq := fun id => by
    rw [Cache.put, PageMap.getElem?_insert, find?_moved, h.getElem?_eq]
  distinct := nodup_moved h.distinct page

theorem Holds.remove (h : c.Holds pages) (id : PageId) :
    (c.remove id).Holds (withoutPage pages id) := by
  rw [Cache.remove]
  split
  · refine ⟨?_, fun other => ?_, nodup_withoutPage h.distinct id⟩
    · rw [map_withoutPage, h.queue_eq]
    · rw [PageMap.getElem?_erase, find?_withoutPage, h.getElem?_eq]
  · rename_i hnot
    rw [withoutPage_of_not_mem (mt h.contains_iff.2 hnot)]
    exact h

theorem Serves.start (h : c.Serves r) (use : Use) :
    (use.start c).Holds (r.arranged use) ∧ (use.start c).capacity = r.room use := by
  cases use with
  | get id =>
      rw [Use.start, Cache.get, h.getElem?_eq, RecentPages.arranged]
      cases hp : r.page? id with
      | none => exact ⟨⟨h.holds.queue_eq, h.holds.getElem?_eq, r.distinct⟩, h.capacity_eq⟩
      | some page =>
          obtain ⟨hmem, rfl⟩ := RecentPages.page?_eq_some_iff.1 hp
          refine ⟨⟨?_, fun id => ?_, nodup_moved r.distinct page⟩, h.capacity_eq⟩
          · rw [← touch_map r.distinct, ← h.holds.queue_eq]
          · show c.entries[id]? = _
            rw [find?_moved, h.getElem?_eq]
            split
            · rename_i hid
              exact hid ▸ hp
            · rfl
  | insert page =>
      rw [Use.start, RecentPages.arranged, ← h.capacity_eq]
      split
      · exact ⟨h.holds, h.capacity_eq⟩
      · exact ⟨h.holds.put page, h.capacity_eq⟩
  | remove id =>
      refine ⟨h.holds.remove id, ?_⟩
      rw [Use.start, Cache.remove]
      split
      · exact h.capacity_eq
      · exact h.capacity_eq
  | resize capacity => exact ⟨⟨h.holds.queue_eq, h.holds.getElem?_eq, r.distinct⟩, rfl⟩
  | clear => exact ⟨⟨rfl, fun _ => Std.ExtTreeMap.getElem?_empty, List.nodup_nil⟩, h.capacity_eq⟩

theorem evict_of_le (h : c.entries.size ≤ c.capacity) : c.evict = c := by
  rw [evict, if_neg (by omega)]

theorem capacity_get (c : Cache) (id : PageId) : (c.get id).2.capacity = c.capacity := by
  rw [get]
  dsimp only
  split <;> rfl

/-- Every use ends with making room, though there can be too many pages only after a page was put
in or the capacity changed. -/
theorem Serves.serve_eq (h : c.Serves r) (use : Use) : (use.serve c).2 = (use.start c).evict := by
  cases use with
  | get id =>
      refine (evict_of_le ?_).symm
      show (c.get id).2.entries.size ≤ (c.get id).2.capacity
      rw [entries_get, capacity_get]
      exact h.size_le
  | insert page =>
      rw [Use.start, Use.serve, Cache.insert]
      split
      · exact (evict_of_le h.size_le).symm
      · rfl
  | remove id =>
      refine (evict_of_le ?_).symm
      show (c.remove id).entries.size ≤ (c.remove id).capacity
      rw [Cache.remove]
      split
      · exact Nat.le_trans Std.ExtTreeMap.size_erase_le h.size_le
      · exact h.size_le
  | resize capacity => rfl
  | clear => exact (evict_of_le (Nat.zero_le _)).symm

/-- What is counted when a use has just taken place. -/
theorem Serves.start_grown (h : c.Serves r) (use : Use) :
    c.stats.Grown (use.start c).stats use.looksUp.toNat (r.answer use).isSome.toNat
      (r.admitted use).toList.length 0 := by
  cases use with
  | get id =>
      rw [Use.start, Cache.get, h.getElem?_eq, RecentPages.answer]
      cases r.page? id with
      | none => exact ⟨rfl, rfl, rfl, rfl, rfl⟩
      | some page => exact ⟨rfl, rfl, rfl, rfl, rfl⟩
  | insert page =>
      rw [Use.start, RecentPages.admitted, ← h.capacity_eq]
      split
      · exact .refl _
      · exact ⟨rfl, rfl, rfl, rfl, rfl⟩
  | remove id =>
      rw [Use.start, Cache.remove]
      split
      · exact .refl _
      · exact .refl _
  | resize capacity => exact .refl _
  | clear => exact .refl _

/-- **A use of the cache** answers with the page of the list, makes room by dropping the least
recently used pages, leaves the list as it is after the use, and counts what it did. -/
theorem Serves.serve (h : c.Serves r) (use : Use) :
    (use.serve c).1 = r.answer use ∧
      Evicts (use.start c) (r.excess use) (use.serve c).2 ∧
      (use.serve c).2.Serves (r.after use) ∧
      c.stats.Grown (use.serve c).2.stats use.looksUp.toNat (r.answer use).isSome.toNat
        (r.admitted use).toList.length (r.excess use).length := by
  obtain ⟨hholds, hcapacity⟩ := h.start use
  have hevicts := hholds.evicts
  rw [hcapacity, ← h.serve_eq use] at hevicts
  obtain ⟨hleft, hcap, hstats⟩ := hevicts.holds hholds
  refine ⟨?_, hevicts, ⟨?_, hcap.trans hcapacity⟩, ?_⟩
  · cases use with
    | get id => exact (fst_get c id).trans (h.getElem?_eq id)
    | insert page => rfl
    | remove id => rfl
    | resize capacity => rfl
    | clear => rfl
  · rw [RecentPages.pages_after]
    rwa [List.length_take, Nat.min_eq_left (Nat.sub_le _ _)] at hleft
  · obtain ⟨hlookups, hhits, hmisses, hinsertions, hevictions⟩ := h.start_grown use
    rw [hstats]
    refine ⟨hlookups, hhits, hmisses, hinsertions, ?_⟩
    rw [hevictions]
    rfl

theorem countP_cons_toNat {α : Type} (p : α → Bool) (x : α) (xs : List α) :
    (x :: xs).countP p = (p x).toNat + xs.countP p := by
  rw [List.countP_cons, Nat.add_comm]
  cases p x <;> rfl

/-- The answers to uses one after the other, and the list after them. -/
theorem Serves.serve_all (h : c.Serves r) (uses : List Use) :
    answersTo Use.serve c uses = answersTo RecentPages.serve r uses ∧
      (stateAfter Use.serve c uses).Serves (r.afterAll uses) := by
  refine answersTo_eq_of_related (fun {c r} h use => ?_) h uses
  obtain ⟨hanswer, -, hserves, -⟩ := h.serve use
  exact ⟨hanswer, hserves⟩

/-- What is counted in uses one after the other. -/
theorem Serves.grown_all (h : c.Serves r) (uses : List Use) :
    c.stats.Grown (stateAfter Use.serve c uses).stats (uses.countP Use.looksUp)
      ((answersTo RecentPages.serve r uses).countP Option.isSome) (r.allAdmitted uses).length
      (r.allExcess uses).length := by
  induction uses generalizing c r with
  | nil => exact .refl _
  | cons use uses ih =>
      obtain ⟨-, -, hserves, hgrown⟩ := h.serve use
      rw [answersTo, RecentPages.allAdmitted, RecentPages.allExcess, countP_cons_toNat,
        countP_cons_toNat, List.length_append, List.length_append]
      exact hgrown.trans (ih hserves)

end

/-! ## The main result -/

/-- **The cache is the list of the pages used last.** Whatever a cache of any capacity has been
asked to do, its answers were those of the list, and it is as the list says: its capacity, the pages
under their numbers, and the queue, which is a permutation of these numbers without a repetition and
not longer than the capacity. Whatever it is asked next, it makes room round by round from such a
queue, and each round drops the page that was used longest ago, until there are not too many; at
capacity 0 nothing is put in and nothing counted. Its lookups are counted as hits and misses, and as
evictions the pages dropped for space, each once. It answers a lookup with a page exactly when that
page was put in under the number at some time, and has since been neither replaced nor taken out nor
dropped. -/
theorem cache_is_recent_pages (capacity : Nat) (uses : List Use) :
    let c := stateAfter Use.serve { capacity := capacity } uses
    let fresh := RecentPages.empty capacity
    let r := fresh.afterAll uses
    answersTo Use.serve { capacity := capacity } uses = answersTo RecentPages.serve fresh uses ∧
      (c.capacity = r.capacity ∧ c.size = r.pages.length ∧ ∀ id, c.entries[id]? = r.page? id) ∧
      (c.queue = r.pages.map Page.id ∧ c.queue.Nodup ∧ c.queue.Perm c.entries.keys ∧
        c.queue.length ≤ c.capacity) ∧
      (∀ use, (use.start c).queue.Perm (use.start c).entries.keys ∧
        Evicts (use.start c) (r.excess use) (use.serve c).2) ∧
      (c.capacity = 0 → ∀ page, c.insert page = c) ∧
      (c.stats.hits + c.stats.misses = c.stats.lookups ∧
        c.stats.lookups = uses.countP Use.looksUp ∧
        c.stats.hits = (answersTo RecentPages.serve fresh uses).countP Option.isSome ∧
        c.stats.insertions = (fresh.allAdmitted uses).length ∧
        c.stats.evictions = (fresh.allExcess uses).length) ∧
      ∀ id page, (c.get id).1 = some page ↔
        page.id = id ∧ ∃ before since, uses = before ++ .insert page :: since ∧
          (fresh.afterAll before).capacity ≠ 0 ∧
          RecentPages.Stays id (fresh.afterAll (before ++ [.insert page])) since := by
  intro c fresh r
  have hempty := serves_empty capacity
  obtain ⟨hanswers, hserves⟩ := hempty.serve_all uses
  have hgrown := hempty.grown_all uses
  have hsum := hgrown.hits_add_misses rfl
  obtain ⟨hlookups, hhits, -, hinsertions, hevictions⟩ := hgrown
  simp only [Nat.zero_add] at hlookups hhits hinsertions hevictions
  change c.Serves r at hserves
  have hqueue : c.queue = r.pages.map Page.id := hserves.holds.queue_eq
  have hlength : c.queue.length ≤ c.capacity := by
    rw [hqueue, List.length_map, hserves.capacity_eq]
    exact r.within
  refine ⟨hanswers, ⟨hserves.capacity_eq, hserves.holds.size_eq, hserves.getElem?_eq⟩,
    ⟨hqueue, hqueue ▸ r.distinct, hserves.holds.queue_perm, hlength⟩,
    fun use => ⟨(hserves.start use).1.queue_perm, (hserves.serve use).2.1⟩,
    fun h0 page => if_pos h0, ⟨hsum, hlookups, hhits, hinsertions, hevictions⟩, fun id page => ?_⟩
  rw [fst_get, hserves.getElem?_eq, RecentPages.page?_eq_some_iff, RecentPages.mem_afterAll_iff,
    and_comm]
  refine and_congr_right fun hid => ?_
  rw [hid]

/-- With room for three pages, the second one makes way for the fourth when the first was looked up
before. -/
example : ((RecentPages.empty 3).afterAll [.insert ⟨1, []⟩, .insert ⟨2, []⟩, .insert ⟨3, []⟩,
    .get 1, .insert ⟨4, []⟩]).pages.map Page.id = [3, 1, 4] := by decide

end Cache

end PagedStore
