import PagedStore.Proofs.ChainWalks

/-!
# Writing chains on any pages

All pages of a chain are allocated before the first of them is written. They come from the free
list, as long as that begins with a free page, and then from beyond the end of the file (`Drawn`).
After that each of them is written and names the next one (`linked`). All of this is told for
whatever the free list and the other pages may be like: the free list may even give out a page
twice, as it lives in the very pages that are to be written.
-/

set_option autoImplicit false

namespace PagedStore

/-! ## Drawing pages -/

/-- The pages `ids` are allocated one after the other, which leads from `f` to `g`. -/
inductive Drawn : Face → List PageId → Face → Prop where
  | none (f : Face) : Drawn f [] f
  | reused {f g : Face} {page : Page} {ids : List PageId} (some : f.header.freeHead ≠ 0)
      (offers : f.Offers page) (rest : Drawn (f.reused page) ids g) :
      Drawn f (f.header.freeHead :: ids) g
  | grown {f g h : Face} {ids : List PageId} (empty : f.header.freeHead = 0) (grown : f.Grown h)
      (rest : Drawn h ids g) : Drawn f (f.header.pageCount :: ids) g

theorem Face.Grown.count_lt {f g : Face} (h : f.Grown g) :
    f.header.pageCount < g.header.pageCount := by
  rw [h.header]
  exact (lt_succ_iff h.room _).2 (.inl rfl)

namespace Drawn

variable {f g : Face} {ids : List PageId} {id : PageId}

theorem pageSize (h : Drawn f ids g) : g.pageSize = f.pageSize := by
  induction h with
  | none f => rfl
  | reused _ _ _ ih => exact ih
  | grown _ hgrown _ ih => exact ih.trans hgrown.pageSize

theorem root (h : Drawn f ids g) : g.header.root = f.header.root := by
  induction h with
  | none f => rfl
  | reused _ _ _ ih => exact ih
  | grown _ hgrown _ ih => rw [ih, hgrown.header]

theorem count_le (h : Drawn f ids g) : f.header.pageCount ≤ g.header.pageCount := by
  induction h with
  | none f => exact UInt32.le_refl _
  | reused _ _ _ ih => exact ih
  | grown _ hgrown _ ih => exact UInt32.le_trans (UInt32.le_of_lt hgrown.count_lt) ih

/-- The other pages are as before. -/
theorem pages (h : Drawn f ids g) (hid : id ∉ ids) : g.pages id = f.pages id := by
  induction h with
  | none f => rfl
  | reused _ _ _ ih => exact ih (List.not_mem_of_not_mem_cons hid)
  | grown _ hgrown _ ih =>
      rw [ih (List.not_mem_of_not_mem_cons hid), hgrown.pages id (List.ne_of_not_mem_cons hid)]

end Drawn

namespace Tree.Chain

open PagedStore.Action Pager

/-- Allocation goes on until there are as many pages as are asked for, or no page can be given
out. -/
theorem exec_allocateAll {p : Pager} {d : Disk} (h : Usable p d) (count : Nat) :
    ∃ r q ids, (allocateAll count).exec p d = (r, q, d) ∧ Drawn (p.face d) ids (q.face d) ∧
      match r with
      | .ok given => given = ids ∧ ids.length = count
      | .error e => ids.length < count ∧ (q.face d).Refuses e := by
  induction count generalizing p with
  | zero => exact ⟨.ok [], p, [], rfl, .none _, rfl, rfl⟩
  | succ count ih =>
      -- The first page leads to a pager from which the others are allocated.
      have hgoes : ∀ {id : PageId} {p' : Pager}, allocate.exec p d = (.ok id, p', d) →
          (∀ {ids : List PageId} {g : Face}, Drawn (p'.face d) ids g →
            Drawn (p.face d) (id :: ids) g) →
          ∃ r q ids, (allocateAll (count + 1)).exec p d = (r, q, d) ∧
            Drawn (p.face d) ids (q.face d) ∧ match r with
              | .ok given => given = ids ∧ ids.length = count + 1
              | .error e => ids.length < count + 1 ∧ (q.face d).Refuses e := by
        intro id p' hfirst hdrawn
        obtain ⟨r, q, ids, hrest, hids, hr⟩ := ih (h.of_orderly .allocate hfirst)
        refine ⟨r.map (id :: ·), q, id :: ids, ?_, hdrawn hids, ?_⟩
        · rw [allocateAll, exec_bind_ok hfirst]
          exact exec_bind_pure hrest _
        · cases r with
          | ok given =>
              obtain ⟨rfl, hlen⟩ := hr
              exact ⟨rfl, congrArg Nat.succ hlen⟩
          | error e => exact ⟨Nat.succ_lt_succ hr.1, hr.2⟩
      rcases h.exec_allocate with
        ⟨p', page, hexec, hsome, hoffers, hface⟩ | ⟨p', hexec, hnone, hgrown⟩ |
          ⟨e, q, hexec, halike, hrefuses⟩
      · exact hgoes hexec fun hrest => .reused hsome hoffers (hface ▸ hrest)
      · exact hgoes hexec fun hrest => .grown hnone hgrown hrest
      · rw [← halike.face d] at hrefuses ⊢
        refine ⟨.error e, q, [], ?_, .none _, Nat.succ_pos _, hrefuses⟩
        rw [allocateAll]
        exact exec_bind_error hexec

/-! ## Linking them -/

/-- A face with parts written to pages, each of which names the next one. -/
def linked (f : Face) : List PageId → List Bytes → Face
  | id :: ids, part :: more =>
      linked (f.set (.make id f.pageSize .overflow (payload (ids.headD 0) part))) ids more
  | _, _ => f

section

variable {f : Face} {ids : List PageId} {bss : List Bytes} {id : PageId}

theorem linked_header (f : Face) (ids : List PageId) (bss : List Bytes) :
    (linked f ids bss).header = f.header := by
  fun_induction linked f ids bss with
  | case1 f id ids part more ih => exact ih
  | case2 => rfl

theorem linked_pageSize (f : Face) (ids : List PageId) (bss : List Bytes) :
    (linked f ids bss).pageSize = f.pageSize := by
  fun_induction linked f ids bss with
  | case1 f id ids part more ih => exact ih
  | case2 => rfl

/-- The other pages are as before. -/
theorem pages_linked (hid : id ∉ ids) : (linked f ids bss).pages id = f.pages id := by
  fun_induction linked f ids bss with
  | case1 f first ids part more ih =>
      rw [ih (List.not_mem_of_not_mem_cons hid)]
      exact Face.pages_set_of_ne (List.ne_of_not_mem_cons hid)
  | case2 => rfl

/-- Every page that is written is one of a chain, even if it is written again. -/
theorem overflow_linked (hid : id ∈ ids) (hlen : ids.length ≤ bss.length) :
    ∃ page, (linked f ids bss).pages id = .ok page ∧ page.kind = .ok .overflow := by
  fun_induction linked f ids bss with
  | case1 f first ids part more ih =>
      by_cases hagain : id ∈ ids
      · exact ih hagain (Nat.le_of_succ_le_succ hlen)
      · obtain rfl := (List.mem_cons.1 hid).resolve_right hagain
        refine ⟨link f id (ids.headD 0) part, ?_, kind_link id _ part⟩
        rw [pages_linked hagain]
        exact Face.pages_set_self f (.make id f.pageSize .overflow (payload (ids.headD 0) part))
  | case2 ids f bss hno =>
      match ids, bss, hid, hlen with
      | first :: ids, part :: more, _, _ => exact (hno first ids part more rfl rfl).elim

/-- **Parts that are written to different pages make a chain.** -/
theorem chainAt_linked (hnodup : ids.Nodup) (hlen : ids.length = bss.length)
    (hcap : ∀ part ∈ bss, part.length ≤ capacity f.pageSize) :
    ChainAt (linked f ids bss) (ids.headD 0) bss ids := by
  fun_induction linked f ids bss with
  | case1 f id ids part more ih =>
      obtain ⟨hnot, hnodup⟩ := List.nodup_cons.1 hnodup
      refine ⟨rfl, ?_, ids.headD 0, ?_, ih hnodup (Nat.succ.inj hlen) fun other ho =>
        hcap other (List.mem_cons_of_mem _ ho)⟩
      · rw [linked_pageSize]
        exact hcap part List.mem_cons_self
      · show (linked _ ids more).pages id = .ok (link _ id _ part)
        rw [pages_linked hnot, link, linked_pageSize]
        exact Face.pages_set_self f (.make id f.pageSize .overflow (payload (ids.headD 0) part))
  | case2 ids f bss hno =>
      cases ids with
      | nil =>
          obtain rfl := List.length_eq_zero_iff.1 hlen.symm
          rfl
      | cons id ids =>
          cases bss with
          | nil => cases hlen
          | cons part more => exact (hno id ids part more rfl rfl).elim

end

/-- Writing succeeds on pages of the file. -/
theorem exec_writeAll {p : Pager} {d : Disk} (h : Usable p d) (ids : List PageId)
    (bss : List Bytes) :
    ∃ r q, (writeAll ids bss).exec p d = (r, q, d) ∧
      (∀ e, r = .error e → IsCorrupt e) ∧
      ((∀ id ∈ ids, (p.face d).Has id) → r = .ok ()) ∧
      (r = .ok () → q.face d = linked (p.face d) ids bss ∧
        (ids.length ≤ bss.length → ∀ id ∈ ids, (p.face d).Has id)) := by
  induction ids generalizing p bss with
  | nil => exact ⟨.ok (), p, rfl, nofun, fun _ => rfl, fun _ => ⟨rfl, fun _ => nofun⟩⟩
  | cons id ids ih =>
      cases bss with
      | nil => exact ⟨.ok (), p, rfl, nofun, fun _ => rfl, fun _ => ⟨rfl, nofun⟩⟩
      | cons part more =>
          rw [writeAll, exec_bind, exec_self]
          dsimp only
          let page : Page := .make id p.pageSize .overflow (payload (ids.headD 0) part)
          rcases h.exec_write page with ⟨hhas, hexec, hface⟩ | ⟨s, hexec⟩
          · have hlen : p.pageSize ∈ pageSizes → page.image.length = p.pageSize := fun hp =>
              Page.length_make (Nat.le_trans (by decide) (pageSize_bounds hp).1) ..
            have h' : Usable (p.written page) d := h.of_same (same_written p page)
              (h.coherent.written (face_inRange.2 hhas) hlen)
            obtain ⟨r, q, hrest, herror, hok, hwritten⟩ := ih h' more
            rw [hface] at hok hwritten
            refine ⟨r, q, (exec_bind_ok hexec).trans hrest, herror, fun hall => ?_, fun hr => ?_⟩
            · exact hok fun other ho => hall other (List.mem_cons_of_mem _ ho)
            · obtain ⟨hq, hall⟩ := hwritten hr
              refine ⟨hq, fun hle other ho => ?_⟩
              rcases List.mem_cons.1 ho with rfl | ho
              · exact hhas
              · exact hall (Nat.le_of_succ_le_succ hle) other ho
          · refine ⟨_, p, exec_bind_error hexec, ?_, fun hall => ?_, nofun⟩
            · rintro _ ⟨⟩
              exact ⟨s, rfl⟩
            · obtain ⟨hgood, -⟩ := h.exec_write_of_has page (hall id List.mem_cons_self)
              cases hgood.symm.trans hexec

/-- The chain of a value, on the pages `ids` that are allocated for it. -/
structure Wrote (f g : Face) (value : Bytes) (head : PageId) (ids : List PageId) : Prop where
  head : head = ids.headD 0
  length : ids.length = (parts (capacity f.pageSize) value).length
  drawn : ∃ k, Drawn f ids k ∧ (∀ id ∈ ids, k.Has id) ∧
    g = linked k ids (parts (capacity f.pageSize) value)

theorem Wrote.root {f g : Face} {value : Bytes} {head : PageId} {ids : List PageId}
    (h : Wrote f g value head ids) : g.header.root = f.header.root := by
  obtain ⟨k, hdrawn, -, rfl⟩ := h.drawn
  rw [linked_header, hdrawn.root]

/-- **What comes of writing a value to a chain**, be the free list and the other pages as they may:
the chain, or a failure that says that there are not enough pages or that a page is damaged. -/
theorem exec_writeValue {p : Pager} {d : Disk} (h : Usable p d) (value : Bytes) :
    ∃ r q, (write value).exec p d = (r, q, d) ∧
      (∀ e, r = .error e → IsCorrupt e ∨ IsFull e) ∧
      ∀ head, r = .ok head → ∃ ids, Wrote (p.face d) (q.face d) value head ids := by
  obtain ⟨r, p', ids, hall, hdrawn, hr⟩ :=
    exec_allocateAll h (parts (capacity p.pageSize) value).length
  have h' : Usable p' d := h.of_orderly (orderly_allocateAll _) hall
  rw [write, exec_bind, exec_self]
  dsimp only
  cases r with
  | error e =>
      refine ⟨_, p', exec_bind_error hall, ?_, nofun⟩
      rintro _ ⟨⟩
      rcases hr.2 with ⟨-, -, hfull⟩ | ⟨-, -, hcorrupt⟩
      · exact .inr hfull
      · exact .inl hcorrupt
  | ok given =>
      obtain ⟨rfl, hlen⟩ := hr
      obtain ⟨r, q, hwrite, herror, -, hok⟩ :=
        exec_writeAll h' given (parts (capacity p.pageSize) value)
      rw [exec_bind_ok hall]
      cases r with
      | error e =>
          refine ⟨_, q, exec_bind_error hwrite, ?_, nofun⟩
          rintro _ ⟨⟩
          exact .inl (herror e rfl)
      | ok _ =>
          obtain ⟨hface, hhas⟩ := hok rfl
          refine ⟨_, q, exec_bind_ok hwrite, nofun, ?_⟩
          rintro _ ⟨⟩
          exact ⟨given, rfl, hlen, _, hdrawn, hhas (Nat.le_of_eq hlen), hface⟩

/-- Where no page may be allocated no chain is written: even the empty value takes a page. -/
theorem exec_write_refused {p : Pager} {d : Disk} {e : Error}
    (hno : ensureWritable.exec p d = (.error e, p, d)) (value : Bytes) :
    (write value).exec p d = (.error e, p, d) := by
  obtain ⟨count, hcount⟩ := Nat.exists_eq_succ_of_ne_zero
    (mt List.length_eq_zero_iff.1 (parts_ne_nil (capacity p.pageSize) value))
  have hfirst : allocate.exec p d = (.error e, p, d) := exec_bind_error hno
  rw [write, exec_bind, exec_self]
  dsimp only
  rw [hcount, allocateAll]
  exact exec_bind_error (exec_bind_error hfirst)

end Tree.Chain

end PagedStore
