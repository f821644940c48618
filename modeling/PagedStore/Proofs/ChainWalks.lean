import Mathlib.Logic.Relation
import PagedStore.Proofs.CarefulLives
import PagedStore.Proofs.Chains
import PagedStore.Proofs.Limits
import PagedStore.Proofs.LoggedFiles
import PagedStore.Proofs.Trails

/-!
# Walks along chains of any pages

The pages of a damaged file may name each other as they like: in a circle, into the tree, beyond the
end of the file. As each page names one next page, a walk that comes to an end has met no page
twice, so it has fewer hops than the file has pages; whatever goes on for longer goes in a circle.

A walk that reads ends at the last page of a chain, or at a page that it cannot pass. It gives up a
circle by the count of its hops, save for one file: where the header speaks of as many pages as can
be counted, no count of hops is greater, and the walk goes on for ever (`walks_go_wrong`). And the
part that a page claims to hold may go beyond the end of the page if that is shorter than those of
the file, which the pages of a log may be; there the program stops.

While a chain is freed its pages are turned into free ones. A walk that comes back to one of them is
given up there, so every one of these ends.
-/

set_option autoImplicit false

namespace PagedStore

/-- The failures that the pages of a file can bring about. -/
inductive Face.Trouble (f : Face) : Error → Prop where
  /-- A page is damaged. -/
  | damaged (s : String) : Trouble f (.corrupt s)
  /-- A page ends before its part of a value does. -/
  | short (uneven : ¬ f.Even) : Trouble f .panicked
  /-- The hops along a chain cannot be counted. -/
  | uncounted (full : f.header.pageCount = 0xFFFFFFFF) : Trouble f .endless

theorem Face.Trouble.of_corrupt {f : Face} {e : Error} (h : IsCorrupt e) : f.Trouble e := by
  obtain ⟨s, rfl⟩ := h
  exact .damaged s

namespace Tree.Chain

open PagedStore.Action Pager

/-! ## What follows a page -/

/-- A page of a chain, or of the free list, names the next one. -/
def Leads (f : Face) (kind : PageKind) (id next : PageId) : Prop :=
  ∃ page, f.pages id = .ok page ∧ page.kind = .ok kind ∧ next = nextOf page

/-- The pages `ids` of a chain follow one another from a page on, and the last of them names no next
one. -/
def Linked (f : Face) : PageId → List PageId → Prop := Trail (· = 0) (Leads f .overflow)

/-- The part of the value that a page of a chain holds, provided that it does not claim to hold more
than there is room for. -/
def HoldsPart (f : Face) (id : PageId) (part : Bytes) : Prop :=
  ∃ page, f.pages id = .ok page ∧ lengthOf page ≤ capacity f.pageSize ∧
    partOf page (lengthOf page) = .ok part

/-- The bytes that a chain holds. -/
def Spells (f : Face) (id : PageId) (bs : Bytes) : Prop :=
  ∃ ids parts, Linked f id ids ∧ List.Forall₂ (HoldsPart f) ids parts ∧ bs = parts.flatten

/-- A walk that reads goes on from a page of a chain to the next one. -/
def Passes (f : Face) (id next : PageId) : Prop :=
  Leads f .overflow id next ∧ ∃ part, HoldsPart f id part

/-- A page of a chain that claims to hold no more than there is room for in a page of the file, but
more than it has room for itself. -/
def Short (f : Face) (id : PageId) : Prop :=
  ∃ page, f.pages id = .ok page ∧ page.kind = .ok .overflow ∧
    lengthOf page ≤ capacity f.pageSize ∧ (page.payload.drop linkLength).length < lengthOf page

/-- A walk that reads comes to a page from which it cannot go on. -/
def Ends (f : Face) (id last : PageId) : Prop :=
  Relation.ReflTransGen (Passes f) id last ∧ ∀ next, ¬ Passes f last next

section

variable {f : Face} {id next last : PageId} {ids : List PageId} {page : Page} {bs : Bytes}

theorem leads_one (f : Face) (kind : PageKind) :
    ∀ a b c, Leads f kind a b → Leads f kind a c → b = c := by
  rintro a b c ⟨page, hpage, -, rfl⟩ ⟨other, hother, -, rfl⟩
  rw [Except.ok.inj (hpage.symm.trans hother)]

theorem passes_one (f : Face) : ∀ a b c, Passes f a b → Passes f a c → b = c :=
  fun a b c hb hc => leads_one f .overflow a b c hb.1 hc.1

theorem Linked.nodup (h : Linked f id ids) : ids.Nodup := Trail.nodup (leads_one f _) h

theorem Linked.overflow (h : Linked f id ids) :
    ∀ other ∈ ids, ∃ page, f.pages other = .ok page ∧ page.kind = .ok .overflow :=
  Trail.forall_mem (fun _ _ ⟨page, hpage, hkind, _⟩ => ⟨page, hpage, hkind⟩) h

theorem linked_zero : Linked f 0 ids ↔ ids = [] := by
  constructor
  · intro h
    cases h with
    | stop => rfl
    | step hgoes => exact absurd rfl hgoes
  · rintro rfl
    exact .stop rfl

theorem linked_iff (h0 : id ≠ 0) (hpage : f.pages id = .ok page)
    (hkind : page.kind = .ok .overflow) :
    Linked f id ids ↔ ∃ more, ids = id :: more ∧ Linked f (nextOf page) more := by
  constructor
  · intro h
    cases h with
    | stop hstop => exact absurd hstop h0
    | @step _ _ more _ hnext hrest =>
        obtain rfl := leads_one f _ _ _ _ hnext ⟨page, hpage, hkind, rfl⟩
        exact ⟨more, rfl, hrest⟩
  · rintro ⟨more, rfl, hrest⟩
    exact .step h0 ⟨page, hpage, hkind, rfl⟩ hrest

/-- A page that is not one of a chain begins none. -/
theorem not_linked (h0 : id ≠ 0) (hno : ∀ page, f.pages id = .ok page → page.kind ≠ .ok .overflow) :
    ¬ Linked f id ids := by
  intro h
  cases h with
  | stop hstop => exact h0 hstop
  | step _ hnext =>
      obtain ⟨page, hpage, hkind, -⟩ := hnext
      exact hno page hpage hkind

/-! ## Where a walk ends -/

theorem not_passes_zero (hf : f.Honest) : ¬ Passes f 0 next := by
  rintro ⟨⟨page, hpage, -⟩, -⟩
  exact (hf.has 0 page hpage).1 rfl

/-- The part that a page claims is read if it lies within the page. -/
theorem partOf_eq_ok {n : Nat} (h : n ≤ (page.payload.drop linkLength).length) :
    partOf page n = .ok ((page.payload.drop linkLength).take n) := by
  rw [partOf, Bytes.take?, if_pos (List.length_take_of_le h)]

theorem partOf_eq_error {n : Nat} (h : (page.payload.drop linkLength).length < n) :
    partOf page n = .error .panicked := by
  have hfewer : (List.take n (page.payload.drop linkLength)).length ≠ n :=
    Nat.ne_of_lt (Nat.lt_of_le_of_lt (List.length_take_le' n _) h)
  rw [partOf, Bytes.take?, if_neg hfewer]

/-- A page that ends too soon is not passed. -/
theorem Short.not_passes (h : Short f id) : ¬ Passes f id next := by
  obtain ⟨page, hpage, -, -, hshort⟩ := h
  rintro ⟨-, part, other, hother, -, hpart⟩
  obtain rfl := Except.ok.inj (hpage.symm.trans hother)
  rw [partOf_eq_error hshort] at hpart
  cases hpart

/-- Where all pages are as long as those of the file none of them ends too soon. -/
theorem not_short (hf : f.Even) : ¬ Short f id := by
  rintro ⟨page, hpage, -, hfits, hshort⟩
  have hlen := hf id page hpage
  rw [Page.payload, List.length_drop, List.length_drop, hlen] at hshort
  rw [capacity] at hfits
  omega

/-- There is one page at most at which a walk ends. -/
theorem Ends.unique {other : PageId} (h : Ends f id last) (h' : Ends f id other) :
    last = other := by
  have hone : Relator.RightUnique (Passes f) := fun a b c => passes_one f a b c
  rcases Relation.ReflTransGen.total_of_right_unique hone h.1 h'.1 with hto | hto
  · rcases hto.cases_head with heq | ⟨next, hnext, -⟩
    · exact heq
    · exact absurd hnext (h.2 next)
  · rcases hto.cases_head with heq | ⟨next, hnext, -⟩
    · exact heq.symm
    · exact absurd hnext (h'.2 next)

/-- A walk that ends is a trail, and no page is on it twice. -/
theorem Ends.exists_trail (h : Ends f id last) : ∃ ids, Trail (· = last) (Passes f) id ids := by
  obtain ⟨hreach, hend⟩ := h
  induction hreach using Relation.ReflTransGen.head_induction_on with
  | refl => exact ⟨[], .stop rfl⟩
  | @head a b hab _ ih =>
      obtain ⟨ids, hids⟩ := ih
      refine ⟨a :: ids, .step ?_ hab hids⟩
      rintro rfl
      exact hend b hab

/-- The pages of a trail are pages of the file. -/
theorem length_le_of_trail (hf : f.Honest) (h : Trail (· = last) (Passes f) id ids) :
    ids.length ≤ f.header.pageCount.toNat - 1 := by
  refine Face.length_le_of_nodup (h.nodup (passes_one f)) (h.forall_mem ?_)
  rintro a b ⟨⟨page, hpage, -⟩, -⟩
  exact hf.has a page hpage

/-- A chain whose parts can be read is a walk that ends without a next page. -/
theorem Spells.ends (hf : f.Honest) (h : Spells f id bs) : Ends f id 0 := by
  obtain ⟨ids, parts, hlinked, hparts, -⟩ := h
  refine ⟨?_, fun next => not_passes_zero hf⟩
  induction hlinked generalizing parts with
  | stop hstop => exact hstop ▸ .refl
  | step _ hnext _ ih =>
      cases hparts with
      | cons hpart hrest => exact .head ⟨hnext, _, hpart⟩ (ih _ hrest)

/-- A walk that does not end can go on. -/
theorem exists_passes (h : ∀ last, ¬ Ends f id last) :
    ∃ next, Passes f id next ∧ ∀ last, ¬ Ends f next last := by
  obtain ⟨next, hnext⟩ : ∃ next, Passes f id next := by
    by_contra hno
    exact h id ⟨.refl, fun next hnext => hno ⟨next, hnext⟩⟩
  exact ⟨next, hnext, fun last hlast => h last ⟨.head hnext hlast.1, hlast.2⟩⟩

end

/-- Below the number of pages there is one more hop. -/
theorem hop_le {hops count : UInt32} (h : hops.toNat < count.toNat) : hops + 1 ≤ count := by
  rw [UInt32.le_iff_toNat_le, toNat_hop h]
  exact h

/-- A file without pages has none to be read. -/
theorem pages_ne_ok {f : Face} (hf : f.Honest) (hnone : f.header.pageCount = 0) (id : PageId)
    (page : Page) : f.pages id ≠ .ok page := fun hpage => by
  have hlt := (hf.has id page hpage).2
  rw [hnone] at hlt
  exact UInt32.not_lt_zero hlt

/-! ## Visits -/

/-- What becomes of the next page of a walk: it is one of a chain and the hop is one of those that
there may be, or the walk is given up. -/
inductive Visited (f : Face) (id : PageId) (hops : UInt32) : Except Error Page → Prop where
  | passed {page : Page} (there : f.pages id = .ok page) (kind : page.kind = .ok .overflow)
      (hop : hops ≤ f.header.pageCount) : Visited f id hops (.ok page)
  | stopped {e : Error} (corrupt : IsCorrupt e)
      (bad : f.header.pageCount < hops ∨
        ∀ page, f.pages id = .ok page → page.kind ≠ .ok .overflow) : Visited f id hops (.error e)

theorem answers_visit {f : Face} (hf : f.Honest) (head id : PageId) (hops : UInt32) :
    ∃ r, Answers f (visit head id hops) r ∧ Visited f id hops r := by
  by_cases hlast : f.header.pageCount < hops
  · refine ⟨.error (.corrupt s!"overflow chain at page {head} loops"), .look fun p hh _ => ?_,
      .stopped ⟨_, rfl⟩ (.inl hlast)⟩
    rw [hh, if_pos hlast]
    exact .throw _
  have hread := Answers.read f id
  cases hpage : f.pages id with
  | error e =>
      rw [hpage] at hread
      refine ⟨.error e, .look fun p hh _ => ?_, .stopped (hf.corrupt id e hpage) (.inr ?_)⟩
      · rw [hh, if_neg hlast]
        exact .bind_error hread
      · intro page hother
        rw [hpage] at hother
        cases hother
  | ok page =>
      rw [hpage] at hread
      cases hkind : page.kind with
      | error e =>
          refine ⟨.error e, .look fun p hh _ => ?_, .stopped (corrupt_of_kind hkind) (.inr ?_)⟩
          · rw [hh, if_neg hlast]
            exact .bind_ok hread (.bind_error (hkind ▸ .ofResult f page.kind))
          · rintro other hother
            obtain rfl := Except.ok.inj (hpage.symm.trans hother)
            simp [hkind]
      | ok kind =>
          have hof : Answers f (ofResult page.kind) (.ok kind) := hkind ▸ .ofResult f page.kind
          by_cases hover : kind = .overflow
          · refine ⟨.ok page, .look fun p hh _ => ?_,
              .passed hpage (hover ▸ hkind) (UInt32.not_lt.1 hlast)⟩
            rw [hh, if_neg hlast]
            refine .bind_ok hread (.bind_ok hof ?_)
            rw [if_neg (not_not.2 hover)]
            exact .pure page
          · refine ⟨.error (.corrupt s!"page {id} is not an overflow page"),
              .look fun p hh _ => ?_, .stopped ⟨_, rfl⟩ (.inr ?_)⟩
            · rw [hh, if_neg hlast]
              refine .bind_ok hread (.bind_ok hof ?_)
              rw [if_pos hover]
              exact .throw _
            · rintro other hother
              obtain rfl := Except.ok.inj (hpage.symm.trans hother)
              simp [hkind, hover]

/-- After the last hop that there may be a walk is given up. -/
theorem answers_visit_loops {f : Face} {hops : UInt32} (h : f.header.pageCount < hops)
    (head id : PageId) : Answers f (visit head id hops)
      (.error (.corrupt s!"overflow chain at page {head} loops")) := by
  refine .look fun p hh _ => ?_
  rw [hh, if_pos h]
  exact .throw _

/-! ## Reading -/

/-- What a walk that reads comes to at a page, as long as there are hops left. -/
inductive Hop (f : Face) (head : PageId) (hops : UInt32) (id : PageId) : Prop where
  /-- It goes on, and what it gives is the part that the page holds and the rest. -/
  | passed {next : PageId} {part : Bytes} (leads : Leads f .overflow id next)
      (holds : HoldsPart f id part)
      (goes : ∀ fuel r, Answers f (readFrom head fuel (hops + 1) next) r →
        Answers f (readFrom head (fuel + 1) hops id) (r.map (part ++ ·)))
  /-- The page ends too soon. -/
  | short (short : Short f id)
      (stops : ∀ fuel, Answers f (readFrom head (fuel + 1) hops id) (.error .panicked))
  /-- The page is damaged. -/
  | damaged {e : Error} (corrupt : IsCorrupt e) (bad : ∀ next, ¬ Passes f id next)
      (long : ¬ Short f id)
      (stops : ∀ fuel, Answers f (readFrom head (fuel + 1) hops id) (.error e))

theorem readFrom_succ (head : PageId) (fuel : Nat) (hops : UInt32) {id : PageId} (h0 : id ≠ 0) :
    readFrom head (fuel + 1) hops id = (do
      let page ← visit head id (hops + 1)
      let length := lengthOf page
      if capacity (← self).pageSize < length then
        throw (.corrupt s!"overflow page {page.id} claims {length} bytes")
      let part ← ofResult (partOf page length)
      return part ++ (← readFrom head fuel (hops + 1) (nextOf page))) := by
  rw [readFrom, if_neg h0]

theorem hop {f : Face} (hf : f.Honest) (head : PageId) {hops : UInt32} {id : PageId} (h0 : id ≠ 0)
    (hhop : hops + 1 ≤ f.header.pageCount) : Hop f head hops id := by
  obtain ⟨r, hvisit, hr⟩ := answers_visit hf head id (hops + 1)
  cases hr with
  | @stopped e hcorrupt hbad =>
      have hno := hbad.resolve_left (UInt32.not_lt.2 hhop)
      refine .damaged hcorrupt ?_ ?_ fun fuel => ?_
      · rintro next ⟨⟨page, hpage, hkind, -⟩, -⟩
        exact hno page hpage hkind
      · rintro ⟨page, hpage, hkind, -⟩
        exact hno page hpage hkind
      · rw [readFrom_succ head fuel hops h0]
        exact .bind_error hvisit
  | @passed page hpage hkind _ =>
      have same : ∀ other, f.pages id = .ok other → other = page := fun other hother =>
        Except.ok.inj (hother.symm.trans hpage)
      by_cases hlong : capacity f.pageSize < lengthOf page
      · refine .damaged ⟨s!"overflow page {page.id} claims {lengthOf page} bytes", rfl⟩ ?_ ?_
          fun fuel => ?_
        · rintro next ⟨-, part, other, hother, hfits, -⟩
          rw [same other hother] at hfits
          exact Nat.not_le_of_lt hlong hfits
        · rintro ⟨other, hother, -, hfits, -⟩
          rw [same other hother] at hfits
          exact Nat.not_le_of_lt hlong hfits
        · rw [readFrom_succ head fuel hops h0]
          refine .bind_ok hvisit (.look fun p _ hp => ?_)
          rw [hp, if_pos hlong]
          exact .throw _
      by_cases hshort : (page.payload.drop linkLength).length < lengthOf page
      · refine .short ⟨page, hpage, hkind, Nat.not_lt.1 hlong, hshort⟩ fun fuel => ?_
        rw [readFrom_succ head fuel hops h0]
        refine .bind_ok hvisit (.look fun p _ hp => ?_)
        rw [hp, if_neg hlong]
        exact .bind_error (partOf_eq_error hshort ▸ .ofResult f _)
      · have hpart := partOf_eq_ok (Nat.not_lt.1 hshort)
        refine .passed ⟨page, hpage, hkind, rfl⟩ ⟨page, hpage, Nat.not_lt.1 hlong, hpart⟩
          fun fuel r hr => ?_
        rw [readFrom_succ head fuel hops h0]
        refine .bind_ok hvisit (.look fun p _ hp => ?_)
        rw [hp, if_neg hlong]
        exact .bind_ok (hpart ▸ .ofResult f _) (hr.map _)

/-- A walk that ends gives the parts of the pages that it passes, and then whatever it gives at its
end. -/
theorem answers_readFrom_of_trail {f : Face} (hf : f.Honest) (head : PageId) {id last : PageId}
    {ids : List PageId} {hops : UInt32} (h : Trail (· = last) (Passes f) id ids)
    (hhops : hops.toNat + ids.length ≤ f.header.pageCount.toNat) :
    ∃ parts hops', List.Forall₂ (HoldsPart f) ids parts ∧
      hops'.toNat = hops.toNat + ids.length ∧
      ∀ fuel r, Answers f (readFrom head fuel hops' last) r →
        Answers f (readFrom head (fuel + ids.length) hops id) (r.map (parts.flatten ++ ·)) := by
  induction h generalizing hops with
  | stop hstop =>
      refine ⟨[], hops, .nil, rfl, fun fuel r hr => ?_⟩
      have hmap : r.map (([] : List Bytes).flatten ++ ·) = r := by
        cases r <;> rfl
      rw [hmap, hstop]
      exact hr
  | @step a b more _ hnext _ ih =>
      rw [List.length_cons] at hhops
      have hleft : hops.toNat < f.header.pageCount.toNat := by omega
      have hcount := toNat_hop hleft
      have h0 : a ≠ 0 := by
        rintro rfl
        exact not_passes_zero hf hnext
      cases hop hf head h0 (hop_le hleft) with
      | short hshort => exact absurd hnext hshort.not_passes
      | damaged _ hbad => exact absurd hnext (hbad b)
      | @passed next part hleads hpart hgoes =>
          obtain rfl := leads_one f _ _ _ _ hnext.1 hleads
          have hmore : (hops + 1).toNat + more.length ≤ f.header.pageCount.toNat := by omega
          obtain ⟨parts, hops', hparts, hsum, hrest⟩ := ih hmore
          refine ⟨part :: parts, hops', .cons hpart hparts, ?_, fun fuel r hr => ?_⟩
          · rw [hsum, List.length_cons]
            omega
          · have hall := hgoes _ _ (hrest fuel r hr)
            have hmap : (r.map (parts.flatten ++ ·)).map (part ++ ·) =
                r.map ((part :: parts).flatten ++ ·) := by
              cases r with
              | error e => rfl
              | ok bs => simp [Except.map]
            rw [hmap] at hall
            exact hall

/-- A walk in a circle is given up when its hops are more than the pages. -/
theorem answers_readFrom_loops {f : Face} (hf : f.Honest) (head : PageId) {id : PageId}
    {fuel left : Nat} {hops : UInt32} (hcount : f.header.pageCount ≠ 0xFFFFFFFF)
    (hno : ∀ last, ¬ Ends f id last) (hleft : hops.toNat + left = f.header.pageCount.toNat)
    (hfuel : left < fuel) : Answers f (readFrom head fuel hops id)
      (.error (.corrupt s!"overflow chain at page {head} loops")) := by
  induction left generalizing fuel hops id with
  | zero =>
      obtain ⟨fuel, rfl⟩ := Nat.exists_eq_succ_of_ne_zero (Nat.ne_of_gt hfuel)
      obtain ⟨next, hnext, -⟩ := exists_passes hno
      have h0 : id ≠ 0 := by
        rintro rfl
        exact not_passes_zero hf hnext
      have hmax : f.header.pageCount.toNat ≠ 4294967295 := fun h =>
        hcount (UInt32.toNat_inj.1 h)
      have hsize := f.header.pageCount.toNat_lt
      have hover : f.header.pageCount < hops + 1 := by
        rw [UInt32.lt_iff_toNat_lt, UInt32.toNat_add]
        show _ < (hops.toNat + 1) % 2 ^ 32
        rw [Nat.mod_eq_of_lt (by omega)]
        omega
      rw [readFrom_succ head fuel hops h0]
      exact .bind_error (answers_visit_loops hover head id)
  | succ left ih =>
      obtain ⟨fuel, rfl⟩ := Nat.exists_eq_succ_of_ne_zero (Nat.ne_of_gt (Nat.zero_lt_of_lt hfuel))
      obtain ⟨next, hnext, hmore⟩ := exists_passes hno
      have h0 : id ≠ 0 := by
        rintro rfl
        exact not_passes_zero hf hnext
      have hmany : hops.toNat < f.header.pageCount.toNat := by omega
      have hcount := toNat_hop hmany
      cases hop hf head h0 (hop_le hmany) with
      | short hshort => exact absurd hnext hshort.not_passes
      | damaged _ hbad => exact absurd hnext (hbad next)
      | passed hleads _ hgoes =>
          obtain rfl := leads_one f _ _ _ _ hnext.1 hleads
          exact hgoes fuel _ (ih hmore (by omega) (Nat.lt_of_succ_lt_succ hfuel))

/-- In a file without pages the first hop is one too many. -/
theorem answers_readFrom_empty {f : Face} (hpages : f.header.pageCount = 0) (head : PageId)
    {id : PageId} (h0 : id ≠ 0) (fuel : Nat) : Answers f (readFrom head (fuel + 1) 0 id)
      (.error (.corrupt s!"overflow chain at page {head} loops")) := by
  have hover : f.header.pageCount < 0 + 1 := by
    rw [hpages]
    decide
  rw [readFrom_succ head fuel 0 h0]
  exact .bind_error (answers_visit_loops hover head id)

/-- **Where the pages are as many as can be counted, a walk in a circle goes on for ever.** -/
theorem answers_readFrom_endless {f : Face} (hf : f.Honest) (head : PageId) {id : PageId}
    (hcount : f.header.pageCount = 0xFFFFFFFF) (hno : ∀ last, ¬ Ends f id last) (fuel : Nat)
    (hops : UInt32) : Answers f (readFrom head fuel hops id) (.error .endless) := by
  induction fuel generalizing hops id with
  | zero => exact .throw _
  | succ fuel ih =>
      obtain ⟨next, hnext, hmore⟩ := exists_passes hno
      have h0 : id ≠ 0 := by
        rintro rfl
        exact not_passes_zero hf hnext
      have hle : hops + 1 ≤ f.header.pageCount := by
        have hlt := (hops + 1).toNat_lt
        rw [hcount, UInt32.le_iff_toNat_le]
        exact Nat.le_of_lt_succ hlt
      cases hop hf head h0 hle with
      | short hshort => exact absurd hnext hshort.not_passes
      | damaged _ hbad => exact absurd hnext (hbad next)
      | passed hleads _ hgoes =>
          obtain rfl := leads_one f _ _ _ _ hnext.1 hleads
          exact hgoes fuel _ (ih hmore (hops + 1))

/-- What reading a chain comes to. -/
structure ReadsAs (f : Face) (head : PageId) (r : Except Error Bytes) : Prop where
  /-- A result is what a chain holds. -/
  ok : ∀ bs, r = .ok bs ↔ Spells f head bs
  /-- The program stops where a page ends too soon. -/
  panicked : r = .error .panicked ↔ ∃ last, Ends f head last ∧ Short f last
  /-- The walk goes on for ever in a circle, if its hops cannot be counted. -/
  endless : r = .error .endless ↔ f.header.pageCount = 0xFFFFFFFF ∧ ∀ last, ¬ Ends f head last
  other : ∀ e, r = .error e → IsCorrupt e ∨ e = .panicked ∨ e = .endless

namespace ReadsAs

variable {f : Face} {head last : PageId}

theorem of_zero {ids : List PageId} {parts : List Bytes} (hf : f.Honest) (hlast : Ends f head 0)
    (htrail : Trail (· = 0) (Passes f) head ids) (hparts : List.Forall₂ (HoldsPart f) ids parts) :
    ReadsAs f head (.ok parts.flatten) where
  ok bs := by
    have hlinked : Linked f head ids := htrail.mono fun _ _ _ h => h.1
    constructor
    · rintro ⟨⟩
      exact ⟨ids, parts, hlinked, hparts, rfl⟩
    · rintro ⟨ids', parts', hlinked', hparts', rfl⟩
      obtain rfl := Trail.unique (leads_one f _) hlinked hlinked'
      have hsame : parts = parts' := by
        clear htrail hlinked hlinked'
        induction hparts generalizing parts' with
        | nil =>
            cases hparts'
            rfl
        | cons hpart _ ih =>
            cases hparts' with
            | cons hpart' hrest' =>
                obtain ⟨page, hpage, -, heq⟩ := hpart
                obtain ⟨page', hpage', -, heq'⟩ := hpart'
                obtain rfl := Except.ok.inj (hpage.symm.trans hpage')
                rw [Except.ok.inj (heq.symm.trans heq'), ih _ hrest']
      rw [hsame]
  panicked := by
    refine iff_of_false nofun ?_
    rintro ⟨other, hother, page, hpage, -⟩
    obtain rfl := hlast.unique hother
    exact (hf.has 0 page hpage).1 rfl
  endless := iff_of_false nofun fun h => h.2 0 hlast
  other := nofun

theorem of_short (hf : f.Honest) (hlast : Ends f head last) (hshort : Short f last) :
    ReadsAs f head (.error .panicked) where
  ok bs := by
    refine iff_of_false nofun fun h => ?_
    obtain rfl := hlast.unique (h.ends hf)
    obtain ⟨page, hpage, -⟩ := hshort
    exact (hf.has 0 page hpage).1 rfl
  panicked := iff_of_true rfl ⟨last, hlast, hshort⟩
  endless := iff_of_false nofun fun h => h.2 last hlast
  other := by
    rintro _ ⟨⟩
    exact .inr (.inl rfl)

theorem of_damaged {e : Error} (hf : f.Honest) (hlast : Ends f head last) (h0 : last ≠ 0)
    (hlong : ¬ Short f last) (he : IsCorrupt e) : ReadsAs f head (.error e) := by
  obtain ⟨s, rfl⟩ := he
  exact
    { ok := fun bs => iff_of_false nofun fun h => h0 (hlast.unique (h.ends hf))
      panicked := iff_of_false nofun fun ⟨other, hother, hshort⟩ =>
        hlong (hlast.unique hother ▸ hshort)
      endless := iff_of_false nofun fun h => h.2 last hlast
      other := by
        rintro _ ⟨⟩
        exact .inl ⟨s, rfl⟩ }

theorem of_endless (hf : f.Honest) (hcount : f.header.pageCount = 0xFFFFFFFF)
    (hno : ∀ last, ¬ Ends f head last) : ReadsAs f head (.error .endless) where
  ok bs := iff_of_false nofun fun h => hno 0 (h.ends hf)
  panicked := iff_of_false nofun fun ⟨last, hlast, _⟩ => hno last hlast
  endless := iff_of_true rfl ⟨hcount, hno⟩
  other := by
    rintro _ ⟨⟩
    exact .inr (.inr rfl)

theorem of_loops (hf : f.Honest) (hcount : f.header.pageCount ≠ 0xFFFFFFFF)
    (hno : ∀ last, ¬ Ends f head last) (s : String) : ReadsAs f head (.error (.corrupt s)) where
  ok bs := iff_of_false nofun fun h => hno 0 (h.ends hf)
  panicked := iff_of_false nofun fun ⟨last, hlast, _⟩ => hno last hlast
  endless := iff_of_false nofun fun h => hcount h.1
  other := by
    rintro _ ⟨⟩
    exact .inl ⟨s, rfl⟩

/-- Whatever reading a chain fails with is the fault of the pages. -/
theorem trouble {r : Except Error Bytes} (h : ReadsAs f head r) {e : Error} (he : r = .error e) :
    f.Trouble e := by
  rcases h.other e he with hcorrupt | rfl | rfl
  · exact .of_corrupt hcorrupt
  · obtain ⟨last, -, hshort⟩ := h.panicked.1 he
    exact .short fun heven => not_short heven hshort
  · exact .uncounted (h.endless.1 he).1

end ReadsAs

/-- **What a walk that reads comes to**, with every limit above the number of pages. -/
theorem answers_readFrom {f : Face} (hf : f.Honest) (head : PageId) :
    ∃ r, ReadsAs f head r ∧ ∀ fuel, f.header.pageCount.toNat + 1 < fuel →
      Answers f (readFrom head fuel 0 head) r := by
  by_cases hends : ∃ last, Ends f head last
  · obtain ⟨last, hlast⟩ := hends
    obtain ⟨ids, htrail⟩ := hlast.exists_trail
    have hlen := length_le_of_trail hf htrail
    have hfirst : (0 : UInt32).toNat + ids.length ≤ f.header.pageCount.toNat := by
      rw [UInt32.toNat_zero]
      omega
    obtain ⟨parts, hops, hparts, hsum, hgoes⟩ := answers_readFrom_of_trail hf head htrail hfirst
    -- The walk arrives at its last page with a hop left and fuel for it.
    have hrest : ∀ {r}, (∀ fuel, Answers f (readFrom head (fuel + 1) hops last) r) →
        ∀ fuel, f.header.pageCount.toNat + 1 < fuel →
          Answers f (readFrom head fuel 0 head) (r.map (parts.flatten ++ ·)) := by
      intro r hr fuel hfuel
      have hsplit : fuel = (fuel - ids.length - 1 + 1) + ids.length := by omega
      rw [hsplit]
      exact hgoes _ _ (hr _)
    by_cases h0 : last = 0
    · subst h0
      refine ⟨.ok parts.flatten, .of_zero hf hlast htrail hparts, fun fuel hfuel => ?_⟩
      have hnil : ∀ fuel, Answers f (readFrom head (fuel + 1) hops 0) (.ok []) := fun fuel => by
        rw [readFrom, if_pos rfl]
        exact .pure []
      have hall := hrest hnil fuel hfuel
      rwa [Except.map, List.append_nil] at hall
    by_cases hpages : f.header.pageCount = 0
    · have hlong : ¬ Short f last := by
        rintro ⟨page, hpage, -⟩
        exact pages_ne_ok hf hpages last page hpage
      have hzero : hops = 0 := by
        rw [hpages] at hlen
        refine UInt32.toNat_inj.1 (hsum.trans ?_)
        rw [Nat.le_zero.1 hlen]
        rfl
      subst hzero
      exact ⟨_, .of_damaged hf hlast h0 hlong ⟨_, rfl⟩,
        hrest (answers_readFrom_empty hpages head h0)⟩
    have hpos : f.header.pageCount.toNat ≠ 0 := fun h => hpages (UInt32.toNat_inj.1 h)
    have hleft : hops.toNat < f.header.pageCount.toNat := by
      rw [hsum, UInt32.toNat_zero]
      omega
    cases hop hf head h0 (hop_le hleft) with
    | passed hleads hpart => exact absurd ⟨hleads, _, hpart⟩ (hlast.2 _)
    | short hshort hstops => exact ⟨_, .of_short hf hlast hshort, hrest hstops⟩
    | damaged hcorrupt _ hlong hstops =>
        exact ⟨_, .of_damaged hf hlast h0 hlong hcorrupt, hrest hstops⟩
  · have hno : ∀ last, ¬ Ends f head last := fun last hlast => hends ⟨last, hlast⟩
    by_cases hcount : f.header.pageCount = 0xFFFFFFFF
    · exact ⟨_, .of_endless hf hcount hno,
        fun fuel _ => answers_readFrom_endless hf head hcount hno fuel 0⟩
    · have hleft : (0 : UInt32).toNat + f.header.pageCount.toNat = f.header.pageCount.toNat := by
        rw [UInt32.toNat_zero, Nat.zero_add]
      exact ⟨_, .of_loops hf hcount hno _, fun fuel hfuel =>
        answers_readFrom_loops hf head hcount hno hleft (Nat.lt_of_succ_lt hfuel)⟩

/-- A chain that may be read is answered for by its pages. -/
theorem replies_read {f : Face} (hf : f.Honest) (head : PageId) :
    Replies f f.Trouble (read head) := by
  obtain ⟨r, hr, hread⟩ := answers_readFrom hf head
  refine ⟨r, .look fun p hh _ => ?_, fun e he => hr.trouble he⟩
  rw [hh]
  exact hread _ (Nat.lt_succ_self _)

/-! ## Freeing -/

section

variable {f : Face} {id other next : PageId} {ids : List PageId}

/-- A page that was freed is not one of a chain any more, and the others are as before. -/
theorem leads_freed :
    Leads (f.freed id) .overflow other next ↔ other ≠ id ∧ Leads f .overflow other next := by
  by_cases hne : other = id
  · subst hne
    refine iff_of_false ?_ fun h => h.1 rfl
    rintro ⟨page, hpage, hkind, -⟩
    have hself : (f.freed other).pages other =
        .ok (Page.make other f.pageSize .free (Bytes.ofU32 f.header.freeHead)).sealed :=
      Face.pages_set_self f (.make other f.pageSize .free (Bytes.ofU32 f.header.freeHead))
    obtain rfl := Except.ok.inj (hself.symm.trans hpage)
    have hfree : (Page.blank other f.pageSize .free (Bytes.ofU32 f.header.freeHead)).kind =
        .ok .free := Page.kind_blank
    cases hfree.symm.trans hkind
  · rw [and_iff_right hne, Leads, Leads, Face.pages_freed_of_ne hne]

theorem linked_freed : Linked (f.freed id) other ids ↔ Linked f other ids ∧ id ∉ ids := by
  constructor
  · intro h
    refine ⟨Trail.mono h fun a _ b hb => (leads_freed.1 hb).2, fun hmem => ?_⟩
    exact Trail.forall_mem (P := (· ≠ id)) (fun a b hb => (leads_freed.1 hb).1) h id hmem rfl
  · rintro ⟨h, hnot⟩
    refine Trail.mono h fun a ha b hb => leads_freed.2 ⟨?_, hb⟩
    rintro rfl
    exact hnot ha

end

/-- **Freeing puts the pages of a chain on the free list**, one after the other, and gives an error
where there is no chain. The pages that were `freed` before are none of a chain any more, so there
are hops left as long as there are other pages. -/
theorem exec_freeFrom {p : Pager} {d : Disk} (h : Usable p d) (head : PageId) {fuel : Nat}
    {freed : List PageId} {hops : UInt32} (hnodup : freed.Nodup)
    (hhas : ∀ a ∈ freed, (p.face d).Has a)
    (hnone : ∀ a ∈ freed, ∀ b, ¬ Leads (p.face d) .overflow a b)
    (hhops : hops.toNat = freed.length) (hfuel : p.header.pageCount.toNat < fuel + freed.length)
    (id : PageId) :
    ∃ r q, (freeFrom head fuel hops id).exec p d = (r, q, d) ∧
      (∀ e, r = .error e → IsCorrupt e) ∧
      (r = .ok () ↔ ∃ ids, Linked (p.face d) id ids) ∧
      ∀ ids, r = .ok () → Linked (p.face d) id ids →
        q.face d = ids.foldl Face.freed (p.face d) := by
  have hfew : freed.length ≤ p.header.pageCount.toNat - 1 := Face.length_le_of_nodup hnodup hhas
  induction fuel generalizing freed hops id p with
  | zero => omega
  | succ fuel ih =>
      rw [freeFrom]
      by_cases h0 : id = 0
      · subst h0
        refine ⟨.ok (), p, ?_, by simp, ⟨fun _ => ⟨[], linked_zero.2 rfl⟩, fun _ => rfl⟩,
          fun ids _ hlinked => ?_⟩
        · rw [if_pos rfl]
          rfl
        · rw [linked_zero.1 hlinked]
          rfl
      rw [if_neg h0]
      have hdisplays : Displays (p.face d) p d := ⟨h.mirrors, h.unpoisoned, rfl, rfl, rfl⟩
      obtain ⟨r, hvisit, hr⟩ := answers_visit (honest_face p d) head id (hops + 1)
      obtain ⟨p₁, hexec, halike, -⟩ := hvisit p d hdisplays
      cases hr with
      | @stopped e hcorrupt hbad =>
          have hno : ∀ page, (p.face d).pages id = .ok page → page.kind ≠ .ok .overflow := by
            by_cases hpages : p.header.pageCount = 0
            · exact fun page hpage => absurd hpage (pages_ne_ok (honest_face p d) hpages id page)
            · refine hbad.resolve_left (UInt32.not_lt.2 (hop_le (hhops ▸ ?_)))
              have hpos : p.header.pageCount.toNat ≠ 0 := fun h => hpages (UInt32.toNat_inj.1 h)
              show freed.length < p.header.pageCount.toNat
              omega
          refine ⟨.error e, p₁, exec_bind_error hexec, ?_, iff_of_false (by simp) ?_, by simp⟩
          · rintro _ ⟨⟩
            exact hcorrupt
          · rintro ⟨ids, hlinked⟩
            exact not_linked h0 hno hlinked
      | @passed page hpage hkind hhop =>
          obtain ⟨hid, hhas', -⟩ := h.sane.page id page hpage
          have h₁ : Usable p₁ d := h.of_orderly (reading_visit ..).orderly.undoable hexec
          rw [← halike.face d] at hhas'
          obtain ⟨p₂, hfree, hface⟩ := h₁.exec_free_of_has hhas'
          have h₂ : Usable p₂ d := h₁.of_orderly (.free id) hfree
          rw [halike.face d] at hface
          have hcount : p₂.header.pageCount = p.header.pageCount :=
            congrArg (fun f : Face => f.header.pageCount) hface
          -- A page that was freed leads nowhere, so this one is not among them.
          have hnew : id ∉ freed := fun hmem =>
            hnone id hmem (nextOf page) ⟨page, hpage, hkind, rfl⟩
          have hmore : (id :: freed).Nodup := List.nodup_cons.2 ⟨hnew, hnodup⟩
          have hhasMore : ∀ a ∈ id :: freed, (p₂.face d).Has a := by
            intro a ha
            have hold : (p.face d).Has a := by
              rcases List.mem_cons.1 ha with rfl | ha
              · exact (h.sane.page a page hpage).2.1
              · exact hhas a ha
            exact ⟨hold.1, hcount ▸ hold.2⟩
          have hnoneMore : ∀ a ∈ id :: freed, ∀ b, ¬ Leads (p₂.face d) .overflow a b := by
            intro a ha b hb
            rw [hface] at hb
            obtain ⟨hne, hleads⟩ := leads_freed.1 hb
            exact hnone a ((List.mem_cons.1 ha).resolve_left hne) b hleads
          have hfew : (id :: freed).length ≤ p₂.header.pageCount.toNat - 1 :=
            Face.length_le_of_nodup hmore hhasMore
          rw [List.length_cons, hcount] at hfew
          have hleft : hops.toNat < p.header.pageCount.toNat := by omega
          have hsum : (hops + 1).toNat = (id :: freed).length := by
            rw [toNat_hop hleft, hhops, List.length_cons]
          obtain ⟨r, q, hrest, herror, hok, hfreed⟩ :=
            ih h₂ hmore hhasMore hnoneMore hsum (by rw [hcount, List.length_cons]; omega)
              (nextOf page) (by rw [hcount, List.length_cons]; exact hfew)
          rw [hface] at hok hfreed
          refine ⟨r, q, ?_, herror, ?_, ?_⟩
          · rw [exec_bind_ok hexec, hid, exec_bind_ok hfree]
            exact hrest
          · rw [hok]
            constructor
            · rintro ⟨more, hlinked⟩
              exact ⟨id :: more,
                (linked_iff h0 hpage hkind).2 ⟨more, rfl, (linked_freed.1 hlinked).1⟩⟩
            · rintro ⟨ids, hlinked⟩
              obtain ⟨more, rfl, hrest⟩ := (linked_iff h0 hpage hkind).1 hlinked
              exact ⟨more, linked_freed.2 ⟨hrest, (List.nodup_cons.1 hlinked.nodup).1⟩⟩
          · intro ids hr hlinked
            obtain ⟨more, rfl, hmore⟩ := (linked_iff h0 hpage hkind).1 hlinked
            exact hfreed more hr (linked_freed.2 ⟨hmore, (List.nodup_cons.1 hlinked.nodup).1⟩)

/-- A reader frees nothing: it is refused at the first page. -/
theorem exec_freeFrom_reader {p : Pager} {d : Disk} (hm : Mirrors p d) (hu : p.poisoned = none)
    (hlog : p.log = none) (head : PageId) (fuel : Nat) (id : PageId) :
    ∃ r q, (freeFrom head (fuel + 1) 0 id).exec p d = (r, q, d) ∧
      (∀ e, r = .error e → IsCorrupt e ∨ e = .readOnly) ∧
      (r = .ok () ↔ id = 0) ∧ (id = 0 → q = p) := by
  rw [freeFrom]
  by_cases h0 : id = 0
  · rw [if_pos h0]
    exact ⟨.ok (), p, rfl, by simp, iff_of_true rfl h0, fun _ => rfl⟩
  rw [if_neg h0]
  obtain ⟨r, hvisit, hr⟩ := answers_visit (honest_face p d) head id (0 + 1)
  obtain ⟨q, hexec, halike, -⟩ := hvisit p d ⟨hm, hu, rfl, rfl, rfl⟩
  cases hr with
  | @stopped e hcorrupt hbad =>
      refine ⟨.error e, q, exec_bind_error hexec, ?_, iff_of_false (by simp) h0,
        fun h => absurd h h0⟩
      rintro _ ⟨⟩
      exact .inl hcorrupt
  | @passed page hpage hkind hhop =>
      have hrefused : ensureWritable.exec q d = (.error .readOnly, q, d) := by
        rw [exec_ensureWritable_eq, readOnly, halike.log, hlog]
        rfl
      refine ⟨.error .readOnly, q, ?_, ?_, iff_of_false (by simp) h0, fun h => absurd h h0⟩
      · rw [exec_bind_ok hexec]
        exact exec_bind_error (exec_bind_error hrefused)
      · rintro _ ⟨⟩
        exact .inr rfl

/-! ## Whole walks -/

section

variable {p : Pager} {d : Disk}

theorem exec_read_eq (head : PageId) (p : Pager) (d : Disk) : (read head).exec p d =
    (readFrom head (p.header.pageCount.toNat + 2) 0 head).exec p d := by
  rw [read, exec_bind, exec_self]

theorem exec_free_eq (head : PageId) (p : Pager) (d : Disk) : (free head).exec p d =
    (freeFrom head (p.header.pageCount.toNat + 2) 0 head).exec p d := by
  rw [free, exec_bind, exec_self]

/-- What reading a chain comes to. With any greater limit the same comes of it. -/
structure ReadEnds (p : Pager) (d : Disk) (head : PageId) : Prop where
  /-- A result is what the different pages of a chain hold, one after the other. -/
  ok : ∀ bs, ((read head).exec p d).1 = .ok bs ↔
    ∃ ids parts, Linked (p.face d) head ids ∧ ids.Nodup ∧
      List.Forall₂ (HoldsPart (p.face d)) ids parts ∧ bs = parts.flatten
  /-- The program stops exactly if it comes to a page that is shorter than the part it claims. -/
  panicked : ((read head).exec p d).1 = .error .panicked ↔
    ∃ last, Ends (p.face d) head last ∧ Short (p.face d) last
  /-- The walk goes on for ever exactly if it comes to no end and its hops cannot be counted. -/
  endless : ((read head).exec p d).1 = .error .endless ↔
    p.header.pageCount = 0xFFFFFFFF ∧ ∀ last, ¬ Ends (p.face d) head last
  other : ∀ e, ((read head).exec p d).1 = .error e → IsCorrupt e ∨ e = .panicked ∨ e = .endless
  unlimited : ∀ fuel, p.header.pageCount.toNat + 1 < fuel →
    ((readFrom head fuel 0 head).exec p d).1 = ((read head).exec p d).1 ∧
      (((read head).exec p d).1 ≠ .error .endless →
        (readFrom head fuel 0 head).exec p d = (read head).exec p d)

/-- What freeing a chain comes to. -/
structure FreeEnds (p : Pager) (d : Disk) (head : PageId) : Prop where
  ok : p.log ≠ none →
    (((free head).exec p d).1 = .ok () ↔ ∃ ids, Linked (p.face d) head ids)
  /-- Where the file may only be read there is nothing to be freed but the chain of no pages. -/
  reader : p.log = none → (((free head).exec p d).1 = .ok () ↔ head = 0)
  other : ∀ e, ((free head).exec p d).1 = .error e → IsCorrupt e ∨ p.log = none ∧ e = .readOnly
  /-- The pages of the chain, all different, are on the free list after it. -/
  freed : ∀ ids, ((free head).exec p d).1 = .ok () → Linked (p.face d) head ids →
    ids.Nodup ∧ ((free head).exec p d).2.1.face d = ids.foldl Face.freed (p.face d)
  disk : ((free head).exec p d).2.2 = d
  unlimited : ∀ fuel, p.header.pageCount.toNat + 1 < fuel →
    (freeFrom head fuel 0 head).exec p d = (free head).exec p d

theorem readEnds (hm : Mirrors p d) (hu : p.poisoned = none) (head : PageId) :
    ReadEnds p d head := by
  obtain ⟨r, hr, hread⟩ := answers_readFrom (honest_face p d) head
  have hshown : Displays (p.face d) p d := ⟨hm, hu, rfl, rfl, rfl⟩
  have hresult : ((read head).exec p d).1 = r := by
    rw [exec_read_eq]
    exact (hread _ (Nat.lt_succ_self _)).eq hshown
  refine ⟨fun bs => ?_, ?_, ?_, ?_, fun fuel hfuel => ⟨?_, fun hne => ?_⟩⟩
  · rw [hresult, hr.ok bs]
    constructor
    · rintro ⟨ids, parts, hlinked, hparts, rfl⟩
      exact ⟨ids, parts, hlinked, hlinked.nodup, hparts, rfl⟩
    · rintro ⟨ids, parts, hlinked, -, hparts, rfl⟩
      exact ⟨ids, parts, hlinked, hparts, rfl⟩
  · rw [hresult]
    exact hr.panicked
  · rw [hresult]
    exact hr.endless
  · rw [hresult]
    exact hr.other
  · rw [hresult]
    exact (hread fuel hfuel).eq hshown
  · rw [exec_read_eq] at hne ⊢
    exact outlasts_readFrom head hfuel 0 head p d hne

/-- Freeing with the limit that is set for a whole walk, for writers and readers. -/
theorem exec_freeFrom_first (hc : Coherent p d) (hu : p.poisoned = none) (head : PageId) :
    ∃ r q, (freeFrom head (p.header.pageCount.toNat + 2) 0 head).exec p d = (r, q, d) ∧
      (∀ e, r = .error e → IsCorrupt e ∨ p.log = none ∧ e = .readOnly) ∧
      (p.log ≠ none → (r = .ok () ↔ ∃ ids, Linked (p.face d) head ids)) ∧
      (p.log = none → (r = .ok () ↔ head = 0)) ∧
      ∀ ids, r = .ok () → Linked (p.face d) head ids →
        q.face d = ids.foldl Face.freed (p.face d) := by
  cases hlog : p.log with
  | none =>
      obtain ⟨r, q, hexec, herror, hok, hsame⟩ :=
        exec_freeFrom_reader (hc.mirrors hu) hu hlog head (p.header.pageCount.toNat + 1) head
      refine ⟨r, q, hexec, fun e he => (herror e he).imp_right fun hro => ⟨rfl, hro⟩,
        fun hw => absurd rfl hw, fun _ => hok, fun ids hr hlinked => ?_⟩
      have h0 : head = 0 := hok.1 hr
      subst h0
      rw [linked_zero.1 hlinked, hsame rfl]
      rfl
  | some log =>
      have h : Usable p d := ⟨hc, hu, log, hlog⟩
      have hhops : (0 : UInt32).toNat = ([] : List PageId).length := rfl
      have hfuel : p.header.pageCount.toNat <
          p.header.pageCount.toNat + 2 + ([] : List PageId).length :=
        Nat.lt_add_of_pos_right Nat.two_pos
      obtain ⟨r, q, hexec, herror, hok, hfreed⟩ :=
        exec_freeFrom h head List.nodup_nil nofun nofun hhops hfuel head
      exact ⟨r, q, hexec, fun e he => .inl (herror e he), fun _ => hok, nofun, hfreed⟩

theorem freeEnds (hc : Coherent p d) (hu : p.poisoned = none) (head : PageId) :
    FreeEnds p d head := by
  obtain ⟨r, q, hexec, herror, hok, hreader, hfreed⟩ := exec_freeFrom_first hc hu head
  have hall : (free head).exec p d = (r, q, d) := (exec_free_eq head p d).trans hexec
  refine ⟨?_, ?_, ?_, ?_, ?_, fun fuel hfuel => ?_⟩
  · rw [hall]
    exact hok
  · rw [hall]
    exact hreader
  · rw [hall]
    exact herror
  · rw [hall]
    exact fun ids hr hlinked => ⟨hlinked.nodup, hfreed ids hr hlinked⟩
  · rw [hall]
  · rw [exec_free_eq]
    refine outlasts_freeFrom head hfuel 0 head p d fun hend => ?_
    rw [hexec] at hend
    rcases herror _ hend with ⟨s, hs⟩ | ⟨-, hs⟩ <;> cases hs

/-- **What walks along chains come to**, be the pages as they may. A walk that reads ends, with what
the pages of a chain hold, or with an error, unless it goes in a circle in a file of as many pages
as can be counted; and the program stops in it only where a page is shorter than those of the file.
A walk that frees always ends. No walk depends on the limit that it is given. -/
theorem walks_end (hc : Coherent p d) (hu : p.poisoned = none) (head : PageId) :
    ReadEnds p d head ∧ FreeEnds p d head ∧
      ((p.face d).Even → ((read head).exec p d).1 ≠ .error .panicked) := by
  have hread := readEnds (hc.mirrors hu) hu head
  refine ⟨hread, freeEnds hc hu head, fun heven hpanicked => ?_⟩
  obtain ⟨last, -, hshort⟩ := hread.panicked.1 hpanicked
  exact not_short heven hshort

/-! ## Walks that go wrong -/

/-- The first page of a file with pages of 512 bytes, one of a chain. -/
def firstLink (bs : Bytes) : Page := .blank 1 512 .overflow bs

/-- A pager of a file of so many pages, of which the first has been written. -/
def withFirstLink (count : UInt32) (bs : Bytes) : Pager :=
  { withPage .overflow bs with
    header := { (withPage .overflow bs).header with pageCount := count } }

/-- A reader of a file beside which the log of such a commit lies. -/
def linkReader (size : Nat) (count : UInt32) (bs : Bytes) : Pager :=
  (withFirstLink count bs).overlaid readingOptions (Header.fresh size)

theorem exec_open_linkReader (size : Nat) (count : UInt32) (bs : Bytes) (hsize : size ∈ pageSizes)
    (hcount : 1 < count) :
    ∃ d, (Pager.open "a" readingOptions).exec () (loggedFiles size (withFirstLink count bs)) =
        (.ok (linkReader size count bs), (), d) ∧
      (linkReader size count bs).view d 1 = .ok (firstLink bs) := by
  have hmem : 512 ∈ pageSizes := by decide
  have hone : (1 : PageId) ≠ 0 := by decide
  have htidy : (withFirstLink count bs).Tidy := ⟨hmem,
    returnable_singleton rfl (Page.length_make (by decide) 1 .overflow bs) hone hcount⟩
  have h0 : 0 < count := UInt32.lt_trans (by decide) hcount
  have hcheck : (withFirstLink count bs).nextHeader.check =
      .ok (withFirstLink count bs).nextHeader :=
    Header.check_eq_ok.2 ⟨rfl, hmem, (UInt32.ne_of_lt h0).symm, h0, h0, h0⟩
  obtain ⟨d, hopen, -⟩ := exec_open_loggedFiles hsize htidy hcheck rfl rfl
  refine ⟨d, hopen, ?_⟩
  have hdirty : (linkReader size count bs).dirty[(1 : PageId)]? = some (firstLink bs) :=
    Std.ExtTreeMap.getElem?_insert_self
  rw [view, if_pos (inRange_iff.2 ⟨hone, hcount⟩), hdirty]

theorem mirrors_linkReader (size : Nat) (count : UInt32) (bs : Bytes) (d : Disk) :
    Mirrors (linkReader size count bs) d := .of_empty rfl d

/-- A page that names itself as the next one is passed again and again. -/
theorem not_ends_circle {f : Face} {id last : PageId} (h : Passes f id id) : ¬ Ends f id last := by
  rintro ⟨hpath, hstop⟩
  have hsame : last = id := by
    clear hstop
    induction hpath with
    | refl => rfl
    | tail _ hnext ih => exact passes_one f _ _ _ (ih ▸ hnext) h
  exact hstop id (hsame ▸ h)

/-- **A walk may go on for ever, and it may leave its page**, where a file is read with a log whose
header speaks of as many pages as can be counted, or whose pages are shorter than those of the
file. -/
theorem walks_go_wrong :
    (∃ d p d', (Pager.open "a" readingOptions).exec () d = (.ok p, (), d') ∧
      ∀ fuel, ((readFrom 1 fuel 0 1).exec p d').1 = .error .endless) ∧
    ∃ d p d', (Pager.open "a" readingOptions).exec () d = (.ok p, (), d') ∧
      ((read 1).exec p d').1 = .error .panicked := by
  constructor
  · -- The page names itself as the next one, and the hops begin again at zero.
    obtain ⟨d, hopen, hview⟩ :=
      exec_open_linkReader 512 0xFFFFFFFF (payload 1 []) (by decide) (by decide)
    have hpass : Passes ((linkReader 512 0xFFFFFFFF (payload 1 [])).face d) 1 1 := by
      refine ⟨⟨_, hview, Page.kind_blank, ?_⟩, [], _, hview, ?_, ?_⟩
      · rw [nextOf, firstLink, Page.payload_blank]
        decide +kernel
      · rw [lengthOf, firstLink, Page.payload_blank]
        show _ ≤ capacity 512
        decide +kernel
      · rw [lengthOf, partOf, firstLink, Page.payload_blank]
        decide +kernel
    refine ⟨_, _, d, hopen, fun fuel => ?_⟩
    have hread := readEnds (mirrors_linkReader 512 0xFFFFFFFF (payload 1 []) d) rfl 1
    have hend := hread.endless.2 ⟨rfl, fun _ => not_ends_circle hpass⟩
    by_contra hne
    have hmore := outlasts_readFrom 1 (Nat.le_add_right fuel 0x100000001) 0 1 _ d hne
    have hfuel : (0xFFFFFFFF : UInt32).toNat + 1 < fuel + 0x100000001 :=
      Nat.lt_of_lt_of_le (by decide) (Nat.le_add_left 0x100000001 fuel)
    rw [← hmore] at hne
    exact hne ((hread.unlimited _ hfuel).1.trans hend)
  · -- The page claims 600 bytes: there is room for them in a page of the file, but not in this one.
    obtain ⟨d, hopen, hview⟩ := exec_open_linkReader 1024 2 (Bytes.ofU32 0 ++ Bytes.ofU32 600)
      (by decide) (by decide)
    have hshort : Short ((linkReader 1024 2 (Bytes.ofU32 0 ++ Bytes.ofU32 600)).face d) 1 := by
      refine ⟨_, hview, Page.kind_blank, ?_, ?_⟩
      · rw [lengthOf, firstLink, Page.payload_blank]
        show _ ≤ capacity 1024
        decide +kernel
      · rw [lengthOf, firstLink, Page.payload_blank]
        decide +kernel
    have hread := readEnds (mirrors_linkReader 1024 2 (Bytes.ofU32 0 ++ Bytes.ofU32 600) d) rfl 1
    exact ⟨_, _, d, hopen, hread.panicked.2 ⟨1, ⟨.refl, fun next => hshort.not_passes⟩, hshort⟩⟩

/-! ## Circles -/

/-- There is a file whose first page is one of a chain and names itself as the next one. -/
theorem exists_circle : ∃ p d, Ready p d ∧ p.header.pageCount = 2 ∧
    Leads (p.face d) .overflow 1 1 := by
  obtain ⟨d, hd⟩ := reached_onEmptyFile
  have hready : Ready (withPage .overflow (payload 1 [])) d :=
    (hd.withPage .overflow (payload 1 [])).ready rfl
  have hdirty : (withPage .overflow (payload 1 [])).dirty[(1 : PageId)]? =
      some (link ((withPage .overflow (payload 1 [])).face d) 1 1 []) :=
    Std.ExtTreeMap.getElem?_insert_self
  have hview : (withPage .overflow (payload 1 [])).view d 1 =
      .ok (link ((withPage .overflow (payload 1 [])).face d) 1 1 []) := by
    rw [view, if_pos (by decide), hdirty]
  exact ⟨_, d, hready, rfl, _, hview, kind_link 1 1 [],
    (nextOf_link hready.sane (Nat.zero_le _) 1 1).symm⟩

/-- A chain does not begin with a page that names itself. -/
theorem not_linked_circle {f : Face} (h : Leads f .overflow 1 1) (ids : List PageId) :
    ¬ Linked f 1 ids := by
  intro hlinked
  cases hlinked with
  | stop hstop => exact absurd hstop (by decide)
  | step hgoes hnext hrest =>
      obtain rfl := leads_one _ _ _ _ _ hnext h
      have hnodup := Linked.nodup (.step hgoes hnext hrest)
      cases hrest with
      | stop hstop => exact absurd hstop (by decide)
      | step => exact (List.nodup_cons.1 hnodup).1 List.mem_cons_self

theorem walks_end_circle : ∃ p d, Coherent p d ∧ p.poisoned = none ∧
    (∃ s, ((read 1).exec p d).1 = .error (.corrupt s)) ∧
    ∃ s, ((free 1).exec p d).1 = .error (.corrupt s) := by
  obtain ⟨p, d, hready, hcount, hcircle⟩ := exists_circle
  obtain ⟨hread, hfree, hpanics⟩ := walks_end hready.coherent hready.usable 1
  refine ⟨p, d, hready.coherent, hready.usable, ?_, ?_⟩
  · cases hr : ((read 1).exec p d).1 with
    | ok bs =>
        obtain ⟨ids, -, hlinked, -⟩ := (hread.ok bs).1 hr
        exact absurd hlinked (not_linked_circle hcircle ids)
    | error e =>
        rcases hread.other e hr with ⟨s, rfl⟩ | rfl | rfl
        · exact ⟨s, rfl⟩
        · exact absurd hr (hpanics hready.sane.even)
        · rw [(hread.endless.1 hr).1] at hcount
          exact absurd hcount (by decide)
  · obtain ⟨log, hwriter, -⟩ := hready.held
    have hlog : p.log ≠ none := by
      rw [hwriter]
      nofun
    cases hr : ((free 1).exec p d).1 with
    | ok x =>
        obtain ⟨ids, hlinked⟩ := (hfree.ok hlog).1 hr
        exact absurd hlinked (not_linked_circle hcircle ids)
    | error e =>
        rcases hfree.other e hr with ⟨s, rfl⟩ | ⟨hnone, -⟩
        · exact ⟨s, rfl⟩
        · exact absurd hnone hlog

end

end Tree.Chain

end PagedStore
