import PagedStore.Proofs.PageAccounting
import PagedStore.Tree.Chain

/-!
# Values in chains of pages

A chain holds the parts of a value in order, each on a page that names the next one. Writing a
value puts it on pages that were not in use, reading the chain gives the value back, and freeing
it gives back exactly these pages.
-/

set_option autoImplicit false

namespace PagedStore.Tree.Chain

open PagedStore.Action Bytes Pager

/-! ## Parts -/

theorem flatten_parts (n : Nat) (bs : Bytes) : (parts n bs).flatten = bs := by
  fun_induction parts n bs with
  | case1 bs h => simp
  | case2 bs h ih => rw [List.flatten_cons, ih, List.take_append_drop]

/-- There is at least one part, perhaps an empty one. -/
theorem parts_ne_nil (n : Nat) (bs : Bytes) : parts n bs ≠ [] := by
  rw [parts]
  split <;> simp

theorem length_le_of_mem_parts {n : Nat} (hn : 0 < n) {bs part : Bytes} (h : part ∈ parts n bs) :
    part.length ≤ n := by
  fun_induction parts n bs with
  | case1 bs hshort =>
      rw [List.mem_singleton.1 h]
      rcases hshort with hle | h0
      · exact hle
      · omega
  | case2 bs hlong ih =>
      rcases List.mem_cons.1 h with rfl | h
      · exact List.length_take_le n bs
      · exact ih h

/-- There are as many parts as it takes, and one for the empty value. -/
theorem length_parts {n : Nat} (hn : 0 < n) (bs : Bytes) :
    (parts n bs).length = max 1 ((bs.length + n - 1) / n) := by
  fun_induction parts n bs with
  | case1 bs h =>
      have hle : (bs.length + n - 1) / n < 2 := by
        rw [Nat.div_lt_iff_lt_mul hn]
        omega
      rw [List.length_singleton]
      omega
  | case2 bs h ih =>
      obtain ⟨hlong, -⟩ := not_or.1 h
      have hmore : (bs.length + n - 1) / n = (bs.length - 1) / n + 1 := by
        rw [show bs.length + n - 1 = bs.length - 1 + n by omega, Nat.add_div_right _ hn]
      have hone : 1 ≤ (bs.length - 1) / n := (Nat.one_le_div_iff hn).2 (by omega)
      rw [List.length_cons, ih, List.length_drop, hmore,
        show bs.length - n + n - 1 = bs.length - 1 by omega]
      omega

/-! ## Pages of a chain -/

/-- The page of a chain that holds a part and names the next page. -/
def link (f : Face) (id next : PageId) (part : Bytes) : Page :=
  .blank id f.pageSize .overflow (payload next part)

section

variable {f : Face} {id next : PageId} {part : Bytes}

theorem capacity_add (hs : f.Sane) : capacity f.pageSize + 8 = f.pageSize - Page.frontLength := by
  have := hs.bounds
  have h5 : Page.frontLength = 5 := rfl
  have h8 : linkLength = 8 := rfl
  rw [capacity, h5, h8]
  omega

/-- A page of a chain has room for a part. -/
theorem capacity_pos (hs : f.Sane) : 0 < capacity f.pageSize := by
  have hcap := capacity_add hs
  have hbounds := hs.bounds
  have h5 : Page.frontLength = 5 := rfl
  omega

theorem payload_link (hs : f.Sane) (hp : part.length ≤ capacity f.pageSize) (id next : PageId) :
    ∃ zeros, (link f id next part).payload =
      ofU32 next ++ (ofU32 (UInt32.ofNat part.length) ++ (part ++ zeros)) := by
  have hcap := capacity_add hs
  have hlen : (payload next part).length ≤ f.pageSize - Page.frontLength := by
    rw [payload, List.length_append, List.length_append, length_ofU32, length_ofU32]
    omega
  rw [link, Page.payload_blank_of_fits hlen, payload, List.append_assoc, List.append_assoc,
    List.append_assoc]
  exact ⟨_, rfl⟩

theorem nextOf_link (hs : f.Sane) (hp : part.length ≤ capacity f.pageSize) (id next : PageId) :
    nextOf (link f id next part) = next := by
  obtain ⟨zeros, h⟩ := payload_link hs hp id next
  rw [nextOf, h, take_four_ofU32]

theorem lengthOf_link (hs : f.Sane) (hp : part.length ≤ capacity f.pageSize) (id next : PageId) :
    lengthOf (link f id next part) = part.length := by
  obtain ⟨zeros, h⟩ := payload_link hs hp id next
  have hbounds := hs.bounds
  have hcap := capacity_add hs
  rw [lengthOf, h, List.drop_left' (length_ofU32 next), List.take_left' (length_ofU32 _),
    toNatLE_ofU32, UInt32.toNat_ofNat_of_lt']
  exact Nat.lt_of_le_of_lt (show part.length ≤ 65536 by omega) (by decide)

theorem partOf_link (hs : f.Sane) (hp : part.length ≤ capacity f.pageSize) (id next : PageId) :
    partOf (link f id next part) part.length = .ok part := by
  obtain ⟨zeros, h⟩ := payload_link hs hp id next
  have h8 : (ofU32 next ++ ofU32 (UInt32.ofNat part.length)).length = linkLength := rfl
  have hrest : (link f id next part).payload.drop linkLength = part ++ zeros := by
    rw [h, ← List.append_assoc, List.drop_left' h8]
  rw [partOf, hrest, take?_append]

end

/-- The pages `ids` are a chain of the given parts that begins at a page. -/
def ChainAt (f : Face) : PageId → List Bytes → List PageId → Prop
  | head, [], [] => head = 0
  | head, part :: parts, id :: ids => id = head ∧ part.length ≤ capacity f.pageSize ∧
      ∃ next, f.pages head = .ok (link f head next part) ∧ ChainAt f next parts ids
  | _, _, _ => False

theorem ChainAt.congr {f g : Face} {head : PageId} {bss : List Bytes} {ids : List PageId}
    (h : ChainAt f head bss ids) (hpages : ∀ id ∈ ids, g.pages id = f.pages id)
    (hsize : g.pageSize = f.pageSize) : ChainAt g head bss ids := by
  fun_induction ChainAt f head bss ids with
  | case1 head => exact h
  | case2 head part parts id ids ih =>
      obtain ⟨rfl, hlen, next, hpage, hrest⟩ := h
      refine ⟨rfl, by rwa [hsize], next, ?_, ih next hrest fun other ho =>
        hpages other (List.mem_cons_of_mem _ ho)⟩
      rw [hpages id List.mem_cons_self, hpage, link, link, hsize]
  | case3 => exact h.elim

/-! ## Walking -/

section

variable {f : Face} {E : Error → Prop}

/-- A hop below a number of pages is counted. -/
theorem toNat_hop {hops count : UInt32} (h : hops.toNat < count.toNat) :
    (hops + 1).toNat = hops.toNat + 1 := by
  have hcount := count.toNat_lt
  rw [UInt32.toNat_add]
  exact Nat.mod_eq_of_lt (show hops.toNat + 1 < 2 ^ 32 by omega)

theorem does_visit {head id : PageId} {hops : UInt32} {page : Page}
    (hhops : hops.toNat ≤ f.header.pageCount.toNat) (hpage : f.pages id = .ok page)
    (hkind : page.kind = .ok .overflow) :
    Does f (visit head id hops) E fun x g => g = f ∧ x = page := by
  refine .self_bind fun p hh _ _ => ?_
  rw [hh, if_neg (show ¬f.header.pageCount < hops from Nat.not_lt_of_le hhops)]
  refine .bind (.read_ok hpage (R := fun x g => g = f ∧ x = page) ⟨rfl, rfl⟩) ?_
  rintro x g ⟨rfl, rfl⟩
  refine .bind ((Does.ofResult g x.kind).mono (fun e he => ?_) fun _ _ h => h) ?_
  · rw [hkind] at he
    cases he
  rintro kind g' ⟨rfl, hk⟩
  obtain rfl := Except.ok.inj (hkind.symm.trans hk)
  rw [if_neg (by simp)]
  exact .pure ⟨rfl, rfl⟩

/-- The pages of a chain are pages of the file. -/
theorem ChainAt.ne_zero (hs : f.Sane) {id : PageId} {part : Bytes} {next : PageId}
    (hpage : f.pages id = .ok (link f id next part)) : id ≠ 0 := (hs.page _ _ hpage).2.1.1

theorem kind_link (id next : PageId) (part : Bytes) :
    (link f id next part).kind = .ok .overflow := Page.kind_blank

theorem does_readFrom (hs : f.Sane) (head : PageId) {fuel : Nat} {hops : UInt32}
    {id : PageId} {bss : List Bytes} {ids : List PageId} (h : ChainAt f id bss ids)
    (hfuel : ids.length < fuel) (hhops : hops.toNat + ids.length ≤ f.header.pageCount.toNat) :
    Does f (readFrom head fuel hops id) E fun bs g => g = f ∧ bs = bss.flatten := by
  -- Each page of the chain takes one of the fuel and counts as one hop, so neither limit is met.
  induction fuel generalizing hops id bss ids with
  | zero => omega
  | succ fuel ih =>
      match bss, ids, h with
      | [], [], h =>
          obtain rfl : id = 0 := h
          rw [readFrom, if_pos rfl]
          exact .pure ⟨rfl, rfl⟩
      | part :: bss, _ :: ids, ⟨rfl, hlen, next, hpage, hrest⟩ =>
          rw [List.length_cons] at hfuel hhops
          have hhop := toNat_hop (show hops.toNat < f.header.pageCount.toNat by omega)
          rw [readFrom, if_neg (ChainAt.ne_zero hs hpage)]
          refine .bind (does_visit (by omega) hpage (kind_link _ next part)) ?_
          rintro x g ⟨rfl, rfl⟩
          refine .self_bind fun p _ hp _ => ?_
          rw [hp, lengthOf_link hs hlen, nextOf_link hs hlen, if_neg (Nat.not_lt_of_le hlen)]
          refine .ofResult_bind (partOf_link hs hlen _ next) ?_
          refine .bind (ih hrest (by omega) (by omega)) ?_
          rintro bs g' ⟨rfl, rfl⟩
          exact .pure ⟨rfl, rfl⟩

/-- **Reading a chain gives the value that it holds.** -/
theorem does_read {head : PageId} {bss : List Bytes} {ids : List PageId}
    (h : ChainAt f head bss ids) (hlen : ids.length ≤ f.header.pageCount.toNat) :
    Does f (read head) E fun bs g => g = f ∧ bs = bss.flatten := by
  refine .of_sane fun hs => .self_bind fun p hh _ _ => ?_
  rw [hh]
  exact does_readFrom hs head h (by omega) (by rwa [UInt32.toNat_zero, Nat.zero_add])

/-! ## Freeing -/

theorem coe_cons_add (id : PageId) (ids : List PageId) (used : Multiset PageId) :
    ((id :: ids : List PageId) : Multiset PageId) + used = {id} + ((ids : Multiset PageId) + used) := by
  rw [← Multiset.cons_coe, ← Multiset.singleton_add, add_assoc]

theorem does_freeFrom (head : PageId) {fuel : Nat} {hops : UInt32} {id : PageId} {bss : List Bytes}
    {ids : List PageId} {used : Multiset PageId} (h : ChainAt f id bss ids)
    (hb : Balanced f (ids + used)) (hfuel : ids.length < fuel)
    (hhops : hops.toNat + ids.length ≤ f.header.pageCount.toNat) :
    Does f (freeFrom head fuel hops id) E fun _ g => Balanced g used ∧ Kept used f g := by
  induction fuel generalizing f hops id bss ids with
  | zero => omega
  | succ fuel ih =>
      match bss, ids, h with
      | [], [], h =>
          obtain rfl : id = 0 := h
          rw [freeFrom, if_pos rfl]
          rw [Multiset.coe_nil, zero_add] at hb
          exact .pure ⟨hb, .refl used f⟩
      | part :: bss, _ :: ids, ⟨rfl, hlen, next, hpage, hrest⟩ =>
          rw [List.length_cons] at hfuel hhops
          rw [coe_cons_add] at hb
          refine .of_sane fun hs => ?_
          have hhop := toNat_hop (show hops.toNat < f.header.pageCount.toNat by omega)
          rw [freeFrom, if_neg (ChainAt.ne_zero hs hpage)]
          refine .bind (does_visit (by omega) hpage (kind_link _ next part)) ?_
          rintro x g ⟨rfl, rfl⟩
          refine .bind hb.free ?_
          rintro ⟨⟩ g' ⟨hb', hk⟩
          -- Freeing the first page writes to it alone, so the rest of the chain is still there.
          have hrest' : ChainAt g' next bss ids := hrest.congr
            (fun other ho => hk.pages other (Multiset.mem_add.2 (.inl ho))) hk.pageSize
          have hcount := hk.count
          rw [nextOf_link hs hlen]
          refine (ih hrest' hb' (by omega) (by omega)).post ?_
          rintro ⟨⟩ k ⟨hb'', hk'⟩
          exact ⟨hb'', (hk.mono fun other ho => Multiset.mem_add.2 (.inr ho)).trans hk'⟩

/-- **Freeing a chain gives back its pages** and changes no others in use. -/
theorem does_free {head : PageId} {bss : List Bytes} {ids : List PageId}
    {used : Multiset PageId} (h : ChainAt f head bss ids) (hb : Balanced f (ids + used)) :
    Does f (free head) E fun _ g => Balanced g used ∧ Kept used f g := by
  have hcard := hb.card_lt
  rw [Multiset.card_add, Multiset.coe_card] at hcard
  refine .self_bind fun p hh _ _ => ?_
  rw [hh]
  exact does_freeFrom head h hb (by omega) (by rw [UInt32.toNat_zero]; omega)

/-! ## Writing -/

theorem does_allocateAll (count : Nat) {used : Multiset PageId} (hb : Balanced f used) :
    Does f (allocateAll count) IsFull fun ids g =>
      ids.length = count ∧ Balanced g (ids + used) ∧ Kept used f g := by
  induction count generalizing f used with
  | zero =>
      refine .pure ⟨rfl, ?_, .refl used f⟩
      rw [Multiset.coe_nil, zero_add]
      exact hb
  | succ count ih =>
      refine .bind hb.allocate ?_
      rintro id g ⟨hb', hk⟩
      refine .bind (ih hb') ?_
      rintro ids g' ⟨hlen, hb'', hk'⟩
      refine .pure ⟨by rw [List.length_cons, hlen], ?_,
        hk.trans (hk'.mono fun other ho => Multiset.mem_add.2 (.inr ho))⟩
      rw [coe_cons_add, add_left_comm]
      exact hb''

theorem does_writeAll {ids : List PageId} {bss : List Bytes} {used : Multiset PageId}
    (hlen : ids.length = bss.length) (hcap : ∀ part ∈ bss, part.length ≤ capacity f.pageSize)
    (hb : Balanced f (ids + used)) :
    Does f (writeAll ids bss) E fun _ g =>
      Balanced g (ids + used) ∧ Kept used f g ∧ ChainAt g (ids.headD 0) bss ids := by
  induction ids generalizing f bss used with
  | nil =>
      obtain rfl := List.length_eq_zero_iff.1 hlen.symm
      exact .pure ⟨hb, .refl used f, rfl⟩
  | cons id ids ih =>
      match bss, hlen with
      | part :: bss, hlen =>
          rw [coe_cons_add] at hb
          refine .of_sane fun hs => .self_bind fun p _ hp _ => ?_
          rw [hp]
          have himage := Page.length_make (Nat.le_trans (by decide) hs.bounds.1) id .overflow
            (payload (ids.headD 0) part)
          refine .bind (Balanced.write hb himage) ?_
          rintro ⟨⟩ g ⟨hb', hk, hpage⟩
          -- The page that was written is left alone while the others are.
          rw [add_left_comm] at hb'
          refine (ih (Nat.succ.inj hlen) ?_ hb').post ?_
          · intro other ho
            rw [hk.pageSize]
            exact hcap other (List.mem_cons_of_mem _ ho)
          rintro ⟨⟩ g' ⟨hb'', hk', hchain⟩
          refine ⟨?_, (hk.mono fun other ho => Multiset.mem_add.2 (.inr ho)).trans
            (hk'.mono fun other ho => Multiset.mem_add.2 (.inr ho)), rfl, ?_, ids.headD 0, ?_,
            hchain⟩
          · rw [coe_cons_add, add_left_comm]
            exact hb''
          · rw [hk'.pageSize, hk.pageSize]
            exact hcap part List.mem_cons_self
          · have hkept := hk'.pages id (Multiset.mem_add.2 (.inl (Multiset.mem_singleton_self id)))
            show g'.pages id = .ok (link g' id (ids.headD 0) part)
            rw [hkept, link, hk'.pageSize, hk.pageSize]
            exact hpage

/-- **Writing a value makes a chain of it** on pages that were not in use. -/
theorem does_write (value : Bytes) {used : Multiset PageId} (hb : Balanced f used) :
    Does f (write value) IsFull fun head g => ∃ bss ids, ChainAt g head bss ids ∧
      bss.flatten = value ∧ Balanced g ((ids : List PageId) + used) ∧ Kept used f g := by
  refine .of_sane fun hs => .self_bind fun p _ hp _ => ?_
  rw [hp]
  refine .bind (does_allocateAll _ hb) ?_
  rintro ids g ⟨hlen, hb', hk⟩
  refine .bind (does_writeAll hlen ?_ hb') ?_
  · intro part hpart
    rw [hk.pageSize]
    exact length_le_of_mem_parts (capacity_pos hs) hpart
  rintro ⟨⟩ g' ⟨hb'', hk', hchain⟩
  exact .pure ⟨_, ids, hchain, flatten_parts _ value, hb'', hk.trans hk'⟩

end

end PagedStore.Tree.Chain
