import PagedStore.Proofs.Ways

/-!
# Questions to a tree of any pages

Whatever the pages hold, a question is answered by what can be seen of the pager alone. A single
descent comes to an end if and only if its way down does (`Descent.replies`, `Descent.endless`).
From a page below which none leads back to itself, every search comes to an end, and it fails only
where pages are damaged. Elsewhere it may go on for ever, but it fails in no other way
(`Strays`).
-/

set_option autoImplicit false

namespace PagedStore

open PagedStore.Action

/-- A result, or a failure that says that a page is damaged. -/
def OnlyCorrupt {α : Type} (r : Except Error α) : Prop := ∀ e, r = .error e → IsCorrupt e

namespace OnlyCorrupt

variable {α β : Type}

theorem ok (x : α) : OnlyCorrupt (.ok x : Except Error α) := nofun

theorem corrupt (s : String) : OnlyCorrupt (.error (.corrupt s) : Except Error α) := by
  rintro _ ⟨⟩
  exact ⟨s, rfl⟩

theorem bind {r : Except Error α} {k : α → Except Error β} (hr : OnlyCorrupt r)
    (hk : ∀ x, OnlyCorrupt (k x)) : OnlyCorrupt (r >>= k) := by
  cases r with
  | ok x => exact hk x
  | error e =>
      rintro _ ⟨⟩
      exact hr e rfl

end OnlyCorrupt

namespace Tree

open Pager

/-! ## Reading nodes -/

namespace Node

variable {α : Type}

theorem onlyCorrupt_orTruncated (o : Option α) : OnlyCorrupt (orTruncated o) := by
  cases o with
  | some x => exact .ok x
  | none => exact .corrupt _

theorem onlyCorrupt_readValue (page : PageId) (bs : Bytes) : OnlyCorrupt (readValue page bs) := by
  refine .bind (onlyCorrupt_orTruncated _) fun (form, rest) => ?_
  refine .bind (onlyCorrupt_orTruncated _) fun (length, rest) => ?_
  dsimp only
  split
  · exact .bind (onlyCorrupt_orTruncated _) fun _ => .ok _
  · split
    · exact .bind (onlyCorrupt_orTruncated _) fun _ => .ok _
    · exact .corrupt _

theorem onlyCorrupt_readCells (page : PageId) (count : Nat) (bs : Bytes) :
    OnlyCorrupt (readCells page count bs) := by
  induction count generalizing bs with
  | zero => exact .ok _
  | succ count ih =>
      refine .bind (onlyCorrupt_orTruncated _) fun key => ?_
      exact .bind (onlyCorrupt_readValue _ _) fun value => .bind (ih _) fun _ => .ok _

theorem onlyCorrupt_readBranches (count : Nat) (bs : Bytes) :
    OnlyCorrupt (readBranches count bs) := by
  induction count generalizing bs with
  | zero => exact .ok _
  | succ count ih =>
      refine .bind (onlyCorrupt_orTruncated _) fun key => ?_
      exact .bind (onlyCorrupt_orTruncated _) fun child => .bind (ih _) fun _ => .ok _

theorem onlyCorrupt_ofPage (page : Page) : OnlyCorrupt (ofPage page) := by
  refine .bind (fun e he => corrupt_of_kind he) fun kind => ?_
  cases kind with
  | leaf =>
      exact .bind (onlyCorrupt_orTruncated _) fun count =>
        .bind (onlyCorrupt_readCells _ _ _) fun cells => .ok _
  | interior =>
      exact .bind (onlyCorrupt_orTruncated _) fun count => .bind (onlyCorrupt_orTruncated _)
        fun first => .bind (onlyCorrupt_readBranches _ _) fun rest => .ok _
  | _ => exact .corrupt _

end Node

/-- The node on a page is what loading it gives. -/
theorem answers_load (f : Face) (id : PageId) : Answers f (load id) (f.node id) := by
  have hread := Answers.read f id
  rw [Face.node]
  cases hpage : f.pages id with
  | error e =>
      rw [hpage] at hread
      exact .bind_error hread
  | ok page =>
      rw [hpage] at hread
      exact .bind_ok hread (.ofResult f (Node.ofPage page))

/-! ## Single descents -/

/-- The child that leads to a key. -/
def toward (key : Bytes) (first : PageId) (rest : List (Bytes × PageId)) : PageId :=
  Node.child first rest (Node.childIndex key rest)

/-- The first child. -/
def leftmost (first : PageId) (_ : List (Bytes × PageId)) : PageId := first

/-- The last child. -/
def rightmost (first : PageId) (rest : List (Bytes × PageId)) : PageId :=
  (Node.children first rest).getLastD first

/-- A search that goes on from an interior node to the child that is picked, and ends at a leaf. -/
structure Descent (pick : PageId → List (Bytes × PageId) → PageId)
    (search : (fuel : Nat) → PageId → Action Pager (Option Cell)) : Prop where
  limit : ∀ id, search 0 id = throw .endless
  step : ∃ k : Nat → Node → Action Pager (Option Cell),
    (∀ fuel id, search (fuel + 1) id = load id >>= k fuel) ∧
    (∀ fuel first rest, k fuel (.interior first rest) = search fuel (pick first rest)) ∧
    ∀ cells, ∃ x, ∀ fuel, k fuel (.leaf cells) = pure x

theorem descent_lookupFrom (key : Bytes) : Descent (toward key) (lookupFrom key) := by
  refine ⟨fun _ => rfl, _, fun _ _ => rfl, fun _ _ _ => rfl, fun cells => ?_⟩
  dsimp only
  generalize Node.findCell key cells = place
  obtain ⟨i, found⟩ := place
  cases found with
  | true => exact ⟨cells[i]?, fun _ => rfl⟩
  | false => exact ⟨none, fun _ => rfl⟩

theorem descent_firstFrom : Descent leftmost firstFrom :=
  ⟨fun _ => rfl, _, fun _ _ => rfl, fun _ _ _ => rfl, fun cells => ⟨cells.head?, fun _ => rfl⟩⟩

theorem descent_lastFrom : Descent rightmost lastFrom :=
  ⟨fun _ => rfl, _, fun _ _ => rfl, fun _ _ _ => rfl, fun cells => ⟨cells.getLast?, fun _ => rfl⟩⟩

section

variable {f : Face} {pick : PageId → List (Bytes × PageId) → PageId}
  {search : Nat → PageId → Action Pager (Option Cell)} {id : PageId} {ids : List PageId}
  {fuel fuel' : Nat}

theorem bottom_of_leaf {cells : List Cell} (h : f.node id = .ok (.leaf cells)) :
    ∀ child, ¬ f.Enters id child := by
  rintro child ⟨first, rest, hnode, -⟩
  cases h.symm.trans hnode

theorem bottom_of_error {e : Error} (h : f.node id = .error e) : ∀ child, ¬ f.Enters id child := by
  rintro child ⟨first, rest, hnode, -⟩
  cases h.symm.trans hnode

theorem onlyCorrupt_node (hf : f.Honest) (id : PageId) :
    OnlyCorrupt (f.node id) :=
  .bind (fun e he => hf.corrupt id e he) Node.onlyCorrupt_ofPage

/-- What a node leads to is all that matters after it was loaded. -/
theorem Replies.load {α : Type} {E : Error → Prop} (hf : f.Honest) (hE : ∀ e, IsCorrupt e → E e)
    {k : Node → Action Pager α} (hk : ∀ node, f.node id = .ok node → Replies f E (k node)) :
    Replies f E (Tree.load id >>= k) := by
  have hload := answers_load f id
  have hcorrupt := onlyCorrupt_node hf id
  cases hnode : f.node id with
  | error e =>
      rw [hnode] at hload hcorrupt
      refine ⟨.error e, .bind_error hload, ?_⟩
      rintro _ ⟨⟩
      exact hE e (hcorrupt e rfl)
  | ok node =>
      rw [hnode] at hload
      obtain ⟨r, hr, herror⟩ := hk node hnode
      exact ⟨r, .bind_ok hload hr, herror⟩

/-- **A descent whose way down ends comes to an end.** -/
theorem Descent.replies (h : Descent pick search)
    (hf : f.Honest) (hway : f.Way pick id ids)
    (hfuel : ids.length < fuel) : Replies f IsCorrupt (search fuel id) := by
  obtain ⟨k, hstep, hinterior, hleaf⟩ := h.step
  induction fuel generalizing id ids with
  | zero => exact absurd hfuel (Nat.not_lt_zero _)
  | succ fuel ih =>
      rw [hstep]
      refine Replies.load hf (fun _ he => he) fun node hnode => ?_
      cases node with
      | leaf cells =>
          obtain ⟨x, hx⟩ := hleaf cells
          rw [hx]
          exact .pure x
      | interior first rest =>
          obtain ⟨more, rfl, hmore⟩ := (Face.way_interior hnode).1 hway
          rw [hinterior]
          exact ih hmore (Nat.lt_of_succ_lt_succ hfuel)

/-- **A search whose way down does not end goes on beyond every limit.** -/
theorem endless_of_load {α : Type} {search : Nat → PageId → Action Pager α}
    {k : Nat → PageId → Node → Action Pager α} (hlimit : ∀ id, search 0 id = throw .endless)
    (hstep : ∀ fuel id, search (fuel + 1) id = load id >>= k fuel id)
    (hinterior : ∀ fuel id first rest,
      Answers f (search fuel (pick first rest)) (.error .endless) →
        Answers f (k fuel id (.interior first rest)) (.error .endless))
    (hno : ∀ ids, ¬ f.Way pick id ids) (fuel : Nat) :
    Answers f (search fuel id) (.error .endless) := by
  induction fuel generalizing id with
  | zero =>
      rw [hlimit]
      exact .throw _
  | succ fuel ih =>
      have hload := answers_load f id
      rw [hstep]
      cases hnode : f.node id with
      | error e => exact absurd ((Face.way_bottom (bottom_of_error hnode)).2 rfl) (hno [])
      | ok node =>
          rw [hnode] at hload
          cases node with
          | leaf cells => exact absurd ((Face.way_bottom (bottom_of_leaf hnode)).2 rfl) (hno [])
          | interior first rest =>
              refine .bind_ok hload (hinterior fuel id first rest (ih fun ids hids => ?_))
              exact hno (id :: ids) ((Face.way_interior hnode).2 ⟨ids, rfl, hids⟩)

theorem Descent.endless (h : Descent pick search) (hno : ∀ ids, ¬ f.Way pick id ids)
    (fuel : Nat) : Answers f (search fuel id) (.error .endless) := by
  obtain ⟨k, hstep, hinterior, -⟩ := h.step
  refine endless_of_load (k := fun fuel _ => k fuel) h.limit hstep ?_ hno fuel
  intro fuel id first rest hchild
  rw [hinterior]
  exact hchild

/-- A search that goes from page to page outlasts one with a smaller limit if it does so with every
node that it comes to. -/
theorem outlasts_of_load {α : Type} {search search' : Nat → PageId → Action Pager α}
    {k k' : Nat → PageId → Node → Action Pager α} (hlimit : ∀ id, search 0 id = throw .endless)
    (hstep : ∀ fuel id, search (fuel + 1) id = load id >>= k fuel id)
    (hstep' : ∀ fuel id, search' (fuel + 1) id = load id >>= k' fuel id)
    (hk : ∀ fuel fuel' id node, (∀ child, Outlasts (search' fuel' child) (search fuel child)) →
      Outlasts (k' fuel' id node) (k fuel id node))
    (hle : fuel ≤ fuel') (id : PageId) : Outlasts (search' fuel' id) (search fuel id) := by
  induction fuel generalizing fuel' id with
  | zero =>
      rw [hlimit]
      exact .of_endless _
  | succ fuel ih =>
      obtain ⟨fuel', rfl⟩ := Nat.exists_eq_succ_of_ne_zero (Nat.ne_of_gt (Nat.zero_lt_of_lt hle))
      rw [hstep, hstep']
      exact .bind_left _ fun node => hk fuel fuel' id node (ih (Nat.le_of_succ_le_succ hle))

/-- A greater limit makes no difference to a descent that ends. -/
theorem Descent.outlasts (h : Descent pick search) (hle : fuel ≤ fuel') (id : PageId) :
    Outlasts (search fuel' id) (search fuel id) := by
  obtain ⟨k, hstep, hinterior, hleaf⟩ := h.step
  refine outlasts_of_load (k := fun fuel _ => k fuel) h.limit hstep hstep ?_ hle id
  rintro fuel fuel' - node hchild
  cases node with
  | interior first rest =>
      rw [hinterior, hinterior]
      exact hchild _
  | leaf cells =>
      obtain ⟨x, hx⟩ := hleaf cells
      rw [hx, hx]
      exact .refl _

/-! ## Neighbours -/

theorem replies_firstFound {E : Error → Prop} {search : PageId → Action Pager (Option Cell)}
    {ids : List PageId} (h : ∀ id ∈ ids, Replies f E (search id)) :
    Replies f E (firstFound search ids) := by
  induction ids with
  | nil => exact .pure none
  | cons id ids ih =>
      refine .bind (h id List.mem_cons_self) fun found => ?_
      cases found with
      | some c => exact .pure (some c)
      | none => exact ih fun other ho => h other (List.mem_cons_of_mem id ho)

theorem outlasts_firstFound {search search' : PageId → Action Pager (Option Cell)}
    (h : ∀ id, Outlasts (search' id) (search id)) (ids : List PageId) :
    Outlasts (firstFound search' ids) (firstFound search ids) := by
  induction ids with
  | nil => exact .refl _
  | cons id ids ih =>
      refine .bind (h id) fun found => ?_
      cases found with
      | some c => exact .refl _
      | none => exact ih

/-- A search for a neighbour of a key: first below the child that leads to the key, then down from
the children on one side of it, one after the other. -/
structure Beside (key : Bytes) (edge : Nat → PageId → Action Pager (Option Cell))
    (search : (limit fuel : Nat) → PageId → Action Pager (Option Cell)) : Prop where
  limit : ∀ limit id, search limit 0 id = throw .endless
  step : ∃ (k : Nat → Nat → Node → Action Pager (Option Cell))
      (siblings : PageId → List (Bytes × PageId) → List PageId),
    (∀ limit fuel id, search limit (fuel + 1) id = load id >>= k limit fuel) ∧
    (∀ limit fuel first rest, k limit fuel (.interior first rest) =
      search limit fuel (toward key first rest) >>= fun found =>
        match found with
        | some c => pure (some c)
        | none => firstFound (edge limit) (siblings first rest)) ∧
    (∀ first rest, siblings first rest ⊆ Node.children first rest) ∧
    ∀ cells, ∃ x, ∀ limit fuel, k limit fuel (.leaf cells) = pure x

theorem beside_ceilFrom (bound : Bytes) (strict : Bool) :
    Beside bound firstFrom (ceilFrom bound strict) :=
  ⟨fun _ _ => rfl, _, _, fun _ _ _ => rfl, fun _ _ _ _ => rfl,
    fun _ _ => List.drop_subset _ _, fun _ => ⟨_, fun _ _ => rfl⟩⟩

theorem beside_floorFrom (bound : Bytes) (strict : Bool) :
    Beside bound lastFrom (floorFrom bound strict) := by
  refine ⟨fun _ _ => rfl, _, _, fun _ _ _ => rfl, fun _ _ _ _ => rfl, fun first rest => ?_,
    fun _ => ⟨_, fun _ _ => rfl⟩⟩
  exact List.reverse_subset.2 (List.take_subset _ _)

theorem toward_mem (key : Bytes) (first : PageId) (rest : List (Bytes × PageId)) :
    toward key first rest ∈ Node.children first rest := by
  rw [toward]
  cases Node.childIndex key rest with
  | zero => exact List.mem_cons_self
  | succ i =>
      rw [Node.child, List.getD_eq_getElem?_getD]
      cases hchild : (rest.map (·.2))[i]? with
      | none => exact List.mem_cons_self
      | some child => exact List.mem_cons_of_mem _ (List.mem_of_getElem? hchild)

theorem leftmost_mem (first : PageId) (rest : List (Bytes × PageId)) :
    leftmost first rest ∈ Node.children first rest := List.mem_cons_self

theorem rightmost_mem (first : PageId) (rest : List (Bytes × PageId)) :
    rightmost first rest ∈ Node.children first rest := by
  rw [rightmost, Node.children, List.getLastD_eq_getLast?,
    List.getLast?_eq_some_getLast (List.cons_ne_nil _ _)]
  exact List.getLast_mem _

variable {n limit limit' : Nat} {key : Bytes} {edge : Nat → PageId → Action Pager (Option Cell)}
  {around : Nat → Nat → PageId → Action Pager (Option Cell)}

/-- From a page below which no way is long a single descent comes to an end. -/
theorem Descent.replies_of_shallow (h : Descent pick search)
    (hpick : ∀ first rest, pick first rest ∈ Node.children first rest)
    (hf : f.Honest) (hs : f.Shallow n id) (hfuel : n < fuel) :
    Replies f IsCorrupt (search fuel id) := by
  obtain ⟨ids, hids, hlen⟩ := hs.exists_way hpick
  exact h.replies hf hids (Nat.lt_of_le_of_lt hlen hfuel)

/-- **A search for a neighbour comes to an end** where no way down is long. -/
theorem Beside.replies (h : Beside key edge around) (hedge : Descent pick edge)
    (hpick : ∀ first rest, pick first rest ∈ Node.children first rest)
    (hf : f.Honest) (hs : f.Shallow n id) (hlimit : n < limit)
    (hfuel : n < fuel) : Replies f IsCorrupt (around limit fuel id) := by
  obtain ⟨k, siblings, hstep, hinterior, hsiblings, hleaf⟩ := h.step
  induction fuel generalizing n id with
  | zero => exact absurd hfuel (Nat.not_lt_zero _)
  | succ fuel ih =>
      rw [hstep]
      refine Replies.load hf (fun _ he => he) fun node hnode => ?_
      cases node with
      | leaf cells =>
          obtain ⟨x, hx⟩ := hleaf cells
          rw [hx]
          exact .pure x
      | interior first rest =>
          cases n with
          | zero => exact absurd ⟨first, rest, hnode, List.mem_cons_self⟩ (hs first)
          | succ n =>
              have hchild : ∀ child ∈ Node.children first rest, f.Shallow n child :=
                fun child hc => hs child ⟨first, rest, hnode, hc⟩
              rw [hinterior]
              refine .bind (ih (hchild _ (toward_mem key first rest)) (Nat.lt_of_succ_lt hlimit)
                (Nat.lt_of_succ_lt_succ hfuel)) fun found => ?_
              cases found with
              | some c => exact .pure (some c)
              | none =>
                  exact replies_firstFound fun child hc => hedge.replies_of_shallow hpick hf
                    (hchild child (hsiblings first rest hc)) (Nat.lt_of_succ_lt hlimit)

theorem Beside.endless (h : Beside key edge around) (hno : ∀ ids, ¬ f.Way (toward key) id ids)
    (limit fuel : Nat) : Answers f (around limit fuel id) (.error .endless) := by
  obtain ⟨k, siblings, hstep, hinterior, -⟩ := h.step
  refine endless_of_load (k := fun fuel _ => k limit fuel) (h.limit limit) (hstep limit) ?_ hno fuel
  intro fuel id first rest hchild
  rw [hinterior]
  exact .bind_error hchild

theorem Beside.outlasts (h : Beside key edge around) (hedge : Descent pick edge)
    (hlimit : limit ≤ limit') (hle : fuel ≤ fuel') (id : PageId) :
    Outlasts (around limit' fuel' id) (around limit fuel id) := by
  obtain ⟨k, siblings, hstep, hinterior, -, hleaf⟩ := h.step
  refine outlasts_of_load (k := fun fuel _ => k limit fuel) (h.limit limit) (hstep limit)
    (hstep limit') ?_ hle id
  rintro fuel fuel' - node hchild
  cases node with
  | interior first rest =>
      rw [hinterior, hinterior]
      refine .bind (hchild _) fun found => ?_
      cases found with
      | some c => exact .refl _
      | none => exact outlasts_firstFound (hedge.outlasts hlimit) _
  | leaf cells =>
      obtain ⟨x, hx⟩ := hleaf cells
      rw [hx, hx]
      exact .refl _

/-! ## Searches in files of any pages -/

/-- The failures of a question to a file of any pages: it is the fault of the pages, or the search
goes on for ever. -/
def Strays (f : Face) (e : Error) : Prop := f.Trouble e ∨ e = .endless

theorem Strays.of_corrupt {e : Error} (h : IsCorrupt e) : Strays f e := .inl (.of_corrupt h)

/-- Where all pages are as long as those of the file no check of the program's own fails. -/
theorem Strays.ne_panicked (hf : f.Even) {e : Error} (h : Strays f e) : e ≠ .panicked := by
  rcases h with h | rfl
  · cases h with
    | damaged => nofun
    | short huneven => exact absurd hf huneven
    | uncounted => nofun
  · nofun

theorem Descent.strays (h : Descent pick search) (hf : f.Honest) (fuel : Nat) (id : PageId) :
    Replies f (Strays f) (search fuel id) := by
  obtain ⟨k, hstep, hinterior, hleaf⟩ := h.step
  induction fuel generalizing id with
  | zero =>
      rw [h.limit]
      exact .throw (.inr rfl)
  | succ fuel ih =>
      rw [hstep]
      refine Replies.load hf (fun _ => .of_corrupt) fun node _ => ?_
      cases node with
      | leaf cells =>
          obtain ⟨x, hx⟩ := hleaf cells
          rw [hx]
          exact .pure x
      | interior first rest =>
          rw [hinterior]
          exact ih _

theorem Beside.strays (h : Beside key edge around) (hedge : Descent pick edge) (hf : f.Honest)
    (limit fuel : Nat) (id : PageId) : Replies f (Strays f) (around limit fuel id) := by
  obtain ⟨k, siblings, hstep, hinterior, -, hleaf⟩ := h.step
  induction fuel generalizing id with
  | zero =>
      rw [h.limit]
      exact .throw (.inr rfl)
  | succ fuel ih =>
      rw [hstep]
      refine Replies.load hf (fun _ => .of_corrupt) fun node _ => ?_
      cases node with
      | leaf cells =>
          obtain ⟨x, hx⟩ := hleaf cells
          rw [hx]
          exact .pure x
      | interior first rest =>
          rw [hinterior]
          refine .bind (ih _) fun found => ?_
          cases found with
          | some c => exact .pure (some c)
          | none => exact replies_firstFound fun child _ => hedge.strays hf limit child

/-! ## Questions -/

variable [Codec]

/-- A value is read, or its pages are at fault. -/
theorem replies_readValue (hf : f.Honest) (v : CellValue) : Replies f f.Trouble (readValue v) := by
  cases v with
  | inline bs => exact .pure bs
  | chained length head compressed =>
      refine .bind (Chain.replies_read hf head) fun stored => .bind (.ofResult ?_) fun value => ?_
      · intro e he
        rw [unpack] at he
        split at he
        · split at he
          · cases he
          · cases he
            exact .damaged _
        · cases he
      · split
        · exact .throw (.damaged _)
        · exact .pure value

/-- The record of the cell that a search found, if it found one. -/
def foundRecord : Option Cell → Action Pager (Option (Bytes × Bytes))
  | none => pure none
  | some c => record c >>= fun r => pure (some r)

theorem replies_foundRecord (hf : f.Honest) (found : Option Cell) :
    Replies f f.Trouble (foundRecord found) := by
  cases found with
  | none => exact .pure none
  | some c => exact .bind (.bind (replies_readValue hf c.value) fun _ => .pure _) fun _ => .pure _

/-- A question to a tree with a root is the search from there. -/
theorem answers_fromRoot {r : Except Error (Option (Bytes × Bytes))} (hroot : f.header.root ≠ 0)
    (h : Answers f (search (f.header.pageCount.toNat + 1) f.header.root >>= foundRecord) r) :
    Answers f (fromRoot search) r := by
  refine .look fun p hh _ => ?_
  rw [hh]
  dsimp only
  rw [if_neg hroot]
  refine .bind_ok (x := f.header.pageCount.toNat + 1) (.look fun q hq _ => ?_) h
  rw [hq]
  exact .pure _

/-- A question to a tree fails as the search from the root does, or by the fault of the pages that
hold the value that is found. -/
theorem replies_fromRoot {E : Error → Prop} (hf : f.Honest) (hE : ∀ e, f.Trouble e → E e)
    (h : f.header.root ≠ 0 → Replies f E (search (f.header.pageCount.toNat + 1) f.header.root)) :
    Replies f E (fromRoot search) := by
  by_cases hroot : f.header.root = 0
  · refine ⟨.ok none, .look fun p hh _ => ?_, nofun⟩
    rw [hh]
    dsimp only
    rw [if_pos hroot]
    exact .pure none
  · obtain ⟨r, hr, herror⟩ :=
      (h hroot).bind fun found => (replies_foundRecord hf found).mono hE
    exact ⟨r, answers_fromRoot hroot hr, herror⟩

theorem endless_fromRoot (hroot : f.header.root ≠ 0)
    (h : Answers f (search (f.header.pageCount.toNat + 1) f.header.root) (.error .endless)) :
    Answers f (fromRoot search) (.error .endless) := answers_fromRoot hroot (.bind_error h)

/-- What holds of all searches from the root holds of all questions. -/
structure AllReply (f : Face) (E : Error → Prop) : Prop where
  get : ∀ key, Replies f E (get key)
  first : Replies f E first
  last : Replies f E last
  ceil : ∀ key strict, Replies f E (fromRoot (ceilAt key strict))
  floor : ∀ key strict, Replies f E (fromRoot (floorAt key strict))

theorem AllReply.seek {E : Error → Prop} (h : AllReply f E) (key : Bytes) (mode : SeekMode) :
    Replies f E (seek key mode) := by
  cases mode with
  | exact => exact .bind (h.get key) fun _ => .pure _
  | atMost => exact h.floor key false
  | atLeast => exact h.ceil key false

/-- **Where no way down is long every question is answered**, if only by the fault of the pages. -/
theorem allReply_of_shallow (hf : f.Honest)
    (hs : f.Shallow (f.header.pageCount.toNat - 1) f.header.root) : AllReply f f.Trouble := by
  have single : ∀ {pick search}, Descent pick search →
      (∀ first rest, pick first rest ∈ Node.children first rest) →
        Replies f f.Trouble (fromRoot search) := fun h hpick =>
    replies_fromRoot hf (fun _ he => he) fun _ =>
      (h.replies_of_shallow hpick hf hs (by omega)).mono fun _ => .of_corrupt
  have double : ∀ {key pick edge around}, Beside key edge around → Descent pick edge →
      (∀ first rest, pick first rest ∈ Node.children first rest) →
        Replies f f.Trouble (fromRoot fun limit => around limit limit) := fun h hedge hpick =>
    replies_fromRoot hf (fun _ he => he) fun _ =>
      (h.replies hedge hpick hf hs (by omega) (by omega)).mono fun _ => .of_corrupt
  exact
    { get := fun key => .bind (single (descent_lookupFrom key) (toward_mem key)) fun _ => .pure _
      first := single descent_firstFrom leftmost_mem
      last := single descent_lastFrom rightmost_mem
      ceil := fun key strict => by
        have hceil := double (beside_ceilFrom key strict) descent_firstFrom leftmost_mem
        exact hceil
      floor := fun key strict => by
        have hfloor := double (beside_floorFrom key strict) descent_lastFrom rightmost_mem
        exact hfloor }

/-- Whatever the pages hold, a question is answered, or its search goes on for ever. -/
theorem allReply_strays (hf : f.Honest) : AllReply f (Strays f) := by
  have single : ∀ {pick search}, Descent pick search →
      Replies f (Strays f) (fromRoot search) := fun h =>
    replies_fromRoot hf (fun _ => .inl) fun _ => h.strays hf _ _
  have double : ∀ {key pick edge around}, Beside key edge around → Descent pick edge →
      Replies f (Strays f) (fromRoot fun limit => around limit limit) := fun h hedge =>
    replies_fromRoot hf (fun _ => .inl) fun _ => h.strays hedge hf _ _ _
  exact
    { get := fun key => .bind (single (descent_lookupFrom key)) fun _ => .pure _
      first := single descent_firstFrom
      last := single descent_lastFrom
      ceil := fun key strict => by
        have hceil := double (beside_ceilFrom key strict) descent_firstFrom
        exact hceil
      floor := fun key strict => by
        have hfloor := double (beside_floorFrom key strict) descent_lastFrom
        exact hfloor }

end

end Tree

end PagedStore
