import PagedStore.Proofs.Descents

/-!
# Nodes on pages of any bytes

A page is read as a node if and only if its payload begins with the written form of that node. One
direction holds since each reader takes back what was written; for the other, what a reader has
taken off is always the written form of what it gives (`eq_of_ofPage`). So whatever is read fits the
page and is written there again byte for byte.

The counts and lengths on a damaged page may claim more than the page holds. That leads no reader
behind the end: it either says that its string ends too soon, or it would read the same whatever
stood behind the string (`Within`). This is closed under reading one thing after another.
-/

set_option autoImplicit false

namespace PagedStore

theorem PageKind.ofTag_eq_ok_iff {n : UInt8} {k : PageKind} : ofTag n = .ok k ↔ n = k.tag := by
  constructor
  · intro h
    unfold ofTag at h
    split_ifs at h <;> cases h <;> assumption
  · rintro rfl
    exact ofTag_tag k

namespace Page

variable {p : Page}

/-- The kind of a page is what its fifth byte says. -/
theorem kind_eq_ok_iff {k : PageKind} (h : frontLength ≤ p.image.length) :
    p.kind = .ok k ↔ p.image[4]? = some k.tag := by
  have hlt : 4 < p.image.length := h
  have htag : p.kindTag = p.image[4] := by
    simp [kindTag, List.headD_eq_head?_getD, List.head?_drop, hlt]
  rw [kind, htag, List.getElem?_eq_getElem hlt, PageKind.ofTag_eq_ok_iff, Option.some.injEq]

/-- The kind of a page stands in the page. -/
theorem kind_append (h : frontLength ≤ p.image.length) (more : Bytes) :
    kind { p with image := p.image ++ more } = p.kind := by
  have hlt : 4 < p.image.length := h
  simp only [kind, kindTag, List.headD_eq_head?_getD, List.head?_drop,
    List.getElem?_append_left hlt]

theorem payload_append (h : frontLength ≤ p.image.length) (more : Bytes) :
    payload { p with image := p.image ++ more } = p.payload ++ more :=
  List.drop_append_of_le_length h

end Page

namespace Tree

open Bytes

namespace Node

section

variable {α β : Type} {bs rest : Bytes} {page : PageId} {count : Nat}

/-! ## What was read is what is written -/

theorem of_bind_eq_ok {r : Except Error α} {k : α → Except Error β} {y : β}
    (h : (r >>= k) = .ok y) : ∃ x, r = .ok x ∧ k x = .ok y := by
  cases r with
  | ok x => exact ⟨x, rfl, h⟩
  | error e => cases h

theorem eq_some_of_orTruncated {o : Option α} {x : α} (h : orTruncated o = .ok x) :
    o = some x := by
  cases o with
  | some y => exact congrArg some (Except.ok.inj h)
  | none => cases h

theorem eq_of_readKey? {key : Bytes} (h : readKey? bs = some (key, rest)) :
    key.length < 65536 ∧ bs = encodeKey key ++ rest := by
  obtain ⟨⟨n, more⟩, hlength, hkey⟩ := Option.bind_eq_some_iff.1 h
  obtain ⟨hn, rfl⟩ := eq_of_u16? hlength
  obtain ⟨rfl, rfl⟩ := eq_of_take? hkey
  exact ⟨hn, (List.append_assoc ..).symm⟩

theorem eq_of_readValue {v : CellValue} (h : readValue page bs = .ok (v, rest)) :
    bs = v.encode ++ rest := by
  obtain ⟨⟨form, more⟩, hform, hread⟩ := of_bind_eq_ok h
  obtain ⟨⟨length, more'⟩, hlength, hvalue⟩ := of_bind_eq_ok hread
  obtain rfl := eq_of_u8? (eq_some_of_orTruncated hform)
  obtain rfl := eq_of_u32? (eq_some_of_orTruncated hlength)
  dsimp only at hvalue
  split at hvalue
  · rename_i hinline
    obtain ⟨⟨value, more⟩, htake, hend⟩ := of_bind_eq_ok hvalue
    obtain ⟨hlen, rfl⟩ := eq_of_take? (eq_some_of_orTruncated htake)
    obtain ⟨rfl, rfl⟩ := Prod.mk.inj (Except.ok.inj hend)
    rw [CellValue.encode, hlen, UInt32.ofNat_toNat, hinline, List.append_assoc, List.cons_append]
  · split at hvalue
    · rename_i hchained
      obtain ⟨⟨head, more⟩, hhead, hend⟩ := of_bind_eq_ok hvalue
      obtain rfl := eq_of_u32? (eq_some_of_orTruncated hhead)
      obtain ⟨rfl, rfl⟩ := Prod.mk.inj (Except.ok.inj hend)
      rcases hchained with rfl | rfl
      · rfl
      · rfl
    · cases hvalue

theorem eq_of_readCells {cells : List Cell} (h : readCells page count bs = .ok cells) :
    cells.length = count ∧ cells.flatMap Cell.encode <+: bs := by
  induction count generalizing bs cells with
  | zero =>
      obtain rfl := Except.ok.inj h
      exact ⟨rfl, List.nil_prefix⟩
  | succ count ih =>
      obtain ⟨⟨key, more⟩, hkey, hread⟩ := of_bind_eq_ok h
      obtain ⟨⟨value, more'⟩, hvalue, hread'⟩ := of_bind_eq_ok hread
      obtain ⟨cells', hcells, hend⟩ := of_bind_eq_ok hread'
      obtain rfl := Except.ok.inj hend
      obtain ⟨-, rfl⟩ := eq_of_readKey? (eq_some_of_orTruncated hkey)
      obtain rfl := eq_of_readValue hvalue
      obtain ⟨hlen, hpre⟩ := ih hcells
      refine ⟨congrArg (· + 1) hlen, ?_⟩
      rw [List.flatMap_cons, Cell.encode, List.append_assoc]
      exact (List.prefix_append_right_inj _).2 ((List.prefix_append_right_inj _).2 hpre)

theorem eq_of_readBranches {branches : List (Bytes × PageId)}
    (h : readBranches count bs = .ok branches) :
    branches.length = count ∧ branches.flatMap encodeBranch <+: bs := by
  induction count generalizing bs branches with
  | zero =>
      obtain rfl := Except.ok.inj h
      exact ⟨rfl, List.nil_prefix⟩
  | succ count ih =>
      obtain ⟨⟨key, more⟩, hkey, hread⟩ := of_bind_eq_ok h
      obtain ⟨⟨child, more'⟩, hchild, hread'⟩ := of_bind_eq_ok hread
      obtain ⟨branches', hbranches, hend⟩ := of_bind_eq_ok hread'
      obtain rfl := Except.ok.inj hend
      obtain ⟨-, rfl⟩ := eq_of_readKey? (eq_some_of_orTruncated hkey)
      obtain rfl := eq_of_u32? (eq_some_of_orTruncated hchild)
      obtain ⟨hlen, hpre⟩ := ih hbranches
      refine ⟨congrArg (· + 1) hlen, ?_⟩
      rw [List.flatMap_cons, encodeBranch, List.append_assoc]
      exact (List.prefix_append_right_inj _).2 ((List.prefix_append_right_inj _).2 hpre)

/-- A page that is read as a node is of its kind, and begins with its written form. -/
theorem eq_of_ofPage {p : Page} {n : Node} (h : ofPage p = .ok n) :
    p.kind = .ok n.kind ∧ n.encode <+: p.payload := by
  obtain ⟨kind, hkind, hnode⟩ := of_bind_eq_ok h
  rw [hkind]
  cases kind with
  | leaf =>
      obtain ⟨⟨count, more⟩, hcount, hread⟩ := of_bind_eq_ok hnode
      obtain ⟨cells, hcells, hend⟩ := of_bind_eq_ok hread
      obtain rfl := Except.ok.inj hend
      obtain ⟨-, hpay⟩ := eq_of_u16? (eq_some_of_orTruncated hcount)
      obtain ⟨rfl, hpre⟩ := eq_of_readCells hcells
      rw [hpay]
      exact ⟨rfl, (List.prefix_append_right_inj _).2 hpre⟩
  | interior =>
      obtain ⟨⟨count, more⟩, hcount, hread⟩ := of_bind_eq_ok hnode
      obtain ⟨⟨first, more'⟩, hfirst, hread'⟩ := of_bind_eq_ok hread
      obtain ⟨branches, hbranches, hend⟩ := of_bind_eq_ok hread'
      obtain rfl := Except.ok.inj hend
      obtain ⟨-, hpay⟩ := eq_of_u16? (eq_some_of_orTruncated hcount)
      obtain rfl := eq_of_u32? (eq_some_of_orTruncated hfirst)
      obtain ⟨rfl, hpre⟩ := eq_of_readBranches hbranches
      rw [hpay, encode, List.append_assoc]
      exact ⟨rfl, (List.prefix_append_right_inj _).2 ((List.prefix_append_right_inj _).2 hpre)⟩
  | free => cases hnode
  | overflow => cases hnode

/-! ## Nothing behind the end is read -/

/-- Whether reading keeps to its string: either it says that the string ends too soon, or bytes
behind the string would change nothing but what is left over. -/
def Within (leave : Bytes → α → α) (read : Bytes → Except Error α) : Prop :=
  ∀ bs more, read bs = .error truncated ∨ read (bs ++ more) = (read bs).map (leave more)

/-- More bytes behind what a reader has left over. -/
def leftOver (more : Bytes) (r : α × Bytes) : α × Bytes := (r.1, r.2 ++ more)

namespace Within

variable {leave : Bytes → α → α}

theorem leaves (x : α) : Within leftOver fun rest => .ok (x, rest) := fun _ _ => .inr rfl

theorem ok (x : α) : Within (fun _ => id) fun _ => .ok x := fun _ _ => .inr rfl

theorem error (e : Error) : Within leave fun _ => .error e := fun _ _ => .inr rfl

/-- One thing is read after another. -/
theorem bind {leave : Bytes → β → β} {read : Bytes → Except Error (α × Bytes)}
    {k : α × Bytes → Except Error β} (hr : Within leftOver read)
    (hk : ∀ x, Within leave fun rest => k (x, rest)) : Within leave fun bs => read bs >>= k := by
  intro bs more
  show (read bs >>= k) = _ ∨ (read (bs ++ more) >>= k) = (read bs >>= k).map _
  rcases hr bs more with h | h
  · rw [h]
    exact .inl rfl
  · rw [h]
    cases read bs with
    | error e => exact .inr rfl
    | ok r => exact hk r.1 r.2 more

/-- What is done with a result does not matter. -/
theorem map {read : Bytes → Except Error α} {f : α → β} (hr : Within (fun _ => id) read) :
    Within (fun _ => id) fun bs => read bs >>= fun x => .ok (f x) := by
  intro bs more
  show (read bs >>= _) = _ ∨ (read (bs ++ more) >>= _) = (read bs >>= _).map _
  rcases hr bs more with h | h
  · rw [h]
    exact .inl rfl
  · rw [h]
    cases read bs with
    | error e => exact .inr rfl
    | ok x => exact .inr rfl

theorem ite {read read' : Bytes → Except Error α} {c : Prop} [Decidable c]
    (h : Within leave read) (h' : Within leave read') :
    Within leave fun bs => if c then read bs else read' bs := by
  by_cases hc : c
  · simpa only [if_pos hc] using h
  · simpa only [if_neg hc] using h'

theorem same {read : Bytes → Except Error α} (h : Within (fun _ => id) read) (bs more : Bytes) :
    read bs = .error truncated ∨ read (bs ++ more) = read bs := by
  rcases h bs more with h | h
  · exact .inl h
  · rw [h]
    cases read bs with
    | error e => exact .inr rfl
    | ok x => exact .inr rfl

/-- A field that is taken off the front of a string is taken off the front of a longer one. -/
theorem orTruncated {read? : Bytes → Option (α × Bytes)}
    (h : ∀ {bs x rest} more, read? bs = some (x, rest) →
      read? (bs ++ more) = some (x, rest ++ more)) :
    Within leftOver fun bs => Node.orTruncated (read? bs) := by
  intro bs more
  show Node.orTruncated (read? bs) = _ ∨
    Node.orTruncated (read? (bs ++ more)) = (Node.orTruncated (read? bs)).map _
  cases hread : read? bs with
  | none => exact .inl rfl
  | some r =>
      rw [h more hread]
      exact .inr rfl

end Within

theorem within_u8? : Within leftOver fun bs => orTruncated (u8? bs) :=
  .orTruncated fun more h => by
    rw [eq_of_u8? h]
    rfl

theorem within_u16? : Within leftOver fun bs => orTruncated (u16? bs) :=
  .orTruncated fun more h => by
    obtain ⟨hn, rfl⟩ := eq_of_u16? h
    rw [List.append_assoc, u16?_ofU16 hn]

theorem within_u32? : Within leftOver fun bs => orTruncated (u32? bs) :=
  .orTruncated fun more h => by
    rw [eq_of_u32? h, List.append_assoc, u32?_ofU32]

theorem within_take? (n : Nat) : Within leftOver fun bs => orTruncated (take? n bs) :=
  .orTruncated fun more h => by
    obtain ⟨hlen, rfl⟩ := eq_of_take? h
    rw [List.append_assoc, take?_append_of_length hlen]

theorem within_readKey? : Within leftOver fun bs => orTruncated (readKey? bs) :=
  .orTruncated fun more h => by
    obtain ⟨hlen, rfl⟩ := eq_of_readKey? h
    rw [List.append_assoc, readKey?_encodeKey hlen]

theorem within_readValue (page : PageId) : Within leftOver (readValue page) :=
  .bind within_u8? fun _ => .bind within_u32? fun length =>
    .ite (.bind (within_take? length.toNat) fun _ => .leaves _)
      (.ite (.bind within_u32? fun _ => .leaves _) (.error _))

theorem within_readCells (page : PageId) (count : Nat) :
    Within (fun _ => id) (readCells page count) := by
  induction count with
  | zero => exact .ok []
  | succ count ih =>
      exact .bind within_readKey? fun _ => .bind (within_readValue page) fun _ => .map ih

theorem within_readBranches (count : Nat) : Within (fun _ => id) (readBranches count) := by
  induction count with
  | zero => exact .ok []
  | succ count ih =>
      exact .bind within_readKey? fun _ => .bind within_u32? fun _ => .map ih

/-- The payload of a leaf is read within its end. -/
theorem within_leaf (page : PageId) : Within (fun _ => id) fun bs => do
    let (count, rest) ← orTruncated (u16? bs)
    return leaf (← readCells page count rest) :=
  .bind within_u16? fun count => .map (within_readCells page count)

/-- The payload of an interior node is read within its end. -/
theorem within_interior : Within (fun _ => id) fun bs => do
    let (count, rest) ← orTruncated (u16? bs)
    let (first, rest) ← orTruncated (u32? rest)
    return interior first (← readBranches count rest) :=
  .bind within_u16? fun count => .bind within_u32? fun _ => .map (within_readBranches count)

/-- A page is read without a look at what stands behind it. -/
theorem ofPage_append {p : Page} (h : Page.frontLength ≤ p.image.length) (more : Bytes) :
    ofPage p = .error truncated ∨ ofPage { p with image := p.image ++ more } = ofPage p := by
  rw [ofPage, ofPage, Page.kind_append h, Page.payload_append h]
  cases p.kind with
  | error e => exact .inr rfl
  | ok kind =>
      cases kind with
      | leaf => exact (within_leaf p.id).same p.payload more
      | interior => exact within_interior.same p.payload more
      | free => exact .inr rfl
      | overflow => exact .inr rfl

end

/-! ## Writing nodes -/

variable {n : Node} {size : Nat} {id : PageId}

/-- A node that fits is written without being cut. -/
theorem image_toPage {page : Page} (h : n.fits size = true) (hpage : n.toPage id size = .ok page) :
    page.image = [0, 0, 0, 0, n.kind.tag] ++ (n.encode ++
      List.replicate (size - Page.frontLength - n.size) 0) := by
  obtain rfl := Except.ok.inj ((toPage_of_fits h id).symm.trans hpage)
  rw [fits_iff] at h
  rw [Page.make, resize_of_length_le (n.length_encode.trans_le h), length_encode]

theorem payload_toPage {page : Page} (h : n.fits size = true)
    (hpage : n.toPage id size = .ok page) :
    page.payload = n.encode ++ List.replicate (size - Page.frontLength - n.size) 0 := by
  rw [Page.payload, image_toPage h hpage]
  rfl

theorem kind_toPage {page : Page} (h : n.fits size = true) (hpage : n.toPage id size = .ok page) :
    page.kind = .ok n.kind := by
  obtain rfl := Except.ok.inj ((toPage_of_fits h id).symm.trans hpage)
  exact PageKind.ofTag_tag n.kind

/-! ## The main result -/

/-- **Nodes are written and read exactly.** A node that fits a page of a valid size is written
without being cut, and read back from it; the program stops at one that does not. On any page of
that size, whatever its bytes, a node is read if and only if the fifth byte of the page is the
number of the kind of the node and the payload begins with its written form; the node then fits the
page, and writing it again gives that part of the payload again, followed by zeros. Any other page
is refused as damaged. What stands behind a page is never looked at: if it could make a difference,
then by a node that reaches beyond the end of the page, and the page is refused as one that ends too
soon. -/
theorem nodes_read_exactly {size : Nat} (hsize : size ∈ pageSizes) :
    (∀ (n : Node) (id : PageId), n.fits size = true → ∃ page, n.toPage id size = .ok page ∧
      page.image = [0, 0, 0, 0, n.kind.tag] ++ (n.encode ++
        List.replicate (size - Page.frontLength - n.size) 0) ∧
      page.image.length = size ∧ ofPage page = .ok n) ∧
    (∀ (n : Node) (id : PageId), n.fits size = false → n.toPage id size = .error .panicked) ∧
    ∀ p : Page, p.image.length = size →
      (∀ n, ofPage p = .ok n ↔ p.image[4]? = some n.kind.tag ∧ n.encode <+: p.payload) ∧
      (∀ n, ofPage p = .ok n → n.fits size = true ∧
        ∃ page, n.toPage p.id size = .ok page ∧ page.payload =
          p.payload.take n.size ++ List.replicate (size - Page.frontLength - n.size) 0) ∧
      OnlyCorrupt (ofPage p) ∧
      ∀ more : Bytes, ofPage { p with image := p.image ++ more } = ofPage p ∨
        ofPage p = .error truncated ∧ ∀ n, ofPage { p with image := p.image ++ more } = .ok n →
          size < Page.frontLength + n.size := by
  obtain ⟨hmin, hmax⟩ := pageSize_bounds hsize
  have hfive : Page.frontLength = 5 := rfl
  refine ⟨fun n id hfit => ?_, fun n id hbig => toPage_of_not_fits hbig id, ?_⟩
  · have hpage := toPage_of_fits hfit id
    have hlen := Page.length_make (show 5 ≤ size by omega) id n.kind n.encode
    refine ⟨_, hpage, image_toPage hfit hpage, hlen, ?_⟩
    refine ofPage_of_isPrefix (kind_toPage hfit hpage) ⟨_, (payload_toPage hfit hpage).symm⟩ ?_
    rw [Page.payload, List.length_drop, hlen]
    omega
  · intro p hp
    have hfront : Page.frontLength ≤ p.image.length := by omega
    have hpay : p.payload.length = size - Page.frontLength := by
      rw [Page.payload, List.length_drop, hp]
    have hread : ∀ n, p.kind = .ok n.kind → n.encode <+: p.payload → ofPage p = .ok n :=
      fun n hkind hpre => ofPage_of_isPrefix hkind hpre (by omega)
    refine ⟨fun n => ?_, fun n hn => ?_, onlyCorrupt_ofPage p, fun more => ?_⟩
    · rw [← Page.kind_eq_ok_iff hfront]
      exact ⟨eq_of_ofPage, fun h => hread n h.1 h.2⟩
    · obtain ⟨-, hpre⟩ := eq_of_ofPage hn
      have hfit : n.fits size = true := by
        rw [fits_iff, ← hpay, ← length_encode]
        exact hpre.length_le
      have hpage := toPage_of_fits hfit p.id
      refine ⟨hfit, _, hpage, ?_⟩
      rw [payload_toPage hfit hpage, ← length_encode, ← List.prefix_iff_eq_take.1 hpre]
    · rcases ofPage_append hfront more with hshort | hsame
      · refine .inr ⟨hshort, fun n hn => Nat.lt_of_not_le fun hle => ?_⟩
        -- A node that ends within the page would have been read.
        obtain ⟨hkind, hpre⟩ := eq_of_ofPage hn
        rw [Page.kind_append hfront] at hkind
        rw [Page.payload_append hfront] at hpre
        have hwithin : n.encode <+: p.payload := by
          refine List.prefix_of_prefix_length_le hpre (List.prefix_append _ _) ?_
          rw [length_encode, hpay]
          omega
        rw [hread n hkind hwithin] at hshort
        cases hshort
      · exact .inl hsame

/-- A leaf with a value in it, under the empty key, and one in a compressed chain. -/
def smallAndLarge : Node := .leaf [⟨[], .inline [1, 2, 3]⟩, ⟨[7], .chained 10000 9 true⟩]

/-- The leaf on a page of 512 bytes that was never cleared behind it. -/
def unclearedPage : Page :=
  ⟨4, [9, 9, 9, 9, 2] ++ (smallAndLarge.encode ++ List.replicate 483 255)⟩

/-- The leaf is read back from its own page and from one with other bytes behind it, and from there
it is written as on its own page. -/
theorem nodes_read_exactly_uncleared :
    ∃ page, smallAndLarge.toPage 4 512 = .ok page ∧ ofPage page = .ok smallAndLarge ∧
      ofPage unclearedPage = .ok smallAndLarge ∧
      page.payload = unclearedPage.payload.take 24 ++ List.replicate 483 0 := by
  have hsize : 512 ∈ pageSizes := by decide
  obtain ⟨hwritten, -, hread⟩ := nodes_read_exactly hsize
  obtain ⟨hiff, hagain, -⟩ := hread unclearedPage (by decide +kernel)
  have hnode : ofPage unclearedPage = .ok smallAndLarge :=
    (hiff smallAndLarge).2 ⟨rfl, List.prefix_append _ _⟩
  obtain ⟨page, hpage, -, -, hback⟩ := hwritten smallAndLarge 4 (by decide)
  obtain ⟨-, page', hpage', hpayload⟩ := hagain smallAndLarge hnode
  obtain rfl := Except.ok.inj (hpage.symm.trans hpage')
  exact ⟨page, hpage, hback, hnode, hpayload⟩

end Node

end Tree

end PagedStore
