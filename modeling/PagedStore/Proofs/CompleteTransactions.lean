import Mathlib.Data.List.Infix
import PagedStore.Proofs.LogRoundTrip

/-!
# What recovery finds in any log

The entries of a log may stand in any order. A complete transaction is a stretch of them that
begins with a beginning, goes on with images only and ends with a mark of completion that agrees
with what stands before it. The walk over the log has one transaction pending at most; it is told
here by where in the entries that transaction has begun, which is one place or none. From this
what recovery has found is followed entry by entry: exactly the complete stretches, in their
order, with every entry counted once.
-/

set_option autoImplicit false

namespace PagedStore.Log

namespace Entry

/-- The page image that an entry gives. -/
def page? : Entry → Option (UInt32 × Bytes)
  | page id image => some (id, image)
  | _ => none

/-- The header image that an entry gives. -/
def header? : Entry → Option Bytes
  | header image => some image
  | _ => none

/-- Whether an entry gives an image, of a page or of the header. -/
def IsImage : Entry → Prop
  | page .. | header _ => True
  | _ => False

end Entry

/-- The page images that entries give, in their order. -/
def pagesOf (es : List Entry) : List (UInt32 × Bytes) := es.filterMap Entry.page?

/-- The last header image that entries give. -/
def lastHeader? (es : List Entry) : Option Bytes := (es.filterMap Entry.header?).getLast?

namespace Transaction

/-- The transaction that begins with a number and has these images. -/
def gathered (txn : UInt64) (body : List Entry) : Transaction :=
  ⟨txn, (lastHeader? body).getD [], pagesOf body⟩

/-- A transaction with one more image. -/
def add (t : Transaction) : Entry → Transaction
  | .page id image => { t with pages := t.pages ++ [(id, image)] }
  | .header image => { t with header := image }
  | _ => t

theorem gathered_concat (txn : UInt64) (body : List Entry) (e : Entry) :
    gathered txn (body ++ [e]) = (gathered txn body).add e := by
  cases e <;> simp [gathered, add, lastHeader?, pagesOf, Entry.header?, Entry.page?]

end Transaction

/-! ## Stretches -/

/-- A stretch of the entries of a log, from a beginning to a mark of completion: where it starts,
the two of them, and what stands between them. -/
@[ext]
structure Stretch where
  start : Nat
  opened : UInt64
  body : List Entry
  closed : UInt64
  count : UInt32

namespace Stretch

variable (x : Stretch)

def entries : List Entry := .begin x.opened :: x.body ++ [.commit x.closed x.count]

/-- Whether a stretch is found in the entries of a log, at its place. -/
def StandsIn (es : List Entry) : Prop := x.entries <+: es.drop x.start

/-- Whether a stretch is a complete transaction. -/
structure Complete : Prop where
  images : ∀ e ∈ x.body, e.IsImage
  same : x.closed = x.opened
  counted : x.count.toNat = (pagesOf x.body).length
  headed : ∃ image, lastHeader? x.body = some image ∧ image ≠ []

def transaction : Transaction := .gathered x.opened x.body

variable {x} {es : List Entry}

theorem length_entries : x.entries.length = x.body.length + 2 := by simp [entries]

theorem Complete.completes (h : x.Complete) :
    Scan.completes x.transaction x.closed x.count = true := by
  obtain ⟨image, himage, hne⟩ := h.headed
  simp [Scan.completes, transaction, Transaction.gathered, h.same, h.counted, himage, hne]

theorem complete_of_completes (himages : ∀ e ∈ x.body, e.IsImage)
    (h : Scan.completes x.transaction x.closed x.count = true) : x.Complete := by
  simp only [Scan.completes, transaction, Transaction.gathered, Bool.and_eq_true, beq_iff_eq,
    bne_iff_ne] at h
  obtain ⟨⟨hsame, hcount⟩, hheader⟩ := h
  refine ⟨himages, hsame.symm, hcount.symm, ?_⟩
  cases hlast : lastHeader? x.body with
  | none => exact absurd (by rw [hlast]; rfl) hheader
  | some image => exact ⟨image, rfl, by rwa [hlast] at hheader⟩

/-- With one more entry the same stretches are there, and the one that this entry ends. -/
theorem standsIn_concat (e : Entry) :
    x.StandsIn (es ++ [e]) ↔ x.StandsIn es ∨
      (es.drop x.start = .begin x.opened :: x.body ∧ e = .commit x.closed x.count) := by
  rcases Nat.lt_or_ge es.length x.start with hstart | hstart
  · have hold : es.drop x.start = [] := List.drop_eq_nil_of_le hstart.le
    have hnew : (es ++ [e]).drop x.start = [] := List.drop_eq_nil_of_le (by simp; omega)
    simp [StandsIn, entries, hold, hnew]
  · rw [StandsIn, List.drop_append_of_le_length hstart, List.prefix_concat_iff, or_comm, StandsIn]
    apply or_congr_right
    constructor
    · intro h
      obtain ⟨hbody, hend⟩ := List.append_inj' h rfl
      exact ⟨hbody.symm, (List.singleton_inj.1 hend).symm⟩
    · rintro ⟨hdrop, he⟩
      rw [entries, hdrop, he]

end Stretch

/-! ## The pending transaction -/

/-- Whether a transaction has begun at a place in the entries, and only images have followed. -/
def PendingAt (es : List Entry) (start : Nat) (t : Transaction) : Prop :=
  ∃ txn body, es.drop start = .begin txn :: body ∧ (∀ e ∈ body, e.IsImage) ∧
    t = .gathered txn body

section PendingAt

variable {es : List Entry} {e : Entry} {start : Nat} {t : Transaction}

theorem drop_concat_eq_begin {txn : UInt64} {body : List Entry} :
    (es ++ [e]).drop start = .begin txn :: body ↔
      (start = es.length ∧ e = .begin txn ∧ body = []) ∨
        ∃ sofar, es.drop start = .begin txn :: sofar ∧ body = sofar ++ [e] := by
  rcases Nat.lt_trichotomy start es.length with hstart | hstart | hstart
  · rw [List.drop_append_of_le_length hstart.le]
    cases hdrop : es.drop start with
    | nil => exact absurd (List.drop_eq_nil_iff.1 hdrop) (by omega)
    | cons first sofar =>
        constructor
        · intro h
          obtain ⟨rfl, rfl⟩ := List.cons.inj h
          exact .inr ⟨sofar, rfl, rfl⟩
        · rintro (⟨h, -⟩ | ⟨sofar', h, rfl⟩)
          · omega
          · rw [h, List.cons_append]
  · have hold : es.drop start = [] := List.drop_eq_nil_of_le hstart.ge
    have hnew : (es ++ [e]).drop start = [e] := List.drop_left' hstart.symm
    rw [hold, hnew, List.cons.injEq, @eq_comm _ [] body]
    simp [hstart]
  · have hold : es.drop start = [] := List.drop_eq_nil_of_le hstart.le
    have hnew : (es ++ [e]).drop start = [] := List.drop_eq_nil_of_le (by simp; omega)
    simp [hold, hnew, hstart.ne']

theorem pendingAt_begin (txn : UInt64) :
    PendingAt (es ++ [.begin txn]) start t ↔ start = es.length ∧ t = ⟨txn, [], []⟩ := by
  constructor
  · rintro ⟨txn', body, hdrop, himages, rfl⟩
    rcases drop_concat_eq_begin.1 hdrop with ⟨hstart, hbegin, rfl⟩ | ⟨sofar, -, rfl⟩
    · obtain rfl := Entry.begin.inj hbegin
      exact ⟨hstart, rfl⟩
    · exact absurd (himages (.begin txn) (by simp)) id
  · rintro ⟨rfl, rfl⟩
    exact ⟨txn, [], drop_concat_eq_begin.2 (.inl ⟨rfl, rfl, rfl⟩), by simp, rfl⟩

/-- An image belongs to the transaction that is pending. -/
theorem pendingAt_image (he : e.IsImage) :
    PendingAt (es ++ [e]) start t ↔ ∃ t', PendingAt es start t' ∧ t = t'.add e := by
  constructor
  · rintro ⟨txn, body, hdrop, himages, rfl⟩
    rcases drop_concat_eq_begin.1 hdrop with ⟨-, rfl, -⟩ | ⟨sofar, hsofar, rfl⟩
    · exact absurd he id
    · exact ⟨_, ⟨txn, sofar, hsofar, fun x hx => himages x (by simp [hx]), rfl⟩,
        Transaction.gathered_concat txn sofar e⟩
  · rintro ⟨_, ⟨txn, body, hdrop, himages, rfl⟩, rfl⟩
    refine ⟨txn, body ++ [e], drop_concat_eq_begin.2 (.inr ⟨body, hdrop, rfl⟩), ?_,
      (Transaction.gathered_concat txn body e).symm⟩
    intro x hx
    rcases List.mem_append.1 hx with hx | hx
    · exact himages x hx
    · rwa [List.mem_singleton.1 hx]

theorem not_pendingAt_commit (txn : UInt64) (pages : UInt32) :
    ¬ PendingAt (es ++ [.commit txn pages]) start t := by
  rintro ⟨txn', body, hdrop, himages, -⟩
  rcases drop_concat_eq_begin.1 hdrop with ⟨-, hbegin, -⟩ | ⟨sofar, -, rfl⟩
  · cases hbegin
  · exact himages (.commit txn pages) (by simp)

/-- A stretch that stands in the entries ends before the pending transaction begins. -/
theorem PendingAt.le_start (h : PendingAt es start t) {x : Stretch} (hx : x.StandsIn es) :
    x.start + x.entries.length ≤ start := by
  obtain ⟨txn, body, hdrop, himages, -⟩ := h
  obtain ⟨more, hmore⟩ := hx
  by_contra hlt
  -- Otherwise the mark of the stretch is the beginning or one of the images.
  have hmark : .commit x.closed x.count ∈ es.drop start := by
    have hat : es[x.start + (x.body.length + 1)]? = some (.commit x.closed x.count) := by
      rw [← List.getElem?_drop, ← hmore]
      simp [Stretch.entries]
    rw [Stretch.length_entries] at hlt
    refine List.mem_of_getElem? (i := x.start + (x.body.length + 1) - start) ?_
    rw [List.getElem?_drop, Nat.add_sub_cancel' (by omega), hat]
  rw [hdrop, List.mem_cons] at hmark
  rcases hmark with hmark | hmark
  · cases hmark
  · exact himages _ hmark

end PendingAt

/-! ## The walk -/

/-- What a walk has found in the entries so far, told by the complete stretches among them. -/
structure Scan.Told (es : List Entry) (s : Scan) (xs : List Stretch) : Prop where
  mem_iff : ∀ x, x ∈ xs ↔ x.Complete ∧ x.StandsIn es
  ordered : xs.Pairwise fun x y => x.start + x.entries.length ≤ y.start
  committed : s.found.committed = xs.map Stretch.transaction
  counted : (xs.map (·.entries.length)).sum + s.found.discarded + s.unsettled = es.length
  settled : s.pending = none → s.unsettled = 0
  pending : ∀ start t, PendingAt es start t ↔
    s.pending = some t ∧ start + s.unsettled = es.length

namespace Scan

theorem step_image {e : Entry} (he : e.IsImage) (s : Scan) :
    s.step e = match s.pending with
      | some t => { s with pending := some (t.add e), unsettled := s.unsettled + 1 }
      | none => ⟨s.discard 1, none, 0⟩ := by
  cases e with
  | page id image => rfl
  | header image => rfl
  | begin txn => exact absurd he id
  | commit txn pages => exact absurd he id

namespace Told

variable {es : List Entry} {s : Scan} {xs : List Stretch}

theorem start : Told [] {} [] where
  mem_iff x := by simp [Stretch.StandsIn, Stretch.entries]
  ordered := .nil
  committed := rfl
  counted := rfl
  settled _ := rfl
  pending start t := by simp [PendingAt]

/-- An entry that ends no complete stretch leaves the stretches as they were. -/
theorem mem_iff_concat (h : Told es s xs) {e : Entry}
    (he : ∀ x : Stretch, x.Complete → es.drop x.start = .begin x.opened :: x.body →
      e ≠ .commit x.closed x.count) (x : Stretch) :
    x ∈ xs ↔ x.Complete ∧ x.StandsIn (es ++ [e]) := by
  rw [h.mem_iff, Stretch.standsIn_concat, and_or_left]
  exact (or_iff_left fun ⟨hx, hdrop, hend⟩ => he x hx hdrop hend).symm

theorem step_begin (h : Told es s xs) (txn : UInt64) :
    Told (es ++ [.begin txn]) (s.step (.begin txn)) xs := by
  have hcounted := h.counted
  have hmem := h.mem_iff_concat (e := .begin txn) fun _ _ _ => by simp
  cases hp : s.pending with
  | none =>
      have hzero := h.settled hp
      simp only [step, hp]
      refine ⟨hmem, h.ordered, h.committed, ?_, by simp, fun start t => ?_⟩
      · simp only [List.length_append, List.length_singleton]
        omega
      · rw [pendingAt_begin, hzero]
        simp [and_comm, eq_comm]
  | some t₀ =>
      simp only [step, hp]
      refine ⟨hmem, h.ordered, h.committed, ?_, by simp, fun start t => ?_⟩
      · simp only [discard, List.length_append, List.length_singleton]
        omega
      · rw [pendingAt_begin]
        simp [and_comm, eq_comm]

theorem step_image (h : Told es s xs) {e : Entry} (he : e.IsImage) :
    Told (es ++ [e]) (s.step e) xs := by
  have hcounted := h.counted
  have hmem := h.mem_iff_concat (e := e) fun _ _ _ hend => by rw [hend] at he; exact he
  rw [Scan.step_image he]
  cases hp : s.pending with
  | none =>
      have hzero := h.settled hp
      refine ⟨hmem, h.ordered, h.committed, ?_, fun _ => rfl, fun start t => ?_⟩
      · simp only [discard, List.length_append, List.length_singleton]
        omega
      · rw [pendingAt_image he]
        simp [h.pending, hp]
  | some t₀ =>
      refine ⟨hmem, h.ordered, h.committed, ?_, by simp, fun start t => ?_⟩
      · simp only [List.length_append, List.length_singleton]
        omega
      · rw [pendingAt_image he]
        simp only [h.pending, hp, Option.some.injEq, List.length_append, List.length_singleton]
        constructor
        · rintro ⟨t', ⟨rfl, hstart⟩, rfl⟩
          exact ⟨rfl, by omega⟩
        · rintro ⟨rfl, hstart⟩
          exact ⟨t₀, ⟨rfl, by omega⟩, rfl⟩

/-- The stretch that a mark of completion ends is the pending transaction's. -/
theorem pending_of_drop (h : Told es s xs) {x : Stretch} (hx : x.Complete)
    (hdrop : es.drop x.start = .begin x.opened :: x.body) :
    s.pending = some x.transaction ∧ x.start + s.unsettled = es.length :=
  (h.pending _ _).1 ⟨x.opened, x.body, hdrop, hx.images, rfl⟩

theorem pendingAt_commit (txn : UInt64) (pages : UInt32) (start : Nat) (t : Transaction) :
    PendingAt (es ++ [.commit txn pages]) start t ↔
      none = some t ∧ start + 0 = (es ++ [Entry.commit txn pages]).length :=
  iff_of_false (not_pendingAt_commit txn pages) nofun

/-- A mark that agrees ends one more complete stretch. -/
theorem step_agreeing (h : Told es s xs) {new : Stretch} (hnew : new.Complete)
    (hdrop : es.drop new.start = .begin new.opened :: new.body) :
    Told (es ++ [.commit new.closed new.count])
      ⟨{ s.found with committed := s.found.committed ++ [new.transaction] }, none, 0⟩
      (xs ++ [new]) := by
  obtain ⟨hpend, hstart⟩ := h.pending_of_drop hnew hdrop
  have hlength : es.length = new.start + (new.body.length + 1) := by
    have hlen := congrArg List.length hdrop
    rw [List.length_drop, List.length_cons] at hlen
    omega
  refine ⟨fun x => ?_, ?_, ?_, ?_, fun _ => rfl, pendingAt_commit _ _⟩
  · rw [List.mem_append, List.mem_singleton, h.mem_iff, Stretch.standsIn_concat, and_or_left]
    apply or_congr_right
    constructor
    · rintro rfl
      exact ⟨hnew, hdrop, rfl⟩
    · rintro ⟨hx, hxdrop, hend⟩
      -- The mark ends a stretch that begins where the pending transaction does.
      have hxstart := (h.pending_of_drop hx hxdrop).2
      obtain ⟨hclosed, hcount⟩ := Entry.commit.inj hend
      have hsame : x.start = new.start := by omega
      rw [hsame, hdrop] at hxdrop
      obtain ⟨hopened, hbody⟩ := List.cons.inj hxdrop
      exact Stretch.ext hsame (Entry.begin.inj hopened).symm hbody.symm hclosed.symm hcount.symm
  · refine List.pairwise_append.2 ⟨h.ordered, List.pairwise_singleton _ _, fun x hx y hy => ?_⟩
    have hle : x.start + x.entries.length ≤ new.start :=
      PendingAt.le_start ⟨_, _, hdrop, hnew.images, rfl⟩ ((h.mem_iff x).1 hx).2
    rwa [List.mem_singleton.1 hy]
  · rw [List.map_append, ← h.committed]
    rfl
  · have hcounted := h.counted
    rw [List.map_append, List.sum_append, List.map_singleton, List.sum_singleton,
      Stretch.length_entries, List.length_append, List.length_singleton]
    show _ + s.found.discarded + 0 = _
    omega

theorem step_commit (h : Told es s xs) (txn : UInt64) (pages : UInt32) :
    ∃ xs', Told (es ++ [.commit txn pages]) (s.step (.commit txn pages)) xs' := by
  have hcounted := h.counted
  by_cases hends : ∃ x : Stretch, x.Complete ∧ es.drop x.start = .begin x.opened :: x.body ∧
      Entry.commit txn pages = .commit x.closed x.count
  · obtain ⟨x, hx, hdrop, hend⟩ := hends
    obtain ⟨rfl, rfl⟩ := Entry.commit.inj hend
    refine ⟨xs ++ [x], ?_⟩
    simp only [Scan.step, (h.pending_of_drop hx hdrop).1, hx.completes, if_true]
    exact h.step_agreeing hx hdrop
  · have hmem := h.mem_iff_concat (e := .commit txn pages) fun x hx hdrop hend =>
      hends ⟨x, hx, hdrop, hend⟩
    have hstep : s.step (.commit txn pages) = ⟨s.discard (s.unsettled + 1), none, 0⟩ := by
      cases hp : s.pending with
      | none => simp only [Scan.step, hp]
      | some t =>
          obtain ⟨opened, body, hdrop, himages, rfl⟩ :=
            (h.pending (es.length - s.unsettled) t).2 ⟨hp, by omega⟩
          simp only [Scan.step, hp]
          refine if_neg fun hdone => hends ?_
          exact ⟨⟨_, opened, body, txn, pages⟩,
            Stretch.complete_of_completes himages hdone, hdrop, rfl⟩
    rw [hstep]
    refine ⟨xs, hmem, h.ordered, h.committed, ?_, fun _ => rfl, pendingAt_commit _ _⟩
    simp only [discard, List.length_append, List.length_singleton]
    omega

theorem step (h : Told es s xs) (e : Entry) : ∃ xs', Told (es ++ [e]) (s.step e) xs' := by
  cases e with
  | begin txn => exact ⟨xs, h.step_begin txn⟩
  | page id image => exact ⟨xs, h.step_image trivial⟩
  | header image => exact ⟨xs, h.step_image trivial⟩
  | commit txn pages => exact h.step_commit txn pages

theorem foldl (h : Told es s xs) (more : List Entry) :
    ∃ xs', Told (es ++ more) (more.foldl Scan.step s) xs' := by
  induction more generalizing es s xs with
  | nil => exact ⟨xs, by rwa [List.append_nil]⟩
  | cons e more ih =>
      obtain ⟨xs', h'⟩ := h.step e
      have hmore := ih h'
      rwa [List.append_assoc] at hmore

end Told

/-- The walk takes the entries up to the first record that is none. -/
theorem run_append {good more : List Bytes} {es : List Entry}
    (hgood : good.map Entry.decode = es.map .ok)
    (hmore : ∀ bs ∈ more.head?, ∀ e, Entry.decode bs ≠ .ok e) (s : Scan) :
    s.run (good ++ more) = es.foldl step s := by
  induction good generalizing es s with
  | nil =>
      obtain rfl : es = [] := by simpa using hgood.symm
      cases more with
      | nil => rfl
      | cons bs more =>
          rw [List.nil_append, run]
          split
          · rename_i e he
            exact absurd he (hmore bs rfl e)
          · rfl
  | cons bs good ih =>
      cases es with
      | nil => cases hgood
      | cons e es =>
          rw [List.map_cons, List.map_cons, List.cons.injEq] at hgood
          rw [List.cons_append, run, hgood.1]
          exact ih hgood.2 (s.step e)

end Scan

/-- **Recovery finds exactly the complete transactions of a log**, in the order of the log, and
counts every entry once: as one of a complete transaction or as discarded. The entries are those
before the first record that is none. -/
theorem recovers_complete_stretches {path : String} {d : Disk} {file : NodeId}
    (hfind : d.find? path = some file) (hplain : (d.node file).isFolder = false)
    {good more : List Bytes} {es : List Entry}
    (hrecords : records (d.readAll file) = good ++ more)
    (hgood : good.map Entry.decode = es.map .ok)
    (hmore : ∀ bs ∈ more.head?, ∀ e, Entry.decode bs ≠ .ok e) :
    ∃ (found : Recovery) (xs : List Stretch), recoverFile path d = .ok found ∧
      (∀ x, x ∈ xs ↔ x.Complete ∧ x.StandsIn es) ∧
      xs.Pairwise (fun x y => x.start + x.entries.length ≤ y.start) ∧
      found.committed = xs.map Stretch.transaction ∧
      (xs.map (·.entries.length)).sum + found.discarded = es.length := by
  obtain ⟨xs, h⟩ := Scan.Told.start.foldl es
  rw [List.nil_append, ← Scan.run_append hgood hmore, ← hrecords] at h
  refine ⟨recover (d.readAll file), xs, ?_, h.mem_iff, h.ordered, h.committed, ?_⟩
  · rw [recoverFile, hfind]
    simp only [hplain, Bool.false_eq_true, if_false]
  · have hcounted := h.counted
    simp only [recover, Scan.finish, Scan.discard]
    omega

/-! ## A log with a stray mark, a transaction and a record that is no entry -/

/-- The entries before the record that is none. -/
def strayMark : List Entry := [.commit 7 0, .begin 1, .page 1 [5], .header [9], .commit 1 1]

/-- A disk with that log. -/
def strayLog : Disk :=
  ⟨[("a.wal", 0)], #[⟨false,
    ((strayMark.map Entry.encode ++ [[0]]).flatMap frame).toByteArray, .free⟩]⟩

theorem records_strayLog : records (strayLog.readAll 0) = strayMark.map Entry.encode ++ [[0]] := by
  have hcontents : strayLog.readAll 0 = (strayMark.map Entry.encode ++ [[0]]).flatMap frame :=
    Disk.toList_toByteArray _
  rw [hcontents, records_frames]
  intro bs hbs
  rcases List.mem_append.1 hbs with hbs | hbs
  · exact encoded_ne_nil _ _ hbs
  · rw [List.mem_singleton.1 hbs]
    exact List.cons_ne_nil _ _

theorem recovers_complete_stretches_stray_mark :
    ∃ found, recoverFile "a.wal" strayLog = .ok found ∧ ⟨1, [9], [(1, [5])]⟩ ∈ found.committed := by
  have hes : ∀ e ∈ strayMark, e.Writable := by
    intro e he
    simp only [strayMark, List.mem_cons, List.not_mem_nil, or_false] at he
    rcases he with rfl | rfl | rfl | rfl | rfl <;> first | trivial | (show 1 < 2 ^ 64; decide)
  have hno : ∀ bs ∈ [([0] : Bytes)].head?, ∀ e, Entry.decode bs ≠ .ok e := by
    rintro bs ⟨⟩ e he
    cases he
  have hfind : strayLog.find? "a.wal" = some 0 := rfl
  obtain ⟨found, xs, hfound, hmem, -, hcommitted, -⟩ :=
    recovers_complete_stretches hfind rfl records_strayLog (map_decode_encode hes) hno
  refine ⟨found, hfound, ?_⟩
  rw [hcommitted]
  refine List.mem_map.2 ⟨⟨1, 1, [.page 1 [5], .header [9]], 1, 1⟩, (hmem _).2 ⟨?_, ?_⟩, rfl⟩
  · refine ⟨fun e he => ?_, rfl, rfl, [9], rfl, by decide⟩
    simp only [List.mem_cons, List.not_mem_nil, or_false] at he
    rcases he with rfl | rfl <;> trivial
  · exact ⟨[], rfl⟩

end PagedStore.Log
