import PagedStore.Proofs.FailedChanges
import PagedStore.Proofs.TreeLife

/-!
# Engines after a commit that was stopped

A pager whose commit was made to stop is poisoned: it neither reads nor writes a page any more.
Whatever looks at a page, or asks for a new one, fails there (`Stops`). An engine notices this only
when it comes to its pages, and a tree without a root has none. So a question about such a tree is
answered as that about an empty one, and nothing else is answered at all, whatever has been asked
for since the commit.
-/

set_option autoImplicit false

namespace PagedStore

open PagedStore.Action Pager

/-! ## Programs that stop -/

section

variable {α β : Type}

/-- A pager that must not be used any more. -/
def Pager.Poisoned (p : Pager) : Prop := p.poisoned ≠ none

theorem Pager.keeps_poisoned {a : Action Pager α} (ha : Leaves Same a) :
    Keeps (fun p _ => Poisoned p) a :=
  ha.keeps fun _ _ hsame hp => fun hu => hp (hsame.poisoned.symm.trans hu)

/-- A program that fails whenever the pager must not be used any more, and not by a check of its
own. -/
def Pager.Stops (a : Action Pager α) : Prop :=
  ∀ p d, p.poisoned ≠ none → ∃ e, (a.exec p d).1 = .error e ∧ e ≠ .panicked

namespace Pager.Stops

theorem calm {a : Action Pager α} (ha : Stops a) : Calm Poisoned a := by
  intro p d hp
  obtain ⟨e, he, hne⟩ := ha p d hp
  rw [he]
  exact fun h => hne (Except.error.inj h)

theorem throw {e : Error} (h : e ≠ .panicked) : Stops (throw e : Action Pager α) :=
  fun _ _ _ => ⟨e, rfl, h⟩

/-- What follows a failure is not reached. -/
theorem bind {a : Action Pager α} (ha : Stops a) (k : α → Action Pager β) : Stops (a >>= k) := by
  intro p d hp
  obtain ⟨e, he, hne⟩ := ha p d hp
  have hexec : a.exec p d = (.error e, (a.exec p d).2) := Prod.ext he rfl
  exact ⟨e, by rw [exec_bind_error hexec], hne⟩

/-- What comes before a failure cannot make the pager usable again. -/
theorem after {a : Action Pager α} {k : α → Action Pager β} (hcalm : Calm Poisoned a)
    (ha : Leaves Same a) (hk : ∀ x, Stops (k x)) : Stops (a >>= k) := by
  intro p d hp
  have hne := hcalm p d hp
  rw [exec_bind]
  match hexec : a.exec p d with
  | (.error e, q, d') =>
      rw [hexec] at hne
      exact ⟨e, rfl, fun h => hne (by rw [h])⟩
  | (.ok x, q, d') =>
      obtain ⟨hsame, rfl⟩ := ha.of_exec hexec
      refine hk x q d' ?_
      rw [hsame.poisoned]
      exact hp

theorem self_bind {k : Pager → Action Pager β} (hk : ∀ p, Stops (k p)) : Stops (self >>= k) :=
  fun p d hp => hk p p d hp

theorem ensureUsable : Stops ensureUsable := by
  intro p d hp
  obtain ⟨reason, hreason⟩ := Option.ne_none_iff_exists'.1 hp
  rw [exec_ensureUsable_stopped hreason]
  exact ⟨_, rfl, nofun⟩

theorem ensureWritable : Stops ensureWritable := by
  intro p d hp
  obtain ⟨reason, hreason⟩ := Option.ne_none_iff_exists'.1 hp
  rw [exec_ensureWritable_eq]
  split
  · exact ⟨_, rfl, nofun⟩
  · rw [exec_ensureUsable_stopped hreason]
    exact ⟨_, rfl, nofun⟩

theorem commit : Stops commit := ensureWritable.bind _

/-- An operation fails as its program does. -/
theorem atomically {a : Action Pager α} (ha : Stops a) : Stops (Tree.atomically a) := by
  intro p d hp
  rw [exec_atomically_eq]
  exact ha p.begun d hp

end Pager.Stops

namespace Tree

theorem stops_load (id : PageId) : Stops (load id) := (Stops.ensureUsable.bind _).bind _

theorem stops_create (n : Node) : Stops (create n) := (Stops.ensureWritable.bind _).bind _

/-- Every way down the tree begins with a page. -/
theorem stops_descent {search : Nat → PageId → Action Pager α}
    {k : Nat → PageId → Node → Action Pager α} (hend : ∀ id, search 0 id = throw .endless)
    (hstep : ∀ fuel id, search (fuel + 1) id = load id >>= k fuel id) (fuel : Nat) (id : PageId) :
    Stops (search fuel id) := by
  cases fuel with
  | zero =>
      rw [hend]
      exact .throw nofun
  | succ fuel =>
      rw [hstep]
      exact (stops_load id).bind _

theorem leaves_depthLimit : Leaves Same depthLimit :=
  reading_depthLimit.orderly.leaves.mono fun _ _ h => h.toSame

theorem calm_depthLimit : Calm Poisoned depthLimit := .self_bind fun _ _ => .pure _

theorem stops_allocate : Stops allocate := Stops.ensureWritable.bind _

/-- There are no pages for a value. -/
theorem stops_writeChain (value : Bytes) : Stops (Chain.write value) := by
  have hall : ∀ count, 0 < count → Stops (Chain.allocateAll count)
    | _ + 1, _ => stops_allocate.bind _
  exact .self_bind fun p => (hall _ (List.length_pos_iff.2 (Chain.parts_ne_nil _ _))).bind _

section

variable [Codec]

theorem calm_makeValue (c : Compression) (key value : Bytes) :
    Calm Poisoned (makeValue c key value) := by
  refine .self_bind fun p _ => ?_
  split
  · exact .pure _
  split
  · exact .ofResult nofun
  · refine .bind (.ofResult fun h => ?_) (keeps_poisoned (.ofResult _)) fun packed => ?_
    · obtain ⟨s, hs⟩ := of_pack_eq_error h
      cases hs
    · exact ((stops_writeChain _).bind _).calm

/-- **No record is put into a tree**, not even as the first one: it takes a page. -/
theorem stops_insert (c : Compression) (key value : Bytes) : Stops (insert c key value) := by
  have hmade : Leaves Same (makeValue c key value) :=
    (orderly_makeValue c key value).leaves.mono fun _ _ h => h.toSame
  refine .after (calm_makeValue c key value) hmade fun stored => .self_bind fun p => ?_
  dsimp only
  split
  · exact (stops_create _).bind _
  · refine .after calm_depthLimit leaves_depthLimit fun fuel => ?_
    have hdescent : Stops (insertFrom ⟨key, stored⟩ fuel p.header.root) :=
      stops_descent (fun _ => rfl) (fun _ _ => rfl) fuel _
    exact hdescent.bind _

omit [Codec] in
theorem calm_checkKey (key : Bytes) : Calm Poisoned (checkKey key) := by
  refine .self_bind fun p _ => ?_
  dsimp only
  split
  · exact .ofResult nofun
  · exact .pure _

theorem stops_put (c : Compression) (key value : Bytes) : Stops (put c key value) :=
  .after (calm_checkKey key) ((reading_checkKey key).orderly.leaves.mono fun _ _ h => h.toSame)
    fun _ => (stops_insert c key value).atomically

omit [Codec] in
/-- A tree without a root is left at once, and below a root nothing succeeds. -/
theorem calm_of_stops {x : α} {below : Pager → Action Pager α} (hbelow : ∀ p, Stops (below p)) :
    Calm Poisoned (self >>= fun p => if p.header.root = 0 then pure x else below p) := by
  refine .self_bind fun p _ => ?_
  split
  · exact .pure x
  · exact (hbelow p).calm

theorem calm_get (key : Bytes) : Calm Poisoned (get key) := by
  have hroot : Calm Poisoned (fromRoot (lookupFrom key)) := calm_of_stops fun _ =>
    .after calm_depthLimit leaves_depthLimit fun fuel =>
      Stops.bind (stops_descent (fun _ => rfl) (fun _ _ => rfl) fuel _) _
  have hsame : Leaves Same (fromRoot (lookupFrom key)) :=
    (reading_fromRoot reading_lookupFrom).orderly.leaves.mono fun _ _ h => h.toSame
  exact .bind hroot (keeps_poisoned hsame) fun found => .pure _

theorem stops_append (c : Compression) (key value : Bytes) : Stops (append c key value) := by
  refine .after (calm_checkKey key)
    ((reading_checkKey key).orderly.leaves.mono fun _ _ h => h.toSame) fun _ => ?_
  have hextend : Stops (get key >>= fun old => insert c key (old.getD [] ++ value)) :=
    .after (calm_get key) ((reading_get key).orderly.leaves.mono fun _ _ h => h.toSame) fun _ =>
      stops_insert c key _
  exact hextend.atomically

end

/-! ## Programs that come to a page only below a root -/

/-- A program that succeeds on a poisoned pager if the tree has no root, and then with `x`. -/
def Blank (a : Action Pager α) (x : α) : Prop :=
  ∀ p d, p.poisoned ≠ none → ∀ y, (a.exec p d).1 = .ok y ↔ p.header.root = 0 ∧ y = x

/-- A tree without a root is told by its header. -/
theorem blank_of_stops {x : α} {below : Pager → Action Pager α} (hbelow : ∀ p, Stops (below p)) :
    Blank (self >>= fun p => if p.header.root = 0 then pure x else below p) x := by
  intro p d hp y
  rw [exec_bind, exec_self]
  dsimp only
  by_cases hroot : p.header.root = 0
  · rw [if_pos hroot, exec_pure]
    constructor
    · intro h
      exact ⟨hroot, (Except.ok.inj h).symm⟩
    · rintro ⟨-, rfl⟩
      rfl
  · rw [if_neg hroot]
    obtain ⟨e, he, -⟩ := hbelow p p d hp
    constructor
    · intro h
      rw [he] at h
      cases h
    · intro h
      exact absurd h.1 hroot

/-- What is found may be put in other words. -/
theorem Blank.map {a : Action Pager α} {x : α} (h : Blank a x) (f : α → β) :
    Blank (a >>= fun y => pure (f y)) (f x) := by
  intro p d hp y
  rw [exec_bind_pure_ok_iff]
  constructor
  · rintro ⟨z, hz, rfl⟩
    obtain ⟨hroot, rfl⟩ := (h p d hp z).1 hz
    exact ⟨hroot, rfl⟩
  · rintro ⟨hroot, rfl⟩
    exact ⟨x, (h p d hp x).2 ⟨hroot, rfl⟩, rfl⟩

section

variable [Codec]

theorem blank_fromRoot {search : Nat → PageId → Action Pager (Option Cell)}
    (hsearch : ∀ fuel id, Stops (search fuel id)) : Blank (fromRoot search) none :=
  blank_of_stops fun _ =>
    .after calm_depthLimit leaves_depthLimit fun fuel => Stops.bind (hsearch fuel _) _

theorem blank_get (key : Bytes) : Blank (get key) none :=
  (blank_fromRoot (stops_descent (fun _ => rfl) fun _ _ => rfl)).map _

theorem blank_first : Blank first none :=
  blank_fromRoot (stops_descent (fun _ => rfl) fun _ _ => rfl)

theorem blank_last : Blank last none :=
  blank_fromRoot (stops_descent (fun _ => rfl) fun _ _ => rfl)

theorem blank_ceil (bound : Bytes) (strict : Bool) :
    Blank (fromRoot (ceilAt bound strict)) none :=
  blank_fromRoot (stops_descent (fun _ => rfl) fun _ _ => rfl)

theorem blank_floor (bound : Bytes) (strict : Bool) :
    Blank (fromRoot (floorAt bound strict)) none :=
  blank_fromRoot (stops_descent (fun _ => rfl) fun _ _ => rfl)

theorem blank_seek (key : Bytes) (mode : SeekMode) : Blank (seek key mode) none := by
  cases mode with
  | exact => exact (blank_get key).map _
  | atMost => exact blank_floor key false
  | atLeast => exact blank_ceil key false

end

/-- Below a root no record is taken out. -/
theorem stops_removeBelow (key : Bytes) (p : Pager) {k : Option Removal → Action Pager Bool} :
    Stops (depthLimit >>= fun fuel => removeFrom key fuel p.header.root >>= k) := by
  refine .after calm_depthLimit leaves_depthLimit fun fuel => ?_
  have hdescent : Stops (removeFrom key fuel p.header.root) :=
    stops_descent (fun _ => rfl) (fun _ _ => rfl) fuel _
  exact hdescent.bind _

theorem blank_remove (key : Bytes) : Blank (remove key) false :=
  blank_of_stops fun p => stops_removeBelow key p

theorem calm_delete (key : Bytes) : Calm Poisoned (delete key) := by
  intro p d hp
  rw [delete, exec_atomically_eq]
  exact calm_of_stops (fun p => stops_removeBelow key p) p.begun d hp

theorem blank_delete (key : Bytes) : Blank (delete key) false := by
  intro p d hp found
  rw [delete, exec_atomically_eq]
  exact blank_remove key p.begun d hp found

end Tree

end

/-! ## Engines -/

namespace Engine

section

variable {α : Type} {p q r : Pager} {c : Compression} {d : Disk} {reason : String}

namespace Request

/-- A request that reads or changes records, or begins or ends a transaction with success. -/
def NeedsFile : Request → Prop
  | size | rollback | close | setCacheCapacity _ => False
  | _ => True

/-- What is answered about a tree without a root before any page is looked for. -/
def blank : Request → Option Reply
  | get _ => some (.value none)
  | seek .. | first | last | next _ | prev _ => some (.record none)
  | delete _ => some (.found false)
  | _ => none

variable {tree : Action Pager α} {a : Action Engine α}

/-- The answer of a program on the tree, put into the words of a reply. -/
theorem serves_blank {x : α} (h : Tree.Blank tree x)
    (ha : (a.exec (.tree p c) d).1 = (tree.exec p d).1) (hp : p.poisoned ≠ none) (f : α → Reply)
    (reply : Reply) :
    ((a >>= fun y => pure (f y)).exec (.tree p c) d).1 = .ok reply ↔
      p.header.root = 0 ∧ some (f x) = some reply := by
  rw [exec_bind_pure_ok_iff, ha, ← exec_bind_pure_ok_iff, h.map f p d hp, Option.some_inj,
    @eq_comm _ reply]

theorem serves_nothing (h : Stops tree) (ha : (a.exec (.tree p c) d).1 = (tree.exec p d).1)
    (hp : p.poisoned ≠ none) (f : α → Reply) (reply : Reply) :
    ((a >>= fun y => pure (f y)).exec (.tree p c) d).1 = .ok reply ↔
      p.header.root = 0 ∧ none = some reply := by
  obtain ⟨e, he, -⟩ := h p d hp
  rw [exec_bind_pure_ok_iff, ha, he]
  constructor
  · rintro ⟨x, hx, -⟩
    cases hx
  · rintro ⟨-, hreply⟩
    cases hreply

variable [Codec]

/-- **A poisoned engine answers what is answered about a tree without a root, and nothing else.** -/
theorem serve_ok_iff (hp : p.poisoned ≠ none) {request : Request} (hr : request.NeedsFile)
    (reply : Reply) :
    (request.serve.exec (.tree p c) d).1 = .ok reply ↔
      p.header.root = 0 ∧ request.blank = some reply := by
  cases request with
  | get key => exact serves_blank (Tree.blank_get key) rfl hp _ reply
  | seek key mode => exact serves_blank (Tree.blank_seek key mode) rfl hp _ reply
  | first => exact serves_blank Tree.blank_first rfl hp _ reply
  | last => exact serves_blank Tree.blank_last rfl hp _ reply
  | next key => exact serves_blank (Tree.blank_ceil key true) rfl hp _ reply
  | prev key => exact serves_blank (Tree.blank_floor key true) rfl hp _ reply
  | delete key => exact serves_blank (Tree.blank_delete key) rfl hp _ reply
  | put key value => exact serves_nothing (Tree.stops_put c key value) rfl hp _ reply
  | append key value => exact serves_nothing (Tree.stops_append c key value) rfl hp _ reply
  | begin => exact serves_nothing .ensureUsable rfl hp _ reply
  | commit => exact serves_nothing .commit rfl hp _ reply
  | size => exact hr.elim
  | rollback => exact hr.elim
  | close => exact hr.elim
  | setCacheCapacity pages => exact hr.elim

omit [Codec] in
/-- A question leaves the header as it is. -/
theorem asks_poisoned (h : Orderly Alike tree)
    (ha : a.exec (.tree p c) d =
      ((tree.exec p d).1, .tree (tree.exec p d).2.1 c, (tree.exec p d).2.2)) (f : α → Reply) :
    ∃ q, ((a >>= fun y => pure (f y)).exec (.tree p c) d).2 = (.tree q c, d) ∧ Same p q ∧
      (q.header = p.header ∨ q.header = p.committed) := by
  obtain ⟨halike, hd⟩ := h.leaves p d
  refine ⟨(tree.exec p d).2.1, ?_, halike.toSame, .inl halike.header⟩
  rw [exec_bind_pure ha, hd]

/-- A change fails or finds nothing to change, and leaves the header as it is. -/
theorem change_poisoned (hp : p.poisoned ≠ none) {request : Request} (hr : request.IsChange)
    (hneeds : request.NeedsFile) :
    ∃ q, (request.serve.exec (.tree p c) d).2 = (.tree q c, d) ∧ Same p q ∧
      q.header = p.header := by
  match hexec : request.serve.exec (.tree p c) d with
  | (.error e, e', d') =>
      have hreturns : e ≠ .panicked := by
        rintro rfl
        cases request with
        | put key value =>
            obtain ⟨q, htree, -⟩ := exec_tree_of_failed hexec
            exact (Tree.stops_put c key value).calm p d hp (congrArg Prod.fst htree)
        | append key value =>
            obtain ⟨q, htree, -⟩ := exec_tree_of_failed hexec
            exact (Tree.stops_append c key value).calm p d hp (congrArg Prod.fst htree)
        | delete key =>
            obtain ⟨q, htree, -⟩ := exec_tree_of_failed hexec
            exact Tree.calm_delete key p d hp (congrArg Prod.fst htree)
        | _ => exact hr.elim
      obtain ⟨q, rfl, hleft, rfl⟩ := unchanged_of_failed hr hreturns hexec
      exact ⟨q, rfl, hleft.toSame, hleft.header⟩
  | (.ok reply, e', d') =>
      have hok : (request.serve.exec (.tree p c) d).1 = .ok reply := by rw [hexec]
      obtain ⟨-, hblank⟩ := (serve_ok_iff hp hneeds reply).1 hok
      cases request with
      | delete key =>
          cases hblank
          obtain ⟨found, e₁, d₁, hdelete, hend⟩ := of_exec_bind_ok hexec
          cases hend
          obtain ⟨-, rfl⟩ := (leaves_delete key).of_exec hdelete
          cases unmoved_of_delete_false hdelete with
          | tree _ hleft => exact ⟨_, rfl, hleft.toSame, hleft.header⟩
      | put key value => cases hblank
      | append key value => cases hblank
      | _ => exact hr.elim

/-- **One request leaves a poisoned engine as it is**, but for a header that may be taken back to
that of the last commit. -/
theorem serve_poisoned (hp : p.poisoned ≠ none) (request : Request) :
    ∃ q, (request.serve.exec (.tree p c) d).2 = (.tree q c, d) ∧ Same p q ∧
      (q.header = p.header ∨ q.header = p.committed) := by
  have changes : request.IsChange → request.NeedsFile → ∃ q,
      (request.serve.exec (.tree p c) d).2 = (.tree q c, d) ∧ Same p q ∧
        (q.header = p.header ∨ q.header = p.committed) := by
    intro hr hneeds
    obtain ⟨q, hq, hsame, hheader⟩ := change_poisoned hp hr hneeds
    exact ⟨q, hq, hsame, .inl hheader⟩
  cases request with
  | get key => exact asks_poisoned (Tree.reading_get key).orderly rfl _
  | seek key mode => exact asks_poisoned (Tree.reading_seek key mode).orderly rfl _
  | first => exact asks_poisoned Tree.reading_first.orderly rfl _
  | last => exact asks_poisoned Tree.reading_last.orderly rfl _
  | next key => exact asks_poisoned (Tree.reading_next key).orderly rfl _
  | prev key => exact asks_poisoned (Tree.reading_prev key).orderly rfl _
  | put key value => exact changes trivial trivial
  | append key value => exact changes trivial trivial
  | delete key => exact changes trivial trivial
  | begin =>
      have hguard : Orderly Alike ensureUsable := ⟨leaves_ensureUsable, .ensureUsable⟩
      exact asks_poisoned hguard rfl _
  | size => exact ⟨p, rfl, .refl p, .inl rfl⟩
  | commit =>
      obtain ⟨reason, hreason⟩ := Option.ne_none_iff_exists'.1 hp
      obtain ⟨e, he⟩ := exec_commit_poisoned hreason d
      have hexec : Engine.commit.exec (.tree p c) d = (.error e, .tree p c, d) := exec_either he
      exact ⟨p, congrArg Prod.snd (exec_bind_error hexec), .refl p, .inl rfl⟩
  | rollback => exact ⟨p.rolledBack, rfl, ⟨rfl, rfl, rfl, rfl, rfl, rfl, rfl, rfl⟩, .inr rfl⟩
  | close =>
      obtain ⟨reason, hreason⟩ := Option.ne_none_iff_exists'.1 hp
      have hexec : Engine.close.exec (.tree p c) d = (.ok (), .tree p c, d) :=
        exec_query (exec_close_poisoned hreason d)
      exact ⟨p, congrArg Prod.snd (exec_bind_ok hexec), .refl p, .inl rfl⟩
  | setCacheCapacity pages =>
      exact ⟨_, rfl, ⟨rfl, rfl, rfl, rfl, rfl, rfl, rfl, rfl⟩, .inl rfl⟩

/-- A poisoned engine stays one, whatever it is asked for. -/
theorem serveAll_poisoned (hp : p.poisoned ≠ none) (requests : List Request) :
    ∃ q, (serveAll requests (.tree p c) d).2 = (.tree q c, d) ∧ Same p q ∧
      (q.header = p.header ∨ q.header = p.committed) := by
  induction requests generalizing p with
  | nil => exact ⟨p, rfl, .refl p, .inl rfl⟩
  | cons request requests ih =>
      obtain ⟨q, hq, hsame, hheader⟩ := serve_poisoned (c := c) (d := d) hp request
      obtain ⟨q', hq', hsame', hheader'⟩ := ih (p := q) (by rwa [hsame.poisoned])
      refine ⟨q', ?_, hsame.trans hsame', ?_⟩
      · have hexec : request.serve.exec (.tree p c) d = (_, .tree q c, d) := Prod.ext rfl hq
        rw [serveAll, hexec]
        exact hq'
      · rcases hheader' with h | h
        · rw [h]
          exact hheader
        · rw [h, hsame.committed]
          exact .inr rfl

end Request

/-! ## After a stopped commit -/

/-- **Once a commit was stopped an engine gives no answer but about a tree without a root.**
Whatever it has been asked for since, the file is not touched, and what needs the file fails unless
the header that is left, or that of the last commit after a rollback, names no root; then whatever
is looked for is said not to be there. -/
theorem poisoned_answers_only_blank [Codec] (hp : p.poisoned = some reason)
    (requests : List Request) {request : Request} (hr : request.NeedsFile) :
    ∃ q, (Request.serveAll requests (.tree p c) d).2 = (.tree q c, d) ∧
      q.poisoned = some reason ∧ (q.header = p.header ∨ q.header = p.committed) ∧
      ∀ reply, (request.serve.exec (.tree q c) d).1 = .ok reply ↔
        q.header.root = 0 ∧ request.blank = some reply := by
  have hpoisoned : p.poisoned ≠ none := by simp [hp]
  obtain ⟨q, hq, hsame, hheader⟩ := Request.serveAll_poisoned hpoisoned requests
  refine ⟨q, hq, hsame.poisoned.trans hp, hheader, fun reply => ?_⟩
  exact Request.serve_ok_iff (by rwa [hsame.poisoned]) hr reply

end

/-! ## A commit that is stopped on an empty file -/

/-- The engine on the empty file, with commits that are made to stop before the log is complete. -/
def stopping : Engine :=
  .tree (ofHeader "a" 0 (some 1) { pageSize := 512, crashPoint := some .beforeLogCommit }
    (Header.fresh 512)) .off

theorem reached_stopping : ∃ d, Reached stopping d := by
  let o : Options :=
    { pageSize := 512, crashPoint := some .beforeLogCommit, compression := .off }
  obtain ⟨d, hpager⟩ := closed_emptyFiles.exec_open_empty (o := o) rfl rfl rfl rfl
  have hopen : (Engine.open "a" o).exec () emptyFiles = (.ok stopping, (), d) := by
    rw [Engine.open, exec_bind_ok hpager]
    rfl
  exact ⟨d, .opened namesLive_emptyFiles namesApart_emptyFiles (by decide) hopen⟩

set_option maxRecDepth 4000 in
/-- The first record is put into a tree and its commit is stopped; the tree keeps its root. -/
theorem stopping_stopped [Codec] (d : Disk) :
    ∃ p d', Request.serveAll [.put [1] [2], .commit] stopping d =
        ([.ok .done, .error (.aborted "simulated crash at BeforeLogCommit")], .tree p .off, d') ∧
      p.poisoned = some "simulated crash at BeforeLogCommit" ∧ p.header.root = 1 ∧
      p.committed.root = 0 := by
  with_unfolding_all exact ⟨_, _, rfl, rfl, rfl, rfl⟩

/-- After the first commit was stopped and taken back there is no root, and still nothing can be
stored. -/
theorem poisoned_answers_only_blank_first_record :
    ∃ e d p d' q, Reached e d ∧ (Request.serveAll [.put [1] [2], .commit] e d).2 =
        (.tree p .off, d') ∧ p.poisoned = some "simulated crash at BeforeLogCommit" ∧
      (Request.serveAll [.rollback] (.tree p .off) d').2 = (.tree q .off, d') ∧
      (∀ reply, ((Request.put [1] [2]).serve.exec (.tree q .off) d').1 ≠ .ok reply) := by
  obtain ⟨d, hreached⟩ := reached_stopping
  obtain ⟨p, d', hstopped, hp, -⟩ := stopping_stopped d
  have hneeds : (Request.put [1] [2]).NeedsFile := trivial
  obtain ⟨q, hq, -, -, hanswers⟩ :=
    poisoned_answers_only_blank (c := .off) (d := d') hp [.rollback] hneeds
  refine ⟨stopping, d, p, d', q, hreached, congrArg Prod.snd hstopped, hp, hq, fun reply h => ?_⟩
  cases ((hanswers reply).1 h).2

set_option maxRecDepth 4000 in
/-- **A stopped engine can be asked for a record, and says that it is not there.** -/
theorem get_answers_after_stopped_commit :
    ∃ e d p d', Reached e d ∧ Request.serveAll [.put [1] [2], .commit, .rollback] e d =
        ([.ok .done, .error (.aborted "simulated crash at BeforeLogCommit"), .ok .done],
          .tree p .off, d') ∧
      p.poisoned = some "simulated crash at BeforeLogCommit" ∧
      ((Request.get [1]).serve.exec (.tree p .off) d').1 = .ok (.value none) := by
  obtain ⟨d, hreached⟩ := reached_stopping
  refine ⟨stopping, d, ?_⟩
  with_unfolding_all exact ⟨_, _, hreached, rfl, rfl, rfl⟩

end Engine

end PagedStore
