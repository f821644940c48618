import PagedStore.Engine
import PagedStore.Proofs.OrderlyTree

/-!
# Engines that differ in their caches

Two engines are akin when they are the same store in memory, or trees of the same file whose pagers
are twins. Every operation of an engine gives the same answer to both and leaves them akin: a cache
decides about nothing but how fast an answer is found.
-/

set_option autoImplicit false

namespace PagedStore.Engine

open PagedStore.Action Pager

/-- The same store in memory, or the same tree behind two caches. -/
inductive Akin (d : Disk) : Engine → Engine → Prop where
  | tree {p q : Pager} (c : Compression) (h : Twins d p q) : Akin d (.tree p c) (.tree q c)
  | memory (m : Memory) : Akin d (.memory m) (.memory m)

section

variable {α : Type} {d : Disk}

/-- An engine with a tree does what the tree does. -/
theorem exec_either_tree {tree : Compression → Action Pager α} {memory : Memory → α × Memory}
    (p : Pager) (c : Compression) (d : Disk) :
    (either tree memory).exec (.tree p c) d =
      (((tree c).exec p d).1, .tree ((tree c).exec p d).2.1 c, ((tree c).exec p d).2.2) := rfl

theorem exec_either {tree : Compression → Action Pager α} {memory : Memory → α × Memory}
    {p q : Pager} {c : Compression} {d' : Disk} {r : Except Error α}
    (h : (tree c).exec p d = (r, q, d')) :
    (either tree memory).exec (.tree p c) d = (r, .tree q c, d') := by
  rw [exec_either_tree, h]

theorem exec_query {tree : Action Pager α} {memory : Memory → α} {p q : Pager} {c : Compression}
    {d' : Disk} {r : Except Error α} (h : tree.exec p d = (r, q, d')) :
    (query tree memory).exec (.tree p c) d = (r, .tree q c, d') := exec_either h

/-- Only a tree can fail. -/
theorem of_exec_either_error {tree : Compression → Action Pager α}
    {memory : Memory → α × Memory} {e f : Engine} {d' : Disk} {error : Error}
    (h : (either tree memory).exec e d = (.error error, f, d')) :
    ∃ p c q, e = .tree p c ∧ f = .tree q c ∧ (tree c).exec p d = (.error error, q, d') := by
  cases e with
  | tree p c =>
      rw [exec_either_tree] at h
      match hexec : (tree c).exec p d with
      | (r, q, d₁) =>
          rw [hexec] at h
          cases h
          exact ⟨p, c, q, rfl, rfl, hexec⟩
  | memory m => cases h

theorem respects_either {tree : Compression → Action Pager α} {memory : Memory → α × Memory}
    (h : ∀ c, Blind (tree c)) : Respects Akin (either tree memory) := by
  intro d e f hef
  cases hef with
  | tree c ht =>
      obtain ⟨r, p', q', d', hp, hq, ht'⟩ := h c d _ _ ht
      refine ⟨r, .tree p' c, .tree q' c, d', ?_, ?_, .tree c ht'⟩
      · rw [exec_either_tree, hp]
      · rw [exec_either_tree, hq]
  | memory m => exact ⟨.ok (memory m).1, .memory (memory m).2, .memory (memory m).2, d, rfl, rfl,
      .memory _⟩

theorem respects_query {tree : Action Pager α} {memory : Memory → α} (h : Blind tree) :
    Respects Akin (query tree memory) := respects_either fun _ => h

/-! ## The operations -/

section

variable [Codec]

theorem respects_get (key : Bytes) : Respects Akin (Engine.get key) :=
  respects_query (Tree.reading_get key).orderly.blind

theorem respects_seek (key : Bytes) (mode : SeekMode) : Respects Akin (Engine.seek key mode) :=
  respects_query (Tree.reading_seek key mode).orderly.blind

theorem respects_first : Respects Akin Engine.first :=
  respects_query Tree.reading_first.orderly.blind

theorem respects_last : Respects Akin Engine.last := respects_query Tree.reading_last.orderly.blind

theorem respects_next (key : Bytes) : Respects Akin (Engine.next key) :=
  respects_query (Tree.reading_next key).orderly.blind

theorem respects_prev (key : Bytes) : Respects Akin (Engine.prev key) :=
  respects_query (Tree.reading_prev key).orderly.blind

theorem respects_put (key value : Bytes) : Respects Akin (Engine.put key value) :=
  respects_either fun c => Tree.blind_put c key value

theorem respects_append (key value : Bytes) : Respects Akin (Engine.append key value) :=
  respects_either fun c => Tree.blind_append c key value

end

theorem respects_delete (key : Bytes) : Respects Akin (Engine.delete key) :=
  respects_either fun _ => Tree.blind_delete key

theorem respects_begin : Respects Akin Engine.begin := respects_either fun _ => .ensureUsable

theorem respects_commit : Respects Akin Engine.commit := respects_either fun _ => .commit

theorem respects_rollback : Respects Akin Engine.rollback := respects_either fun _ => .rollback

theorem respects_close : Respects Akin Engine.close := respects_query .close

theorem respects_setCacheCapacity (pages : Nat) : Respects Akin (Engine.setCacheCapacity pages) :=
  respects_query (.setCacheCapacity pages)

/-- Akin engines count the same records. -/
theorem Akin.size {e f : Engine} (h : Akin d e f) : f.size = e.size := by
  cases h with
  | tree c ht => rw [Engine.size, Engine.size, Tree.size, Tree.size, ht.header]
  | memory m => rfl

theorem respects_size_bind {k : Nat → Action Engine α} (hk : ∀ n, Respects Akin (k n)) :
    Respects Akin (self >>= fun e => k e.size) := by
  intro d e f h
  have hboth : Together Akin d e f (k e.size) (k f.size) := by
    rw [h.size]
    exact hk _ d e f h
  exact hboth

theorem Akin.trans {e f g : Engine} (h : Akin d e f) (h' : Akin d f g) : Akin d e g := by
  cases h with
  | tree c ht =>
      cases h' with
      | tree _ ht' => exact .tree c ⟨ht.toAlike.trans ht'.toAlike, ht.left, ht'.right⟩
  | memory m => exact h'

theorem Akin.right {e f : Engine} (h : Akin d e f) : Akin d f f := by
  cases h with
  | tree c ht => exact .tree c ht.right.twins
  | memory m => exact .memory m

/-! ## Between two operations -/

/-- No operation on the tree is under way. -/
def Idle : Engine → Prop
  | .tree p _ => p.Idle
  | .memory _ => True

theorem keeps_either {tree : Compression → Action Pager α} {memory : Memory → α × Memory}
    (h : ∀ c, Keeps (fun p _ => p.Idle) (tree c)) :
    Keeps (fun e _ => Idle e) (either tree memory) := by
  intro e d he
  cases e with
  | tree p c => exact h c p d he
  | memory m => trivial

/-! ## Changes that are not committed yet -/

/-- There is nothing that a rollback would take back. -/
def Clean : Engine → Prop
  | .tree p _ => p.header = p.committed ∧ p.dirty = ∅ ∧ p.Idle
  | .memory m => m.snapshot = none

/-- The second engine has come from the first one, which was clean, by changes of records within a
transaction. -/
inductive Within : Engine → Engine → Prop where
  | tree {p q : Pager} (c : Compression) (clean : Clean (.tree p c)) (same : Same p q) :
      Within (.tree p c) (.tree q c)
  | memory {m n : Memory} (clean : m.snapshot = none) (kept : n.snapshot = some m.contents) :
      Within (.memory m) (.memory n)

/-- Two states of an engine that differ in records at most. -/
inductive Reworked : Engine → Engine → Prop where
  | tree {p q : Pager} (c : Compression) (same : Same p q) : Reworked (.tree p c) (.tree q c)
  | memory {m n : Memory} (kept : n.snapshot = m.snapshot) : Reworked (.memory m) (.memory n)

theorem Reworked.refl (e : Engine) : Reworked e e := by
  cases e with
  | tree p c => exact .tree c (.refl p)
  | memory m => exact .memory rfl

theorem Reworked.trans {e f g : Engine} (h : Reworked e f) (h' : Reworked f g) : Reworked e g := by
  cases h with
  | tree c same =>
      cases h' with
      | tree _ same' => exact .tree c (same.trans same')
  | memory kept =>
      cases h' with
      | memory kept' => exact .memory (kept'.trans kept)

instance : IsPreorder Engine Reworked where
  refl := .refl
  trans _ _ _ := .trans

theorem Within.reworked {e f g : Engine} (h : Within e f) (hr : Reworked f g) : Within e g := by
  cases h with
  | tree c clean same =>
      cases hr with
      | tree _ same' => exact .tree c clean (same.trans same')
  | memory clean kept =>
      cases hr with
      | memory kept' => exact .memory clean (kept'.trans kept)

theorem leaves_either {tree : Compression → Action Pager α} {memory : Memory → α × Memory}
    (ht : ∀ c, Leaves Same (tree c)) (hm : ∀ m, (memory m).2.snapshot = m.snapshot) :
    Leaves Reworked (either tree memory) := by
  intro e d
  cases e with
  | tree p c => exact ⟨.tree c (ht c p d).1, (ht c p d).2⟩
  | memory m => exact ⟨.memory (hm m), rfl⟩

/-- Asking changes nothing that can be seen. -/
inductive Unmoved : Engine → Engine → Prop where
  | tree {p q : Pager} (c : Compression) (unchanged : Unchanged p q) :
      Unmoved (.tree p c) (.tree q c)
  | memory (m : Memory) : Unmoved (.memory m) (.memory m)

theorem Unmoved.trans {e f g : Engine} (h : Unmoved e f) (h' : Unmoved f g) : Unmoved e g := by
  cases h with
  | tree c hu =>
      cases h' with
      | tree _ hu' => exact .tree c (hu.trans hu')
  | memory m => exact h'

theorem Unmoved.clean {e f : Engine} (h : Unmoved e f) (hc : Clean e) : Clean f := by
  cases h with
  | tree c hu =>
      obtain ⟨hheader, hdirty, hidle⟩ := hc
      have ha := hu.alike hidle
      refine ⟨?_, ha.dirty.trans hdirty, ha.savepoint.trans hidle⟩
      rw [ha.header, ha.committed, hheader]
  | memory m => exact hc

theorem Unmoved.reworked {e f : Engine} (h : Unmoved e f) : Reworked e f := by
  cases h with
  | tree c hu => exact .tree c hu.toSame
  | memory m => exact .memory rfl

theorem unmoved_of_error {tree : Compression → Action Pager α} {memory : Memory → α × Memory}
    (ht : ∀ {c p q d'} {error : Error}, error ≠ .panicked →
      (tree c).exec p d = (.error error, q, d') → Unchanged p q ∧ d' = d)
    {e f : Engine} {d' : Disk} {error : Error} (herror : error ≠ .panicked)
    (h : (either tree memory).exec e d = (.error error, f, d')) : Unmoved e f ∧ d' = d := by
  obtain ⟨p, c, q, rfl, rfl, hexec⟩ := of_exec_either_error h
  obtain ⟨hu, hd⟩ := ht herror hexec
  exact ⟨.tree c hu, hd⟩

theorem leaves_put [Codec] (key value : Bytes) : Leaves Reworked (Engine.put key value) :=
  leaves_either (fun c => Tree.leaves_put c key value) fun _ => rfl

theorem leaves_append [Codec] (key value : Bytes) : Leaves Reworked (Engine.append key value) :=
  leaves_either (fun c => Tree.leaves_append c key value) fun _ => rfl

theorem leaves_delete (key : Bytes) : Leaves Reworked (Engine.delete key) :=
  leaves_either (fun _ => Tree.leaves_delete key) fun _ => rfl

theorem Unmoved.idle {e f : Engine} (h : Unmoved e f) (he : Idle e) : Idle f := by
  cases h with
  | tree c hu => exact (hu.alike he).savepoint.trans he
  | memory m => trivial

theorem Clean.idle {e : Engine} (h : Clean e) : Idle e := by
  cases e with
  | tree p c => exact h.2.2
  | memory m => trivial

/-! ## Questions and changes -/

/-- A program that asks for records. -/
structure Question (a : Action Engine α) : Prop where
  respects : Respects Akin a
  leaves : Leaves Unmoved a

/-- A program that changes records, or fails and changes none. -/
structure Change (a : Action Engine α) : Prop where
  respects : Respects Akin a
  leaves : Leaves Reworked a
  keeps_idle : Keeps (fun e _ => Idle e) a
  failed : ∀ {e f : Engine} {d d' : Disk} {error : Error}, error ≠ .panicked →
    a.exec e d = (.error error, f, d') → Unmoved e f

theorem question_query {tree : Action Pager α} {memory : Memory → α} (h : Reading tree) :
    Question (query tree memory) where
  respects := respects_query h.orderly.blind
  leaves := by
    intro e d
    cases e with
    | tree p c =>
        obtain ⟨ha, hd⟩ := h.orderly.leaves p d
        exact ⟨.tree c ha.unchanged, hd⟩
    | memory m => exact ⟨.memory m, rfl⟩

section

variable [Codec]

theorem question_get (key : Bytes) : Question (Engine.get key) :=
  question_query (Tree.reading_get key)

theorem question_seek (key : Bytes) (mode : SeekMode) : Question (Engine.seek key mode) :=
  question_query (Tree.reading_seek key mode)

theorem question_first : Question Engine.first := question_query Tree.reading_first

theorem question_last : Question Engine.last := question_query Tree.reading_last

theorem question_next (key : Bytes) : Question (Engine.next key) :=
  question_query (Tree.reading_next key)

theorem question_prev (key : Bytes) : Question (Engine.prev key) :=
  question_query (Tree.reading_prev key)

theorem change_put (key value : Bytes) : Change (Engine.put key value) where
  respects := respects_put key value
  leaves := leaves_put key value
  keeps_idle := keeps_either fun c => Tree.keeps_idle_put c key value
  failed herror h := (unmoved_of_error Tree.unchanged_of_put herror h).1

theorem change_append (key value : Bytes) : Change (Engine.append key value) where
  respects := respects_append key value
  leaves := leaves_append key value
  keeps_idle := keeps_either fun c => Tree.keeps_idle_append c key value
  failed herror h := (unmoved_of_error Tree.unchanged_of_append herror h).1

end

/-- A record that was not there is not missed. -/
theorem unmoved_of_delete_false {key : Bytes} {e f : Engine} {d' : Disk}
    (h : (Engine.delete key).exec e d = (.ok false, f, d')) : Unmoved e f := by
  cases e with
  | tree p c =>
      rw [Engine.delete, exec_either_tree] at h
      match hexec : (Tree.delete key).exec p d with
      | (r, q, d₁) =>
          rw [hexec] at h
          cases h
          exact .tree c (Tree.unchanged_of_delete_false hexec).1
  | memory m =>
      have hexec : (Engine.delete key).exec (.memory m) d =
          (.ok (m.erase key).1, .memory (m.erase key).2, d) := rfl
      rw [hexec, Memory.erase, Memory.Contents.erase] at h
      cases hfound : m.contents.index[key]? with
      | none =>
          rw [hfound] at h
          cases h
          exact .memory m
      | some serial =>
          rw [hfound] at h
          cases h

/-- Taking away a record that may be missed. -/
theorem change_delete (key : Bytes) (missing : Error) :
    Change (do if !(← Engine.delete key) then throw missing) where
  respects := by
    refine .bind (respects_delete key) fun found => ?_
    cases found with
    | false => exact .throw missing
    | true => exact .pure _
  leaves := by
    refine .bind (leaves_delete key) fun found => ?_
    cases found with
    | false => exact .ofResult (.error missing)
    | true => exact .ofResult (.ok ())
  keeps_idle := by
    refine .bind (keeps_either fun _ => Tree.keeps_idle_delete key) fun found => ?_
    cases found with
    | false => exact .ofResult (.error missing)
    | true => exact .pure _
  failed := by
    intro e f d d' error herror h
    rw [exec_bind] at h
    match hexec : (Engine.delete key).exec e d with
    | (.error error', g, d₁) =>
        rw [hexec] at h
        cases h
        exact (unmoved_of_error Tree.unchanged_of_delete herror hexec).1
    | (.ok found, g, d₁) =>
        rw [hexec] at h
        cases found with
        | true => cases h
        | false =>
            cases h
            exact unmoved_of_delete_false hexec

/-! ## Commits and rollbacks -/

/-- An engine without its changes since the last commit. -/
def rolledBack : Engine → Engine
  | .tree p c => .tree p.rolledBack c
  | .memory m => .memory m.rollback

theorem exec_rollback (e : Engine) (d : Disk) :
    Engine.rollback.exec e d = (.ok (), e.rolledBack, d) := by
  cases e <;> rfl

/-- To prepare for a transaction changes no record, and nothing at all when it fails. -/
theorem of_exec_begin {e f : Engine} {d' : Disk} {r : Except Error Unit}
    (h : Engine.begin.exec e d = (r, f, d')) :
    d' = d ∧ (Clean e → r = .ok () → Within e f) ∧ (r ≠ .ok () → f = e) ∧ (Idle e → Idle f) := by
  cases e with
  | tree p c =>
      rw [Engine.begin, exec_either_tree] at h
      match hexec : ensureUsable.exec p d with
      | (r', q, d₁) =>
          obtain ⟨hsame, rfl⟩ := (leaves_ensureUsable (R := Eq)).of_exec hexec
          subst hsame
          rw [hexec] at h
          cases h
          exact ⟨rfl, fun hclean _ => .tree c hclean (.refl p), fun _ => rfl, id⟩
  | memory m =>
      cases h
      exact ⟨rfl, fun hclean _ => .memory hclean rfl, fun hr => absurd rfl hr, id⟩

/-- **A rollback returns to the beginning of the transaction.** -/
theorem Within.rolledBack {e f : Engine} (h : Within e f) (he : Akin d e e) (hf : Akin d f f) :
    Akin d e f.rolledBack ∧ Clean f.rolledBack := by
  cases h with
  | tree c clean same =>
      obtain ⟨hheader, hdirty, hidle⟩ := clean
      cases he with
      | tree _ hp =>
          cases hf with
          | tree _ hq =>
              refine ⟨.tree c ⟨⟨?_, ?_, ?_, ?_⟩, hp.left, hq.left.rolledBack⟩, rfl, rfl, rfl⟩
              · exact same.trans ⟨rfl, rfl, rfl, rfl, rfl, rfl, rfl, rfl⟩
              · exact same.committed.trans hheader.symm
              · exact hdirty.symm
              · exact hidle.symm
  | @memory m n clean kept =>
      have hback : n.rollback = m := by
        rw [Memory.rollback, kept]
        cases m
        cases clean
        rfl
      rw [Engine.rolledBack, hback]
      exact ⟨.memory m, clean⟩

/-- After a commit there is nothing to take back, if need be after a rollback. -/
theorem clean_of_commit {e f : Engine} {d' : Disk} {r : Except Error Unit} (he : Idle e)
    (h : Engine.commit.exec e d = (r, f, d')) : (r = .ok () → Clean f) ∧ Clean f.rolledBack := by
  cases e with
  | tree p c =>
      rw [Engine.commit, exec_either_tree] at h
      have hout := commitOutcome p d
      generalize Pager.commit.exec p d = out at hout h
      cases h
      refine ⟨fun hok => ?_, rfl, rfl, rfl⟩
      cases hout with
      | refused => cases hok
      | unchanged hch =>
          rw [hasChanges, Bool.or_eq_false_iff, Bool.not_eq_false', bne_eq_false_iff_eq] at hch
          exact ⟨hch.2, Std.ExtTreeMap.isEmpty_iff.1 hch.1, he⟩
      | published => exact ⟨rfl, rfl, rfl⟩
      | stopped => cases hok
  | memory m =>
      cases h
      exact ⟨fun _ => rfl, rfl⟩

end

end PagedStore.Engine
