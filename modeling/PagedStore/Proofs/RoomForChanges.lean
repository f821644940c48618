import PagedStore.Proofs.DatabaseLife
import PagedStore.Proofs.FailedChanges
import PagedStore.Proofs.Placements
import PagedStore.Proofs.Sessions

/-!
# When a file is full

A change of a record fails for want of room exactly if there is not enough of it: if it takes more
pages than there are on the free list and than the file may still grow by. How many it takes is seen
from a file that may grow without limit. Pages that would come free in the course of the change,
with the value that is replaced, do not count; and to take a record out no page is needed at all.
-/

set_option autoImplicit false

namespace PagedStore

open PagedStore.Action

namespace Pager

/-! ## Changes of a file in use -/

section

open PagedStore.Tree

variable {path : String} {p : Pager} {d : Disk} {m old : Contents}

variable [Codec]

theorem Ready.tended (h : Ready p d) (hs : Stores (p.face d) m) : Tended [] p d := by
  obtain ⟨-, -, -, hroot, -, -⟩ := Header.check_eq_ok.1 (h.check_of_stores hs)
  obtain ⟨cells, nodes, chains, hk⟩ := hs
  obtain ⟨free, ha⟩ := hk.balanced
  exact ⟨h.toUsable, ⟨_, free, ha, by simp⟩, hroot⟩

theorem Serves.pays_place (h : Serves path p d m old) (c : Compression) (key value : Bytes) :
    Pays (place c key value) p.begun d :=
  (spends_place c key value).pays (h.ready.begun.tended h.current)

theorem Serves.pays_extend (h : Serves path p d m old) (c : Compression) (key value : Bytes) :
    Pays (extend c key value) p.begun d := by
  have hget : Does (p.face d) (get key) (fun _ => False) _ := does_get h.current key
  obtain ⟨r, q, hexec, ho, hr⟩ := hget p.begun d h.ready.begun rfl
  cases r with
  | error e => exact hr.elim
  | ok old =>
      obtain ⟨hface, -⟩ := hr
      refine .after_reading (reading_get key) hexec ?_
      exact (spends_place c key _).pays (ho.ready.tended (hface ▸ h.current))

end

/-! ## The length of the file -/

section

variable {limit : UInt32} {n : Nat} {p q : Pager} {d : Disk}

/-- A pager whose file may have so many pages, and has and had no more at the last commit, unless it
had as many as `n` before. -/
structure Capped (limit : UInt32) (n : Nat) (p : Pager) : Prop where
  maxPages : p.maxPages = limit
  current : p.header.pageCount.toNat ≤ max limit.toNat n
  committed : p.committed.pageCount.toNat ≤ max limit.toNat n

theorem Capped.of_same (h : p.Capped limit n) (hs : Same p q)
    (hcount : q.header.pageCount.toNat ≤ max limit.toNat n) : q.Capped limit n where
  maxPages := hs.maxPages.trans h.maxPages
  current := hcount
  committed := by
    rw [hs.committed]
    exact h.committed

/-- A pager is capped as long as it can be used. -/
def KeepsCap (limit : UInt32) (n : Nat) (p : Pager) (_ : Disk) : Prop :=
  p.poisoned = none → p.Capped limit n

theorem keepsCap_of_level {α : Type} {a : Action Pager α} (hsame : Leaves Same a)
    (hlevel : Leaves Level a) : Keeps (KeepsCap limit n) a := by
  intro p d h hu
  obtain ⟨hs, -⟩ := hsame p d
  obtain ⟨hl, -⟩ := hlevel p d
  have hp := h (hs.poisoned.symm.trans hu)
  exact hp.of_same hs ((congrArg UInt32.toNat hl).trans_le hp.current)

theorem keepsCap_of_reading {α : Type} {a : Action Pager α} (ha : Reading a) :
    Keeps (KeepsCap limit n) a :=
  keepsCap_of_level (ha.orderly.leaves.mono fun _ _ h => h.toSame) (Tree.level_of_reading ha)

theorem keepsCap_commit : Keeps (KeepsCap limit n) Pager.commit := by
  intro p d h
  have hout := commitOutcome p d
  generalize Pager.commit.exec p d = out at hout
  cases hout with
  | refused => exact h
  | unchanged => exact h
  | published =>
      intro hu
      have hp := h hu
      exact ⟨hp.maxPages, hp.current, hp.current⟩
  | stopped => nofun

theorem keepsCap_close : Keeps (KeepsCap limit n) Tree.close := by
  refine .self_bind fun p => ?_
  split
  · exact .pure _
  · exact keepsCap_commit

theorem keepsCap_rollback : Keeps (KeepsCap limit n) Pager.rollback :=
  .update fun _ _ h hu => ⟨(h hu).maxPages, (h hu).committed, (h hu).committed⟩

/-- What was just opened is as long as it was at the last commit. -/
theorem capped_of_open {path : String} {o : Options} {d d' : Disk} (hw : o.readOnly = false)
    (h : («open» path o).exec () d = (.ok p, (), d')) :
    p.Capped p.maxPages p.header.pageCount.toNat := by
  obtain ⟨file, d₁, -, hlocked⟩ := open_eq_ok h
  obtain ⟨-, -, log, -, hd, -, -, -, -, rfl⟩ := openLocked_eq_ok hw hlocked
  exact ⟨rfl, Nat.le_max_right _ _, Nat.le_max_right _ _⟩

end

end Pager

namespace Engine

open Pager

/-! ## Engines in use -/

/-- An engine that may change the file at `path`, with the engine as which that was opened. The file
may be given up at any moment and opened again, with any limit on its pages. -/
inductive InService [Codec] (path : String) : Engine → Engine → Disk → Prop where
  | opened {o : Options} {d d' : Disk} {e : Engine} (hnew : d.New path)
      (hvalid : o.validate = .ok ()) (hw : o.readOnly = false)
      (h : (Engine.«open» path o).exec () d = (.ok e, (), d')) : InService path e e d'
  | served {first e : Engine} {d : Disk} (h : InService path first e d) (r : Request) :
      InService path first (r.serve.exec e d).2.1 (r.serve.exec e d).2.2
  | reopened {first e f : Engine} {d d' : Disk} (h : InService path first e d) {o : Options}
      (hw : o.readOnly = false) (he : o.errorIfExists = false)
      (ho : (Engine.«open» path o).exec () (e.release d) = (.ok f, (), d')) :
      InService path f f d'

/-- The number of pages of the file. -/
def pageCount : Engine → Nat
  | .tree p _ => p.header.pageCount.toNat
  | .memory _ => 0

/-- An engine that serves records, or was stopped, and is capped as long as it can be used. -/
structure Sized [Codec] (path : String) (limit : UInt32) (n : Nat) (e : Engine) (d : Disk) :
    Prop where
  lasts : e.Lasts path d
  capped : ∀ p c, e = .tree p c → KeepsCap limit n p d

section

variable {path : String} {limit : UInt32} {n : Nat} {α : Type}
  {tree : Compression → Action Pager α} {memory : Memory → α × Memory}

variable [Codec]

theorem keeps_sized (hlasts : Keeps (Lasts path) (either tree memory))
    (hcap : ∀ c, Keeps (KeepsCap limit n) (tree c)) :
    Keeps (Sized path limit n) (either tree memory) := by
  intro e d h
  refine ⟨hlasts e d h.lasts, ?_⟩
  cases e with
  | tree p c =>
      rintro _ _ ⟨⟩
      exact hcap c p d (h.capped p c rfl)
  | memory m => rintro _ _ ⟨⟩

/-- A change that may take pages, of an engine that serves records. -/
theorem keeps_sized_of_pays (hlasts : Keeps (Lasts path) (either tree memory))
    (hsame : ∀ c, Leaves Same (tree c))
    (hcount : ∀ c {p d m old}, Serves path p d m old →
      ((tree c).exec p d).2.1.header.pageCount.toNat ≤
        max p.header.pageCount.toNat p.maxPages.toNat) :
    Keeps (Sized path limit n) (either tree memory) := by
  intro e d h
  refine ⟨hlasts e d h.lasts, ?_⟩
  obtain ⟨he, hcap⟩ := h
  cases he with
  | @serving p d m old c h =>
      rintro _ _ ⟨⟩ -
      obtain ⟨hs, -⟩ := hsame c p d
      have hp := hcap p c rfl h.ready.usable
      have hle := hcount c h
      rw [hp.maxPages] at hle
      exact hp.of_same hs (hle.trans (Nat.max_le.2 ⟨hp.current, Nat.le_max_left _ _⟩))
  | @stopped p q d m old point c h hch hc hs =>
      rintro _ _ ⟨⟩ hu
      obtain ⟨hs', -⟩ := hsame c q (Pager.commit.exec p d).2.2
      cases ((hs'.poisoned.symm.trans hu).symm.trans (poisoned_of_interrupted hs))

/-- **Every request keeps the file within its limit.** -/
theorem keeps_sized_serve [Codec.Lawful] (r : Request) : Keeps (Sized path limit n) r.serve := by
  have query : ∀ {α : Type} {tree : Action Pager α} {memory : Memory → α} {reply : α → Reply},
      Keeps (Lasts path) (Engine.query tree memory) → Reading tree →
        Keeps (Sized path limit n) (Engine.query tree memory >>= fun x => pure (reply x)) :=
    fun hlasts ha => .bind (keeps_sized hlasts fun _ => keepsCap_of_reading ha) fun _ => .pure _
  cases r with
  | get key => exact query (keeps_lasts_get key) (Tree.reading_get key)
  | size => exact fun _ _ h => h
  | seek key mode => exact query (keeps_lasts_seek key mode) (Tree.reading_seek key mode)
  | first => exact query keeps_lasts_first Tree.reading_first
  | last => exact query keeps_lasts_last Tree.reading_last
  | next key => exact query (keeps_lasts_next key) (Tree.reading_next key)
  | prev key => exact query (keeps_lasts_prev key) (Tree.reading_prev key)
  | put key value =>
      refine .bind (keeps_sized_of_pays (keeps_lasts_put key value)
        (fun c => Tree.leaves_put c key value) fun c p d m old h => ?_) fun _ => .pure _
      rw [Tree.put_eq]
      refine (h.pays_place c key value).pageCount_le ?_
      exact Tree.insert_eq c key value ▸ Tree.orderly_insert c key value
  | append key value =>
      refine .bind (keeps_sized_of_pays (keeps_lasts_append key value)
        (fun c => Tree.leaves_append c key value) fun c p d m old h => ?_) fun _ => .pure _
      rw [Tree.append_eq]
      refine (h.pays_extend c key value).pageCount_le ?_
      rw [Tree.extend, bind_assoc]
      simp only [← Tree.insert_eq]
      exact Tree.orderly_extend c key value
  | delete key =>
      refine .bind (keeps_sized (keeps_lasts_delete key) fun _ => ?_) fun _ => .pure _
      exact keepsCap_of_level (Tree.leaves_delete key) (Tree.level_delete key)
  | begin =>
      refine .bind (keeps_sized keeps_lasts_begin fun _ => ?_) fun _ => .pure _
      exact keepsCap_of_level leaves_ensureUsable leaves_ensureUsable
  | commit =>
      exact .bind (keeps_sized keeps_lasts_commit fun _ => keepsCap_commit) fun _ => .pure _
  | rollback =>
      exact .bind (keeps_sized keeps_lasts_rollback fun _ => keepsCap_rollback) fun _ => .pure _
  | close => exact .bind (keeps_sized keeps_lasts_close fun _ => keepsCap_close) fun _ => .pure _
  | setCacheCapacity pages =>
      refine .bind (keeps_sized (keeps_lasts_setCacheCapacity pages) fun _ => ?_) fun _ => .pure _
      exact .update fun p _ h hu => ⟨(h hu).maxPages, (h hu).current, (h hu).committed⟩

end

namespace InService

variable {path : String} {first e : Engine} {d : Disk}

/-- **An engine in use keeps within its limit**, or was longer already when it was opened. -/
theorem sized [Codec] [Codec.Lawful] (h : InService path first e d) :
    ∃ limit, Sized path limit first.pageCount e d := by
  have just_opened : ∀ {o : Options} {d d' : Disk} {f : Engine}, o.readOnly = false →
      (Engine.open path o).exec () d = (.ok f, (), d') → f.Lasts path d' →
        ∃ limit, Sized path limit f.pageCount f d' := by
    intro o d d' f hw hopen hlasts
    obtain ⟨p, ⟨⟩, d₁, hpager, hrest⟩ := of_exec_bind_ok hopen
    obtain ⟨rfl, -, rfl⟩ := exec_ok_inj hrest
    refine ⟨p.maxPages, hlasts, ?_⟩
    rintro _ _ ⟨⟩ -
    exact capped_of_open hw hpager
  induction h with
  | opened hnew hvalid hw hopen =>
      obtain ⟨p, c, rfl, -, hserves⟩ := Session.serves_of_open hnew hvalid hw hopen
      exact just_opened hw hopen (.serving c hserves)
  | served _ r ih =>
      obtain ⟨limit, hsized⟩ := ih
      exact ⟨limit, keeps_sized_serve r _ _ hsized⟩
  | reopened _ hw he hopen ih =>
      obtain ⟨limit, hsized⟩ := ih
      refine just_opened hw hopen ?_
      obtain ⟨q, d₁, m, hpager, hserves⟩ := hsized.lasts.reopen hw he
      rw [Engine.open, exec_bind_ok hpager] at hopen
      obtain ⟨rfl, -, rfl⟩ := exec_ok_inj hopen
      exact .serving _ hserves

/-- As long as it can be used it serves records. -/
theorem serves [Codec] [Codec.Lawful] {p : Pager} {c : Compression}
    (h : InService path first (.tree p c) d)
    (hu : p.poisoned = none) : ∃ m old, Serves path p d m old := by
  obtain ⟨limit, hsized⟩ := h.sized
  cases hsized.lasts with
  | serving c h => exact ⟨_, _, h⟩
  | stopped c h hch hc hs => cases hu.symm.trans (poisoned_of_interrupted hs)

end InService

/-! ## When a file is full -/

/-- **A change is refused for want of room exactly when room is missing.** Whatever has become of
the engine, while it can be used its file is no longer than its limit, or than it was when it was
opened. To delete a record never fails, and leaves the file as long as it is. To put or to append is
refused because the file is full exactly if the same call, on a file that may grow without limit,
would ask for more pages than are on the free list and may be added to the file. -/
theorem full_iff_room_is_missing [Codec] [Codec.Lawful] {path : String} {first : Engine}
    {p : Pager} {c : Compression}
    {d : Disk} (h : InService path first (.tree p c) d) (hu : p.poisoned = none) :
    p.header.pageCount.toNat ≤ max p.maxPages.toNat first.pageCount ∧
    (∀ key, ∃ found q, (Engine.delete key).exec (.tree p c) d = (.ok found, .tree q c, d) ∧
      q.header.pageCount = p.header.pageCount) ∧
    (∀ key value, (∃ text, ((Engine.put key value).exec (.tree p c) d).1 = .error (.full text)) ↔
      p.spare < demand p ((Tree.taking key (Tree.place c key value)).exec p.unlimited d)) ∧
    ∀ key value, (∃ text, ((Engine.append key value).exec (.tree p c) d).1 = .error (.full text)) ↔
      p.spare < demand p ((Tree.taking key (Tree.extend c key value)).exec p.unlimited d) := by
  obtain ⟨m, old, hserves⟩ := h.serves hu
  refine ⟨?_, fun key => ?_, fun key value => ?_, fun key value => ?_⟩
  · obtain ⟨limit, hsized⟩ := h.sized
    have hcapped := hsized.capped p c rfl hu
    rw [hcapped.maxPages]
    exact hcapped.current
  · obtain ⟨r, q, hexec, -, hr⟩ :=
      hserves.settles (E := fun _ => False) (Tree.settles_delete hserves.current key)
    cases r with
    | error e => exact hr.1.elim
    | ok found =>
        obtain ⟨hlevel, -⟩ := (Tree.level_delete key).of_exec hexec
        refine ⟨found, q, ?_, hlevel⟩
        rw [Engine.delete, exec_either_tree, hexec]
  · rw [Engine.put, exec_either_tree, Tree.put_eq]
    exact (hserves.pays_place c key value).full_iff
  · rw [Engine.append, exec_either_tree, Tree.append_eq]
    exact (hserves.pays_extend c key value).full_iff

set_option maxRecDepth 4000 in
theorem full_put_withOnePage [Codec] (d : Disk) :
    ((Engine.put [1] (List.replicate 124 0)).exec withOnePage d).1 =
      .error (.full "page limit of 2 reached") := by
  with_unfolding_all rfl

/-- On the empty file with room for one page, a value that takes a page of its own leaves none for
the node that is to hold the record: of that, the refusal is proof. -/
theorem full_iff_room_is_missing_one_page :
    ∃ p d, withOnePage = .tree p .off ∧ InService "a" withOnePage withOnePage d ∧ p.spare = 1 ∧
      1 < demand p ((Tree.taking [1] (Tree.place .off [1] (List.replicate 124 0))).exec
        p.unlimited d) := by
  obtain ⟨d, hopen⟩ := open_withOnePage
  have hservice : InService "a" withOnePage withOnePage d :=
    .opened new_emptyFiles (by decide) rfl hopen
  obtain ⟨-, -, hput, -⟩ := full_iff_room_is_missing hservice rfl
  exact ⟨_, d, rfl, hservice, rfl, (hput _ _).1 ⟨_, full_put_withOnePage d⟩⟩

end Engine

end PagedStore
