import PagedStore.Proofs.DatabaseLife
import PagedStore.Proofs.PoisonedEngines

/-!
# What an engine holds

Seen by those who ask for records, an engine on a file holds a map (`Engine.Holds`): because its
pager shows a file that stores the map, be it to read or to write, or because its commit was
stopped before there was a tree, so that it is taken for an empty one. In every other state after
such a commit it gives no answer at all (`Engine.Mute`). Every engine that lasts is in one of these
states, and questions leave it there.
-/

set_option autoImplicit false

namespace PagedStore

open PagedStore.Action Pager

namespace Engine

/-- Questions are answered as by a map. -/
inductive Holds [Codec] : Engine → Disk → Contents → Prop where
  /-- Of the pager the same can be seen as of a writer on a file that stores the map. -/
  | shown {p q : Pager} {d d' : Disk} {m : Contents} (c : Compression) (hq : Ready q d')
      (hm : Tree.Stores (q.face d') m) (hp : Displays (q.face d') p d) : Holds (.tree p c) d m
  /-- The pager is poisoned, and the tree has no root. -/
  | blank {p : Pager} {d : Disk} (c : Compression) (hp : p.poisoned ≠ none)
      (hroot : p.header.root = 0) : Holds (.tree p c) d ∅

/-- The pager is poisoned, and the tree has a root. -/
inductive Mute : Engine → Prop where
  | tree {p : Pager} (c : Compression) (hp : p.poisoned ≠ none) (hroot : p.header.root ≠ 0) :
      Mute (.tree p c)

section

variable {path : String} {p : Pager} {c : Compression} {e e' : Engine} {d d' : Disk}
  {m old : Contents} {key : Bytes}

theorem holds_of_serves [Codec] (h : Serves path p d m old) (c : Compression) :
    Holds (.tree p c) d m :=
  .shown c h.ready h.current h.ready.displays

/-- **An engine that lasts holds a map** or gives no answers. -/
theorem Lasts.holds_or_mute [Codec] (h : e.Lasts path d) : (∃ m, Holds e d m) ∨ Mute e := by
  cases h with
  | serving c h => exact .inl ⟨_, holds_of_serves h c⟩
  | @stopped p q d m old point c h hch hc hs =>
      have hp : q.poisoned ≠ none :=
        (poisoned_of_interrupted hs).trans_ne (Option.some_ne_none _)
      by_cases hroot : q.header.root = 0
      · exact .inl ⟨∅, .blank c hp hroot⟩
      · exact .inr (.tree c hp hroot)

/-! ## Questions -/

section

variable {α : Type} {tree : Action Pager α} {memory : Memory → α} {x : α}
  {Q : Contents → α → Prop}

/-- **A question is answered by the map**, and the map stays. -/
theorem Holds.asks [Codec] (h : Holds e d m) (hreading : Reading tree) (hblank : Tree.Blank tree x)
    (hempty : Q ∅ x)
    (hdoes : ∀ {f m}, Tree.Stores f m → Does f tree (fun _ => False) fun y g => g = f ∧ Q m y) :
    ∃ y e', (query tree memory).exec e d = (.ok y, e', d) ∧ Q m y ∧ Holds e' d m := by
  cases h with
  | shown c hq hm hp =>
      obtain ⟨y, p', hexec, hy, -, hp'⟩ := hreading.exec_of_does hq (hdoes hm) hp
      exact ⟨y, .tree p' c, exec_query hexec, hy, .shown c hq hm hp'⟩
  | @blank p d c hp hroot =>
      obtain ⟨hleft, hd⟩ := hreading.orderly.leaves p d
      have hanswer : (tree.exec p d).1 = .ok x := (hblank p d hp x).2 ⟨hroot, rfl⟩
      refine ⟨x, _, exec_query (Prod.ext hanswer (Prod.ext rfl hd)), hempty, .blank c ?_ ?_⟩
      · rw [hleft.poisoned]
        exact hp
      · rw [hleft.header, hroot]

theorem Mute.asks (h : Mute e) (hreading : Reading tree) (hblank : Tree.Blank tree x) (d : Disk) :
    ∃ error e', (query tree memory).exec e d = (.error error, e', d) ∧ Mute e' := by
  cases h with
  | @tree p c hp hroot =>
      obtain ⟨hleft, hd⟩ := hreading.orderly.leaves p d
      obtain ⟨error, herror⟩ : ∃ error, (tree.exec p d).1 = .error error := by
        cases hanswer : (tree.exec p d).1 with
        | error error => exact ⟨error, rfl⟩
        | ok y => exact absurd ((hblank p d hp y).1 hanswer).1 hroot
      refine ⟨error, _, exec_query (Prod.ext herror (Prod.ext rfl hd)), .tree c ?_ ?_⟩
      · rw [hleft.poisoned]
        exact hp
      · rw [hleft.header]
        exact hroot

end

theorem not_mem_empty {k v : Bytes} : (∅ : Contents)[k]? ≠ some v := by simp

variable [Codec]

theorem Holds.get (h : Holds e d m) (key : Bytes) :
    ∃ e', (Engine.get key).exec e d = (.ok m[key]?, e', d) ∧ Holds e' d m := by
  obtain ⟨_, e', hexec, rfl, he'⟩ := h.asks (Q := fun m y => y = m[key]?) (Tree.reading_get key)
    (Tree.blank_get key) (by simp) fun h => Tree.does_get h key
  exact ⟨e', hexec, he'⟩

theorem Holds.first (h : Holds e d m) :
    ∃ r e', Engine.first.exec e d = (.ok r, e', d) ∧ m.IsLeast (fun _ => True) r ∧ Holds e' d m :=
  h.asks Tree.reading_first Tree.blank_first (fun _ _ hk => absurd hk not_mem_empty)
    Tree.does_first

theorem Holds.last (h : Holds e d m) :
    ∃ r e', Engine.last.exec e d = (.ok r, e', d) ∧ m.IsGreatest (fun _ => True) r ∧
      Holds e' d m :=
  h.asks Tree.reading_last Tree.blank_last (fun _ _ hk => absurd hk not_mem_empty) Tree.does_last

theorem Holds.next (h : Holds e d m) (key : Bytes) :
    ∃ r e', (Engine.next key).exec e d = (.ok r, e', d) ∧ m.IsLeast (KeyLt key) r ∧
      Holds e' d m :=
  h.asks (Tree.reading_next key) (Tree.blank_ceil key true)
    (fun _ _ hk => absurd hk not_mem_empty) fun h => Tree.does_next h key

theorem Holds.prev (h : Holds e d m) (key : Bytes) :
    ∃ r e', (Engine.prev key).exec e d = (.ok r, e', d) ∧ m.IsGreatest (fun k => KeyLt k key) r ∧
      Holds e' d m :=
  h.asks (Tree.reading_prev key) (Tree.blank_floor key true)
    (fun _ _ hk => absurd hk not_mem_empty) fun h => Tree.does_prev h key

theorem Mute.get (h : Mute e) (d : Disk) (key : Bytes) :
    ∃ error e', (Engine.get key).exec e d = (.error error, e', d) ∧ Mute e' :=
  h.asks (Tree.reading_get key) (Tree.blank_get key) d

theorem Mute.first (h : Mute e) (d : Disk) :
    ∃ error e', Engine.first.exec e d = (.error error, e', d) ∧ Mute e' :=
  h.asks Tree.reading_first Tree.blank_first d

theorem Mute.last (h : Mute e) (d : Disk) :
    ∃ error e', Engine.last.exec e d = (.error error, e', d) ∧ Mute e' :=
  h.asks Tree.reading_last Tree.blank_last d

theorem Mute.next (h : Mute e) (d : Disk) (key : Bytes) :
    ∃ error e', (Engine.next key).exec e d = (.error error, e', d) ∧ Mute e' :=
  h.asks (Tree.reading_next key) (Tree.blank_ceil key true) d

theorem Mute.prev (h : Mute e) (d : Disk) (key : Bytes) :
    ∃ error e', (Engine.prev key).exec e d = (.error error, e', d) ∧ Mute e' :=
  h.asks (Tree.reading_prev key) (Tree.blank_floor key true) d

/-- An engine holds one map only. -/
theorem Holds.unique {m' : Contents} (h : Holds e d m) (h' : Holds e d m') : m = m' := by
  refine Std.ExtTreeMap.ext_getElem? fun key => ?_
  obtain ⟨_, hexec, -⟩ := h.get key
  obtain ⟨_, hexec', -⟩ := h'.get key
  rw [hexec] at hexec'
  exact (exec_ok_inj hexec').1

/-- An engine that holds a map is not mute. -/
theorem Holds.not_mute (h : Holds e d m) : ¬ Mute e := by
  intro hmute
  obtain ⟨_, hexec, -⟩ := h.get []
  obtain ⟨_, _, hexec', -⟩ := hmute.get d []
  rw [hexec] at hexec'
  cases hexec'

/-! ## Changes -/

theorem Lasts.exec_delete (h : e.Lasts path d) (hm : Holds e d m) (key : Bytes) :
    ∃ e', (Engine.delete key).exec e d = (.ok (m.contains key), e', d) ∧
      Holds e' d (m.erase key) := by
  cases h with
  | @serving p d m' old c h =>
      obtain rfl := hm.unique (holds_of_serves h c)
      obtain ⟨r, q, hexec, -, hr⟩ := h.settles (E := fun _ => False)
        (Tree.settles_delete h.current key)
      cases r with
      | error error => exact hr.1.elim
      | ok found =>
          obtain ⟨rfl, hq⟩ := hr
          exact ⟨_, exec_either hexec, holds_of_serves hq c⟩
  | @stopped p q d m' old point c h hch hc hs =>
      have hp : q.poisoned ≠ none :=
        (poisoned_of_interrupted hs).trans_ne (Option.some_ne_none _)
      by_cases hroot : q.header.root = 0
      · obtain rfl := hm.unique (.blank c hp hroot)
        have hempty : (∅ : Contents).contains key = false ∧ (∅ : Contents).erase key = ∅ :=
          ⟨by simp, Std.ExtTreeMap.ext_getElem? fun k => by simp⟩
        have hanswer := (Tree.blank_delete key q (Pager.commit.exec p d).2.2 hp false).2
          ⟨hroot, rfl⟩
        have hexec : (Tree.delete key).exec q (Pager.commit.exec p d).2.2 = (.ok false, _, _) :=
          Prod.ext hanswer rfl
        obtain ⟨hleft, hd⟩ := Tree.unchanged_of_delete_false hexec
        rw [hempty.1, hempty.2]
        refine ⟨_, exec_either (Prod.ext hanswer (Prod.ext rfl hd)), .blank c ?_ ?_⟩
        · rw [hleft.poisoned]
          exact hp
        · rw [hleft.header, hroot]
      · exact absurd (.tree c hp hroot) hm.not_mute

/-- **What is taken away is taken out of the map.** -/
theorem Lasts.delete (h : e.Lasts path d) (hm : Holds e d m) (key : Bytes) :
    ∃ e', (Engine.delete key).exec e d = (.ok (m.contains key), e', d) ∧
      Holds e' d (m.erase key) ∧ e'.Lasts path d := by
  obtain ⟨e', hexec, he'⟩ := h.exec_delete hm key
  have hkept := keeps_lasts_delete key e d h
  rw [hexec] at hkept
  exact ⟨e', hexec, he', hkept⟩

/-- A commit that succeeds leaves the map as it is. -/
theorem Lasts.holds_commit (h : e.Lasts path d) (hm : Holds e d m)
    (hexec : Engine.commit.exec e d = (.ok (), e', d')) : Holds e' d' m := by
  cases h with
  | @serving p d m' old c h =>
      obtain rfl := hm.unique (holds_of_serves h c)
      by_cases hc : p.hasChanges = false ∨ p.crashPoint = none
      · obtain ⟨q, d₁, hcommit, -, -, hq⟩ := h.commit hc
        rw [Engine.commit, exec_either hcommit] at hexec
        cases hexec
        exact holds_of_serves hq c
      · -- It would have been made to stop.
        rw [not_or, Bool.not_eq_false] at hc
        obtain ⟨point, hpoint⟩ := Option.ne_none_iff_exists'.1 hc.2
        obtain ⟨log, -, -, -, hcommit⟩ := exec_commit h.ready
        rw [if_pos hc.1, hpoint] at hcommit
        rw [Engine.commit, exec_either hcommit] at hexec
        cases hexec
  | @stopped p q d m' old point c h hch hc hs =>
      obtain ⟨error, herror⟩ :=
        exec_commit_poisoned (poisoned_of_interrupted hs) (Pager.commit.exec p d).2.2
      rw [Engine.commit, exec_either herror] at hexec
      cases hexec

end

end Engine

namespace Database

open Engine

section

variable {path : String} {db db' : Database} {d d' : Disk} {α : Type}

/-- What is looked for is found in the map. -/
theorem exec_find_of_holds [Codec] {m : Contents} (h : db.engine.Holds d m) (key : Bytes) :
    ∃ e, (find key).exec db d = (.ok m[key]?, { db with engine := e }, d) ∧ e.Holds d m := by
  obtain ⟨e, hexec, he⟩ := h.get key
  exact ⟨e, by rw [find, exec_onEngine, hexec], he⟩

theorem exec_find_of_mute [Codec] (h : db.engine.Mute) (d : Disk) (key : Bytes) :
    ∃ error e, (find key).exec db d = (.error error, { db with engine := e }, d) ∧ e.Mute := by
  obtain ⟨error, e, hexec, he⟩ := h.get d key
  exact ⟨error, e, by rw [find, exec_onEngine, hexec], he⟩

/-- To settle with success is to commit with success. -/
theorem of_exec_settle_ok (h : settle.exec db d = (.ok (), db', d')) :
    ∃ e, Engine.commit.exec db.engine d = (.ok (), e, d') ∧ db' = { db with engine := e } := by
  match hcommit : Engine.commit.exec db.engine d with
  | (.ok (), e, d₁) =>
      rw [exec_settle_ok hcommit] at h
      cases h
      exact ⟨e, rfl, rfl⟩
  | (.error error, e, d₁) =>
      rw [exec_settle_error hcommit] at h
      cases h

/-- A change that succeeds is the last thing that was done, or was settled with success. -/
theorem of_exec_mutate_ok {a : Action Engine α} {x : α} (hro : db.readOnly = false)
    (h : (mutate a).exec db d = (.ok x, db', d')) :
    ∃ e d₁, a.exec db.engine d = (.ok x, e, d₁) ∧ db' = { db with engine := db'.engine } ∧
      (db'.engine = e ∧ d' = d₁ ∨ Engine.commit.exec e d₁ = (.ok (), db'.engine, d')) := by
  match ha : a.exec db.engine d with
  | (.error error, e, d₁) =>
      rw [exec_mutate_failed hro ha] at h
      cases h
  | (.ok y, e, d₁) =>
      rw [exec_mutate hro ha] at h
      split at h
      · obtain ⟨⟨⟩, _, _, hsettle, hend⟩ := of_exec_bind_ok h
        cases hend
        obtain ⟨f, hcommit, rfl⟩ := of_exec_settle_ok hsettle
        exact ⟨e, d₁, rfl, rfl, .inr hcommit⟩
      · cases h
        exact ⟨e, _, rfl, rfl, .inl ⟨rfl, rfl⟩⟩

/-- **A change that succeeds leaves what it has made**, be it settled or not. -/
theorem holds_of_mutate [Codec] {a : Action Engine α} {x : α} (hro : db.readOnly = false)
    (h : (mutate a).exec db d = (.ok x, db', d')) :
    ∃ e d₁, a.exec db.engine d = (.ok x, e, d₁) ∧
      (e.Lasts path d₁ → ∀ m, e.Holds d₁ m → db'.engine.Holds d' m) := by
  obtain ⟨e, d₁, ha, -, hend⟩ := of_exec_mutate_ok hro h
  refine ⟨e, d₁, ha, fun hlasts m hm => ?_⟩
  rcases hend with ⟨he, rfl⟩ | hcommit
  · rwa [he]
  · exact hlasts.holds_commit hm hcommit

end

end Database

end PagedStore
