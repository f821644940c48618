import PagedStore.Proofs.FailedChanges

/-!
# The cache is hidden

How many pages an engine keeps in memory, at first and later on, decides about nothing but how
fast it answers. Two engines on the same file give the same answers and do the same to the disk
when they are asked for the same, whatever capacity they are opened with and wherever it is changed
in between. The reason is that a page in the cache is always the one that the file holds.
-/

set_option autoImplicit false

namespace PagedStore

open PagedStore.Action

namespace Pager

/-! ## Opening with another cache -/

/-- A pager with an empty cache of a given capacity in place of its own. -/
def withCapacity (n : Nat) (p : Pager) : Pager := { p with cache := { capacity := n } }

section

variable {path : String} {file : NodeId} {o : Options} {d d' : Disk} {n : Nat}

/-- Laying logged pages over a pager does not look at its cache. -/
theorem overlay_withCapacity (n : Nat) (ts : List Log.Transaction) (p : Pager) :
    overlay ts (p.withCapacity n) = (overlay ts p).map (withCapacity n) := by
  induction ts generalizing p with
  | nil => rfl
  | cons t ts ih =>
      rw [overlay, overlay]
      cases Header.decode t.header with
      | error e => rfl
      | ok header =>
          show Except.bind (overlayPages _ _ p.dirty) _ =
            (Except.bind (overlayPages _ _ p.dirty) _).map _
          cases overlayPages header.pageSize.toNat t.pages p.dirty with
          | error e => rfl
          | ok dirty => exact ih { p with dirty := dirty, header := header, committed := header }

/-- Two programs with the same beginning end alike when what follows does. -/
theorem exec_bind_map {σ α β γ : Type} {f : β → γ} {k : α → Action σ β} {l : α → Action σ γ}
    (h : ∀ x s d, (l x).exec s d = (((k x).exec s d).1.map f, ((k x).exec s d).2))
    (a : Action σ α) (s : σ) (d : Disk) :
    (a >>= l).exec s d = (((a >>= k).exec s d).1.map f, ((a >>= k).exec s d).2) := by
  rw [exec_bind, exec_bind]
  match a.exec s d with
  | (.ok x, s', d') => exact h x s' d'
  | (.error e, s', d') => rfl

/-- The capacity is looked at only when the pager is put together. -/
theorem exec_openLocked_capacity (n : Nat) (d : Disk) :
    (openLocked path file { o with pageCacheSize := n }).exec () d =
      (((openLocked path file o).exec () d).1.map (withCapacity n),
        ((openLocked path file o).exec () d).2) := by
  have hheader : openHeader file { o with pageCacheSize := n } = openHeader file o := rfl
  rw [openLocked, openLocked, hheader]
  refine exec_bind_map (fun d s d' => exec_bind_map (fun recovery s d => ?_) _ s d') _ () d
  dsimp only
  cases o.readOnly with
  | true =>
      rw [if_pos rfl, if_pos rfl]
      refine exec_bind_map (fun hd s d => ?_) _ s d
      exact congrArg (·, s, d)
        (overlay_withCapacity n recovery.committed (ofHeader path file none o hd))
  | false =>
      rw [if_neg Bool.false_ne_true, if_neg Bool.false_ne_true]
      refine exec_bind_map (fun _ s d => exec_bind_map (fun log s d => ?_) _ s d) _ s d
      exact exec_bind_map (fun hd s d => rfl) _ s d

/-- **A file is opened alike with any capacity of the cache**, or fails to open alike. -/
theorem exec_open_capacity (n : Nat) (d : Disk) :
    («open» path { o with pageCacheSize := n }).exec () d =
      ((((«open» path o).exec () d).1).map (withCapacity n), ((«open» path o).exec () d).2) := by
  have hfile : openFile path { o with pageCacheSize := n } = openFile path o := rfl
  rw [«open», «open», hfile]
  refine exec_bind_map (fun file s d => ?_) _ () d
  rw [exec_bind, exec_bind, exec_attempt, exec_attempt, exec_openLocked_capacity]
  rcases (openLocked path file o).exec () d with ⟨r, ⟨⟩, d₁⟩
  cases r with
  | error e => rfl
  | ok p => rfl

end

end Pager

namespace Engine

open Pager

/-- The engine with an empty cache of a given capacity, if it has a cache at all. -/
def withCapacity (n : Nat) : Engine → Engine
  | tree p c => .tree (p.withCapacity n) c
  | memory m => .memory m

section

variable {path : String} {o : Options} {d d' : Disk} {e f : Engine}

theorem exec_open_capacity (n : Nat)
    (h : (Engine.open path o).exec () d = (.ok e, (), d')) :
    (Engine.open path { o with pageCacheSize := n }).exec () d =
      (.ok (e.withCapacity n), (), d') := by
  obtain ⟨p, ⟨⟩, d₁, hopen, hend⟩ := of_exec_bind_ok h
  obtain ⟨rfl, -, rfl⟩ := exec_ok_inj hend
  have hcapacity : (Pager.open path { o with pageCacheSize := n }).exec () d =
      (.ok (p.withCapacity n), (), d₁) := by
    rw [Pager.exec_open_capacity, hopen]
    rfl
  exact exec_bind_ok hcapacity

/-- Engines that were opened on the same file with different capacities are akin. -/
theorem akin_withCapacity (hlive : d.NamesLive) (hapart : d.NamesApart)
    (hp : o.pageSize ∈ pageSizes) (h : (Engine.open path o).exec () d = (.ok e, (), d'))
    (n : Nat) : Akin d' e (e.withCapacity n) := by
  have hakin := (Reached.opened hlive hapart hp h).akin.1
  have hakin' := (Reached.opened hlive hapart (o := { o with pageCacheSize := n }) hp
    (exec_open_capacity n h)).akin.1
  cases hakin with
  | tree c hp =>
      cases hakin' with
      | tree _ hq => exact .tree c ⟨⟨⟨rfl, rfl, rfl, rfl, rfl, rfl, rfl, rfl⟩, rfl, rfl, rfl⟩,
          hp.left, hq.left⟩
  | memory m => exact .memory m

/-! ## Changes of the capacity on the way -/

namespace Request

/-- A request that is about the cache and nothing else. -/
def isResize : Request → Bool
  | setCacheCapacity _ => true
  | _ => false

/-- The requests that are not about the cache. -/
def substantial (asked : List Request) : List Request := asked.filter (!·.isResize)

variable [Codec]

/-- The answers to the requests that are not about the cache. -/
def answers (asked : List Request) (e : Engine) (d : Disk) : List (Except Error Reply) :=
  ((asked.zip (serveAll asked e d).1).filter (!·.1.isResize)).map (·.2)

/-- The engine after requests one after the other. -/
def engineAfter (asked : List Request) (e : Engine) (d : Disk) : Engine := (serveAll asked e d).2.1

/-- The disk after requests one after the other. -/
def diskAfter (asked : List Request) (e : Engine) (d : Disk) : Disk := (serveAll asked e d).2.2

theorem akin_resized (h : Akin d e f) (n : Nat) :
    ∃ e', (setCacheCapacity n).serve.exec e d = (.ok .done, e', d) ∧ Akin d e' f := by
  cases h with
  | tree c ht =>
      refine ⟨_, rfl, .tree c ⟨?_, ht.left.resize n, ht.right⟩⟩
      exact (alike_resize _ n).symm.trans ht.toAlike
  | memory m => exact ⟨_, rfl, .memory m⟩

/-- Changes of the capacity may be left out. -/
theorem answers_eq_substantial (h : Akin d e f) (asked : List Request) :
    answers asked e d = (serveAll (substantial asked) f d).1 ∧
      diskAfter asked e d = diskAfter (substantial asked) f d := by
  induction asked generalizing e f d with
  | nil => exact ⟨rfl, rfl⟩
  | cons r asked ih =>
      cases hr : r.isResize with
      | true =>
          cases r with
          | setCacheCapacity n =>
              obtain ⟨e', hserve, h'⟩ := akin_resized h n
              obtain ⟨hanswers, hdisk⟩ := ih h'
              simp only [answers, diskAfter, serveAll, hserve, substantial] at hanswers hdisk ⊢
              exact ⟨hanswers, hdisk⟩
          | _ => cases hr
      | false =>
          obtain ⟨answer, e', f', d', he, hf, h'⟩ := r.respects_serve d e f h
          obtain ⟨hanswers, hdisk⟩ := ih h'
          simp only [answers, diskAfter, substantial] at hanswers hdisk ⊢
          simp only [serveAll, he, List.zip_cons_cons, List.filter_cons, hr, Bool.not_false,
            if_pos, List.map_cons, hf, hanswers, hdisk, and_self]

end Request

section

variable [Codec]

/-- An engine that was reached is reached by more requests. -/
theorem Reached.servedAll (h : Reached e d) (asked : List Request) :
    Reached (Request.engineAfter asked e d) (Request.diskAfter asked e d) := by
  induction asked generalizing e d with
  | nil => exact h
  | cons r asked ih => exact ih (h.served r)

/-- A page in the cache of an engine that was reached is the one that the file holds. -/
theorem Reached.cached {p : Pager} {c : Compression} (h : Reached (.tree p c) d)
    (hu : p.poisoned = none) {id : PageId} {page : Page}
    (hpage : p.cache.entries[id]? = some page) : fromFile p.file p.pageSize d id = .ok page := by
  obtain ⟨hakin, -⟩ := h.akin
  cases hakin with
  | tree _ ht => exact ((ht.left.mirrors hu).cached id page hpage).2

/-! ## The main result -/

/-- **The cache is hidden.** When a file is opened with some capacity of the cache, it opens alike
with any other one. Whatever the two engines are then asked for, as long as it is the same but for
changes of the capacity, which may stand anywhere, their answers are the same and so is the disk
afterwards. At every moment at which an engine has not been stopped in a commit, a page in its cache
is the page that the main file holds. -/
theorem cache_is_hidden (hlive : d.NamesLive) (hapart : d.NamesApart) (hp : o.pageSize ∈ pageSizes)
    (h : (Engine.open path o).exec () d = (.ok e, (), d')) (capacity : Nat) :
    ∃ f, (Engine.open path { o with pageCacheSize := capacity }).exec () d = (.ok f, (), d') ∧
      (∀ asked asked', Request.substantial asked = Request.substantial asked' →
        Request.answers asked e d' = Request.answers asked' f d' ∧
        Request.diskAfter asked e d' = Request.diskAfter asked' f d') ∧
      ∀ asked p c, Request.engineAfter asked e d' = .tree p c → p.poisoned = none →
        ∀ id page, p.cache.entries[id]? = some page →
          fromFile p.file p.pageSize (Request.diskAfter asked e d') id = .ok page := by
  refine ⟨e.withCapacity capacity, exec_open_capacity capacity h, ?_, ?_⟩
  · intro asked asked' hsame
    have hakin := akin_withCapacity hlive hapart hp h capacity
    -- Both runs are the run without changes of the capacity, from the same engine.
    obtain ⟨hanswers, hdisk⟩ := Request.answers_eq_substantial hakin asked
    obtain ⟨hanswers', hdisk'⟩ := Request.answers_eq_substantial hakin.right asked'
    rw [hsame] at hanswers hdisk
    exact ⟨hanswers.trans hanswers'.symm, hdisk.trans hdisk'.symm⟩
  · intro asked p c hengine hu id page hpage
    have hreached := (Reached.opened hlive hapart hp h).servedAll asked
    rw [hengine] at hreached
    exact hreached.cached hu hpage

/-- The engine on the empty file, without compression. -/
def uncompressed : Engine := .tree onEmptyFile .off

set_option maxRecDepth 4000 in
/-- A record that was put is found, on whatever disk the engine works. -/
theorem answers_uncompressed (d : Disk) :
    Request.answers [.put [1] [2], .get [1]] uncompressed d =
      [.ok .done, .ok (.value (some [2]))] := by
  with_unfolding_all rfl

end

theorem cache_is_hidden_empty_file :
    ∃ d f, (Engine.open "a" { pageSize := 512, compression := .off, pageCacheSize := 0 }).exec ()
        emptyFiles = (.ok f, (), d) ∧
      Request.answers [.setCacheCapacity 3, .put [1] [2], .setCacheCapacity 0, .get [1]] f d =
        [.ok .done, .ok (.value (some [2]))] := by
  obtain ⟨d, hpager⟩ := closed_emptyFiles.exec_open_empty
    (o := { pageSize := 512, compression := .off }) rfl rfl rfl rfl
  have hopen : (Engine.open "a" { pageSize := 512, compression := .off }).exec () emptyFiles =
      (.ok uncompressed, (), d) := by
    rw [Engine.open, exec_bind_ok hpager]
    rfl
  obtain ⟨f, hopen', hanswers, -⟩ :=
    cache_is_hidden namesLive_emptyFiles namesApart_emptyFiles (by decide) hopen 0
  obtain ⟨hsame, -⟩ := hanswers [.put [1] [2], .get [1]]
    [.setCacheCapacity 3, .put [1] [2], .setCacheCapacity 0, .get [1]] rfl
  exact ⟨d, f, hopen', hsame.symm.trans (answers_uncompressed d)⟩

end

end Engine

end PagedStore
