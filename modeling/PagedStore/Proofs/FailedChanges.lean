import PagedStore.Compression.Block
import PagedStore.Proofs.Engines
import PagedStore.Proofs.PagerHistory
import PagedStore.Proofs.Readers

/-!
# Changes that fail

Storing, appending to or deleting a record may fail for many reasons and at many places: the key is
too long, the file may not grow, a page is damaged, a chain runs in a circle, the file may only be
read, or a commit was stopped before. Wherever it fails, the header and the dirty pages are put
back as they were. As the cache is all that may have changed, and is hidden from every request, an
engine goes on as if the change had never been asked for.
-/

set_option autoImplicit false

namespace PagedStore.Engine

open PagedStore.Action Pager

/-! ## Requests -/

/-- What an engine can be asked for. -/
inductive Request where
  | get (key : Bytes)
  | size
  | seek (key : Bytes) (mode : SeekMode)
  | first
  | last
  | next (key : Bytes)
  | prev (key : Bytes)
  | put (key value : Bytes)
  | append (key value : Bytes)
  | delete (key : Bytes)
  | begin
  | commit
  | rollback
  | close
  | setCacheCapacity (pages : Nat)

/-- What an engine answers. -/
inductive Reply where
  | done
  | found (there : Bool)
  | value (bytes : Option Bytes)
  | record (r : Option (Bytes × Bytes))
  | count (n : Nat)

namespace Request

variable [Codec]

/-- Serves a request. -/
def serve : Request → Action Engine Reply
  | get key => return .value (← Engine.get key)
  | size => return .count (← self).size
  | seek key mode => return .record (← Engine.seek key mode)
  | first => return .record (← Engine.first)
  | last => return .record (← Engine.last)
  | next key => return .record (← Engine.next key)
  | prev key => return .record (← Engine.prev key)
  | put key value => do Engine.put key value; return .done
  | append key value => do Engine.append key value; return .done
  | delete key => return .found (← Engine.delete key)
  | begin => do Engine.begin; return .done
  | commit => do Engine.commit; return .done
  | rollback => do Engine.rollback; return .done
  | close => do Engine.close; return .done
  | setCacheCapacity pages => do Engine.setCacheCapacity pages; return .done

/-- A request that changes records. -/
def IsChange : Request → Prop
  | put .. | append .. | delete _ => True
  | _ => False

/-- The answers to requests one after the other, and what becomes of the engine and the disk. -/
def serveAll : List Request → Engine → Disk → List (Except Error Reply) × Engine × Disk
  | [], e, d => ([], e, d)
  | r :: requests, e, d =>
      let (answer, e, d) := r.serve.exec e d
      let (answers, e, d) := serveAll requests e d
      (answer :: answers, e, d)

/-! ## Requests do not see the cache -/

/-- **No request sees the cache.** -/
theorem respects_serve (r : Request) : Respects Akin r.serve := by
  cases r with
  | get key => exact .bind (respects_get key) fun _ => .pure _
  | size => exact respects_size_bind fun n => .pure (Reply.count n)
  | seek key mode => exact .bind (respects_seek key mode) fun _ => .pure _
  | first => exact .bind respects_first fun _ => .pure _
  | last => exact .bind respects_last fun _ => .pure _
  | next key => exact .bind (respects_next key) fun _ => .pure _
  | prev key => exact .bind (respects_prev key) fun _ => .pure _
  | put key value => exact .bind (respects_put key value) fun _ => .pure _
  | append key value => exact .bind (respects_append key value) fun _ => .pure _
  | delete key => exact .bind (respects_delete key) fun _ => .pure _
  | begin => exact .bind respects_begin fun _ => .pure _
  | commit => exact .bind respects_commit fun _ => .pure _
  | rollback => exact .bind respects_rollback fun _ => .pure _
  | close => exact .bind respects_close fun _ => .pure _
  | setCacheCapacity pages => exact .bind (respects_setCacheCapacity pages) fun _ => .pure _

/-- Akin engines give the same answers for ever, and do the same to the disk. -/
theorem serveAll_akin {e f : Engine} {d : Disk} (h : Akin d e f) (requests : List Request) :
    (serveAll requests e d).1 = (serveAll requests f d).1 ∧
      (serveAll requests e d).2.2 = (serveAll requests f d).2.2 := by
  induction requests generalizing e f d with
  | nil => exact ⟨rfl, rfl⟩
  | cons r requests ih =>
      obtain ⟨answer, e', f', d', he, hf, h'⟩ := r.respects_serve d e f h
      obtain ⟨hanswers, hdisk⟩ := ih h'
      simp only [serveAll, he, hf]
      exact ⟨congrArg _ hanswers, hdisk⟩

end Request

/-! ## Failures -/

section

variable {p q : Pager} {c : Compression} {e : Engine} {d d' : Disk} {error : Error}

/-- What a tree was asked for has failed when the request has. -/
theorem exec_tree_of_failed {α : Type} {tree : Compression → Action Pager α}
    {memory : Memory → α × Memory} {reply : α → Reply}
    (h : (either tree memory >>= fun x => pure (reply x)).exec (.tree p c) d =
      (.error error, e, d')) :
    ∃ q, (tree c).exec p d = (.error error, q, d') ∧ e = .tree q c := by
  obtain ⟨_, _, q, ⟨⟩, rfl, hexec⟩ := of_exec_either_error (of_exec_bind_pure_error h)
  exact ⟨q, hexec, rfl⟩

/-- **A change that fails puts everything back**, whatever the state of the pager and whatever the
file holds. -/
theorem unchanged_of_failed [Codec] {r : Request} (hr : r.IsChange) (herror : error ≠ .panicked)
    (h : r.serve.exec (.tree p c) d = (.error error, e, d')) :
    ∃ q, e = .tree q c ∧ Unchanged p q ∧ d' = d := by
  cases r with
  | put key value =>
      obtain ⟨q, hexec, rfl⟩ := exec_tree_of_failed h
      exact ⟨q, rfl, Tree.unchanged_of_put herror hexec⟩
  | append key value =>
      obtain ⟨q, hexec, rfl⟩ := exec_tree_of_failed h
      exact ⟨q, rfl, Tree.unchanged_of_append herror hexec⟩
  | delete key =>
      obtain ⟨q, hexec, rfl⟩ := exec_tree_of_failed h
      exact ⟨q, rfl, Tree.unchanged_of_delete herror hexec⟩
  | _ => exact hr.elim

end

/-! ## The life of an engine -/

section

variable [Codec]

/-- The states of engines that were opened on a file, to read or to write, and have served
requests. -/
inductive Reached : Engine → Disk → Prop where
  | opened {path : String} {o : Options} {d d' : Disk} {e : Engine} (hlive : d.NamesLive)
      (hapart : d.NamesApart) (hp : o.pageSize ∈ pageSizes)
      (h : (Engine.«open» path o).exec () d = (.ok e, (), d')) : Reached e d'
  | served {e : Engine} {d : Disk} (h : Reached e d) (r : Request) :
      Reached (r.serve.exec e d).2.1 (r.serve.exec e d).2.2

/-- No operation is under way after a request. -/
theorem Request.keeps_idle_serve (r : Request) : Keeps (fun e _ => Idle e) r.serve := by
  have query : ∀ {α : Type} {tree : Action Pager α} {memory : Memory → α} {reply : α → Reply},
      Reading tree →
        Keeps (fun e _ => Idle e) (Engine.query tree memory >>= fun x => pure (reply x)) :=
    fun h => .bind (keeps_either fun _ => h.orderly.keeps_idle) fun _ => .pure _
  cases r with
  | get key => exact query (Tree.reading_get key)
  | size => exact fun _ _ h => h
  | seek key mode => exact query (Tree.reading_seek key mode)
  | first => exact query Tree.reading_first
  | last => exact query Tree.reading_last
  | next key => exact query (Tree.reading_next key)
  | prev key => exact query (Tree.reading_prev key)
  | put key value =>
      exact .bind (keeps_either fun c => Tree.keeps_idle_put c key value) fun _ => .pure _
  | append key value =>
      exact .bind (keeps_either fun c => Tree.keeps_idle_append c key value) fun _ => .pure _
  | delete key => exact .bind (keeps_either fun _ => Tree.keeps_idle_delete key) fun _ => .pure _
  | begin =>
      exact .bind (keeps_either fun _ => leaves_ensureUsable.keeps fun _ _ h hp =>
        Alike.savepoint h |>.trans hp) fun _ => .pure _
  | commit => exact .bind (keeps_either fun _ => keeps_idle_commit) fun _ => .pure _
  | rollback => exact .bind (keeps_either fun _ => keeps_idle_rollback) fun _ => .pure _
  | close => exact .bind (keeps_either fun _ => Tree.keeps_idle_close) fun _ => .pure _
  | setCacheCapacity pages =>
      exact .bind (keeps_either fun _ _ _ hp => hp) fun _ => .pure _

/-- A request leaves an engine akin to itself. -/
theorem Akin.served {e e' : Engine} {d d' : Disk} {r : Request} {answer : Except Error Reply}
    (h : Akin d e e) (hr : r.serve.exec e d = (answer, e', d')) : Akin d' e' e' := by
  obtain ⟨_, e₁, e₂, d₁, h₁, h₂, hakin⟩ := r.respects_serve d e e h
  rw [hr] at h₁ h₂
  cases h₁
  cases h₂
  exact hakin

/-- An engine that was reached is akin to itself, so that its cache is of no consequence. -/
theorem Reached.akin {e : Engine} {d : Disk} (h : Reached e d) : Akin d e e ∧ Idle e := by
  induction h with
  | opened hlive hapart hp h =>
      obtain ⟨p, ⟨⟩, d₁, hopen, hend⟩ := of_exec_bind_ok h
      obtain ⟨rfl, -, rfl⟩ := exec_ok_inj hend
      obtain ⟨hc, hs, -⟩ := coherent_of_open hlive hapart hp hopen
      exact ⟨.tree _ hc.twins, hs⟩
  | @served e d h r ih =>
      obtain ⟨hakin, hidle⟩ := ih
      exact ⟨hakin.served rfl, r.keeps_idle_serve e d hidle⟩

/-! ## No trace -/

/-- **A change that fails leaves no trace.** Whatever the state of the engine and whatever its file
holds, where an error is returned the header and the dirty pages are as they were, and the disk has
not been touched. When the engine has come about by opening the file and serving requests, every
later request is answered as if the change had not been asked for, and does the same to the disk. -/
theorem failed_change_leaves_no_trace {p : Pager} {c : Compression} {e : Engine} {d d' : Disk}
    {r : Request} {error : Error} (hr : r.IsChange) (hreturns : error ≠ .panicked)
    (h : r.serve.exec (.tree p c) d = (.error error, e, d')) :
    (∃ q, e = .tree q c ∧ q.header = p.header ∧ q.dirty = p.dirty ∧ d' = d) ∧
      (Reached (.tree p c) d → ∀ requests,
        (Request.serveAll requests e d').1 = (Request.serveAll requests (.tree p c) d).1 ∧
        (Request.serveAll requests e d').2.2 = (Request.serveAll requests (.tree p c) d).2.2) := by
  obtain ⟨q, rfl, hleft, rfl⟩ := unchanged_of_failed hr hreturns h
  refine ⟨⟨q, rfl, hleft.header, hleft.dirty, rfl⟩, fun hreached => ?_⟩
  obtain ⟨hakin, hidle⟩ := hreached.akin
  -- The pager has become another one only in its cache, and stays coherent.
  have hserved := hakin.served h
  cases hakin with
  | tree c hp =>
      cases hserved with
      | tree c hq =>
          have htwins : Twins d' p q := ⟨hleft.alike hidle, hp.left, hq.left⟩
          intro requests
          obtain ⟨hanswers, hdisk⟩ := Request.serveAll_akin (.tree c htwins) requests
          exact ⟨hanswers.symm, hdisk.symm⟩

end

/-! ## A file that may not grow -/

/-- Options under which a file has room for one page beside the header. -/
def onePage : Options := { pageSize := 512, maxPages := 2 }

/-- The engine on the empty file with room for one page. -/
def withOnePage : Engine :=
  .tree (ofHeader "a" 0 (some 1) onePage (Header.fresh 512)) .off

theorem open_withOnePage :
    ∃ d, (Engine.open "a" { onePage with compression := .off }).exec () emptyFiles =
      (.ok withOnePage, (), d) := by
  obtain ⟨d, hpager⟩ := closed_emptyFiles.exec_open_empty
    (o := { onePage with compression := .off }) rfl rfl rfl rfl
  refine ⟨d, ?_⟩
  rw [Engine.open, exec_bind_ok hpager]
  rfl

theorem reached_withOnePage : ∃ d, Reached withOnePage d := by
  obtain ⟨d, hopen⟩ := open_withOnePage
  exact ⟨d, .opened namesLive_emptyFiles namesApart_emptyFiles (by decide) hopen⟩

set_option maxRecDepth 4000 in
/-- A record whose value does not fit a leaf takes two pages, and the second one is refused. -/
theorem put_withOnePage [Codec] (d : Disk) :
    ((Request.put [1] (List.replicate 124 0)).serve.exec withOnePage d).1 =
      .error (.full "page limit of 2 reached") := by
  with_unfolding_all rfl

theorem failed_change_leaves_no_trace_one_page :
    ∃ d q d', (Request.put [1] (List.replicate 124 0)).serve.exec withOnePage d =
        (.error (.full "page limit of 2 reached"), .tree q .off, d') ∧
      q.header = Header.fresh 512 ∧ d' = d ∧
      (Request.serveAll [.get [1], .size] (.tree q .off) d').1 =
        [.ok (.value none), .ok (.count 0)] := by
  obtain ⟨d, hreached⟩ := reached_withOnePage
  have hput : (Request.put [1] (List.replicate 124 0)).serve.exec withOnePage d =
      (.error (.full "page limit of 2 reached"), _, _) := Prod.ext (put_withOnePage d) rfl
  have hchange : (Request.put [1] (List.replicate 124 0)).IsChange := trivial
  obtain ⟨⟨q, he, hheader, -, hd⟩, hlater⟩ := failed_change_leaves_no_trace hchange (by decide) hput
  refine ⟨d, q, _, hput.trans ?_, hheader, hd, ?_⟩
  · rw [he]
  · rw [← he, (hlater hreached _).1]
    rfl

end PagedStore.Engine
