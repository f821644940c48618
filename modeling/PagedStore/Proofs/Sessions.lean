import PagedStore.Proofs.CompressionRoundTrip
import PagedStore.Proofs.Engines
import PagedStore.Proofs.Neighbours
import PagedStore.Proofs.NewFiles
import PagedStore.Proofs.PageOwners
import PagedStore.Proofs.TreeLife

/-!
# Sessions with a tree

A session is a sequence of calls to the engine of a file: records are stored, appended to, deleted
and looked up, changes are committed or rolled back, and the file is closed and opened again with
other options. Beside it goes a ledger, the two maps that the calls are meant to bring about.

Whatever the calls are, the answers are those of the ledger. Only storing a record can fail, and
then it changes nothing. In every state that is reached this way each page has exactly one owner,
and the neighbours of a key are those in the map. Commits may be made to stop, as long as nothing is
committed then (`Proper`).
-/

set_option autoImplicit false

namespace PagedStore

open PagedStore.Action Pager

/-- An engine and the disk; there is no engine any more when the file could not be opened again. -/
structure Session where
  engine : Option Engine
  disk : Disk

namespace Session

/-! ## Calls -/

/-- What an engine can be asked for. -/
inductive Call where
  | put (key value : Bytes)
  | append (key value : Bytes)
  | delete (key : Bytes)
  | get (key : Bytes)
  | size
  | commit
  | rollback
  /-- The engine is closed, and the file is opened again. -/
  | reopen (o : Options)

/-- What an engine answers. -/
inductive Answer where
  | done
  | found (there : Bool)
  | value (bytes : Option Bytes)
  | count (n : Nat)
  deriving DecidableEq, Repr

/-- The answer to a request that the engine itself serves. -/
def ask {α : Type} (s : Session) (request : Action Engine α) (answer : α → Answer) :
    Except Error Answer × Session :=
  match s.engine with
  | none => (.error (.invalidState "closed"), s)
  | some e =>
      match request.exec e s.disk with
      | (result, e, d) => (result.map answer, ⟨some e, d⟩)

/-- Closes the engine and opens the file again. -/
def reopen (path : String) (o : Options) (s : Session) : Except Error Answer × Session :=
  match s.engine with
  | none => (.error (.invalidState "closed"), s)
  | some e =>
      match Engine.close.exec e s.disk with
      | (.error error, e, d) => (.error error, ⟨none, e.release d⟩)
      | (.ok (), e, d) =>
          match (Engine.open path o).exec () (e.release d) with
          | (.error error, (), d) => (.error error, ⟨none, d⟩)
          | (.ok e, (), d) => (.ok .done, ⟨some e, d⟩)

/-- The answer to a call, and what becomes of the session. -/
def serve [Codec] (path : String) (s : Session) : Call → Except Error Answer × Session
  | .put key value => s.ask (Engine.put key value) fun _ => .done
  | .append key value => s.ask (Engine.append key value) fun _ => .done
  | .delete key => s.ask (Engine.delete key) .found
  | .get key => s.ask (Engine.get key) .value
  | .size => s.ask (return (← self).size) .count
  | .commit => s.ask Engine.commit fun _ => .done
  | .rollback => s.ask Engine.rollback fun _ => .done
  | .reopen o => s.reopen path o

/-- The answers to calls one after the other, and what becomes of the session. -/
def run [Codec] (path : String) : Session → List Call → List (Except Error Answer) × Session
  | s, [] => ([], s)
  | s, call :: calls =>
      let (answer, s) := s.serve path call
      let (answers, s) := run path s calls
      (answer :: answers, s)

/-! ## The ledger -/

/-- The map that the calls so far have led to, and the one at the last commit. -/
structure Ledger where
  current : Contents := ∅
  committed : Contents := ∅

namespace Ledger

/-- What a call that succeeds is to be answered. -/
def answer (l : Ledger) : Call → Answer
  | .delete key => .found (l.current.contains key)
  | .get key => .value l.current[key]?
  | .size => .count l.current.size
  | _ => .done

/-- What a call that succeeds brings about. -/
def after (l : Ledger) : Call → Ledger
  | .put key value => { l with current := l.current.insert key value }
  | .append key value =>
      { l with current := l.current.insert key (l.current[key]?.getD [] ++ value) }
  | .delete key => { l with current := l.current.erase key }
  | .get _ => l
  | .size => l
  | .commit => ⟨l.current, l.current⟩
  | .rollback => ⟨l.committed, l.committed⟩
  | .reopen _ => ⟨l.current, l.current⟩

/-- What calls are to be answered when all of them succeed. -/
def answers : Ledger → List Call → List Answer
  | _, [] => []
  | l, call :: calls => l.answer call :: answers (l.after call) calls

/-- What calls have brought about, given the answers; a call that fails changes nothing. -/
def followed : Ledger → List (Call × Except Error Answer) → Ledger
  | l, [] => l
  | l, (call, .ok _) :: more => followed (l.after call) more
  | l, (_, .error _) :: more => followed l more

end Ledger

/-- Options with which a file is opened again for writing. -/
structure Writes (o : Options) : Prop where
  writes : o.readOnly = false
  there : o.errorIfExists = false

/-- A call after which an engine of the same file goes on. Where commits are made to stop, it
commits nothing. -/
def Call.Proper (point : Option CrashPoint) : Call → Prop
  | commit => point = none
  | reopen o => point = none ∧ Writes o
  | _ => True

/-- Where commits are made to stop after a call. -/
def Call.point (point : Option CrashPoint) : Call → Option CrashPoint
  | reopen o => o.crashPoint
  | _ => point

/-- Calls that are proper one after the other. -/
def Proper : Option CrashPoint → List Call → Prop
  | _, [] => True
  | point, call :: calls => call.Proper point ∧ Proper (call.point point) calls

/-- A call that stores a record. -/
def Call.IsStore : Call → Prop
  | put .. => True
  | append .. => True
  | _ => False

/-! ## One call -/

/-- A session stands where its ledger says. -/
def Stands [Codec] (path : String) (point : Option CrashPoint) (s : Session) (l : Ledger) : Prop :=
  ∃ p c, s.engine = some (.tree p c) ∧ Live path point p s.disk l.current l.committed

/-- What becomes of a call: it is answered as the ledger says, or it stores a record, fails and
changes nothing. -/
inductive Served [Codec] (path : String) (point : Option CrashPoint) (l : Ledger) (call : Call) :
    Except Error Answer × Session → Prop where
  | answered {s : Session} (stands : Stands path (call.point point) s (l.after call)) :
      Served path point l call (.ok (l.answer call), s)
  | refused {s : Session} {e : Error} (store : call.IsStore) (reason : Tree.Refused e)
      (stands : Stands path (call.point point) s l) : Served path point l call (.error e, s)

section

variable {path : String} {point : Option CrashPoint} {p : Pager} {c : Compression} {d : Disk}
  {m old : Contents} {l : Ledger} {α : Type} {tree : Compression → Action Pager α}
  {memory : Memory → α × Memory} {answer : α → Answer} {call : Call}

theorem ask_either {r : Except Error α} {q : Pager} {d' : Disk}
    (h : (tree c).exec p d = (r, q, d')) :
    ask ⟨some (.tree p c), d⟩ (Engine.either tree memory) answer =
      (r.map answer, ⟨some (.tree q c), d'⟩) := by
  rw [ask]
  simp only [Engine.exec_either h]

variable [Codec]

/-- A call that changes records is served as the ledger says, or refused. -/
theorem served_of_settles {f : Face} {Q : α → Prop} {E : Error → Prop}
    (h : Live path point p d l.current l.committed) (hf : p.face d = f)
    (ha : Settles f (tree c) E fun x g => Q x ∧ Tree.Stores g (l.after call).current)
    (hold : (l.after call).committed = l.committed) (hpoint : call.point point = point)
    (hanswer : ∀ x, Q x → answer x = l.answer call)
    (hrefused : ∀ e, E e → call.IsStore ∧ Tree.Refused e) :
    Served path point l call (ask ⟨some (.tree p c), d⟩ (Engine.either tree memory) answer) := by
  subst hf
  obtain ⟨r, q, hexec, hr⟩ := h.settles ha
  rw [ask_either hexec]
  cases r with
  | ok x =>
      obtain ⟨hx, hlive⟩ := hr
      rw [Except.map, hanswer x hx]
      rw [← hold, ← hpoint] at hlive
      exact .answered ⟨q, c, rfl, hlive⟩
  | error e =>
      obtain ⟨he, hlive⟩ := hr
      obtain ⟨hstore, hreason⟩ := hrefused e he
      rw [← hpoint] at hlive
      exact .refused hstore hreason ⟨q, c, rfl, hlive⟩

/-- A call that stores a record is served as the ledger says, or refused. -/
theorem served_of_stores {store : Compression → Action Pager Unit}
    {memory : Memory → Unit × Memory} (h : Live path point p d l.current l.committed)
    (hstore : call.IsStore)
    (ha : Settles (p.face d) (store c) Tree.Refused fun _ g =>
      Tree.Stores g (l.after call).current) :
    Served path point l call
      (ask ⟨some (.tree p c), d⟩ (Engine.either store memory) fun _ => .done) := by
  have hcall : (l.after call).committed = l.committed ∧ call.point point = point ∧
      l.answer call = .done := by
    cases call with
    | put => exact ⟨rfl, rfl, rfl⟩
    | append => exact ⟨rfl, rfl, rfl⟩
    | _ => exact hstore.elim
  refine served_of_settles (Q := fun _ => True) h rfl ?_ hcall.1 hcall.2.1
    (fun _ _ => hcall.2.2.symm) fun e he => ⟨hstore, he⟩
  exact ha.post fun _ _ hs => ⟨trivial, hs⟩

theorem exec_close (h : Live path none p d m old) :
    ∃ q d', Tree.close.exec p d = (.ok (), q, d') ∧ Live path none q d' m m := by
  rw [h.ready.exec_close]
  exact h.commit

/-- Closing and opening again makes what the file shows lasting. -/
theorem reopen_eq (h : Live path none p d m old) {o : Options} (ho : Writes o) :
    ∃ q d', reopen path o ⟨some (.tree p c), d⟩ = (.ok .done, ⟨some (.tree q o.compression), d'⟩) ∧
      Live path o.crashPoint q d' m m := by
  obtain ⟨p', d₁, hclose, hlive⟩ := exec_close h
  obtain ⟨q, d', hopen, hlive'⟩ := hlive.reopen ho.writes ho.there
  refine ⟨q, d', ?_, hlive'⟩
  have hclose' : Engine.close.exec (.tree p c) d = (.ok (), .tree p' c, d₁) :=
    Engine.exec_query hclose
  have hopen' : (Engine.open path o).exec () (p'.release d₁) =
      (.ok (.tree q o.compression), (), d') := by
    rw [Engine.open, exec_bind_ok hopen]
    rfl
  rw [reopen]
  simp only [hclose', Engine.release, hopen']

/-- **A call is answered as the ledger says**, or it stores a record and is refused. -/
theorem Stands.serve [Codec.Lawful] {s : Session} (h : Stands path point s l)
    (hc : call.Proper point) : Served path point l call (s.serve path call) := by
  obtain ⟨p, c, he, h⟩ := h
  obtain ⟨engine, d⟩ := s
  obtain rfl : engine = some (.tree p c) := he
  -- No call but one that stores a record can fail.
  have never : ∀ e : Error, False → call.IsStore ∧ Tree.Refused e := fun _ => False.elim
  cases call with
  | put key value =>
      have hstore : (Call.put key value).IsStore := trivial
      rw [serve, Engine.put]
      refine served_of_stores h hstore ?_
      exact Tree.settles_put h.current c key value
  | append key value =>
      have hstore : (Call.append key value).IsStore := trivial
      rw [serve, Engine.append]
      refine served_of_stores h hstore ?_
      exact Tree.settles_append h.current c key value
  | delete key =>
      rw [serve, Engine.delete]
      refine served_of_settles (Q := fun x => x = l.current.contains key) h rfl ?_ rfl rfl
        (fun x hx => congrArg Answer.found hx) never
      exact Tree.settles_delete h.current key
  | get key =>
      rw [serve, Engine.get, Engine.query]
      refine served_of_settles (Q := fun x => x = l.current[key]?) h rfl ?_ rfl rfl
        (fun x hx => congrArg Answer.value hx) never
      refine .of_does ((Tree.does_get h.current key).post ?_)
      rintro x g ⟨rfl, hx⟩
      exact ⟨hx, h.current⟩
  | size =>
      have hsize : Engine.size (.tree p c) = l.current.size := h.current.size_eq
      have hserve : serve path ⟨some (.tree p c), d⟩ .size =
          (.ok (.count (Engine.size (.tree p c))), ⟨some (.tree p c), d⟩) := rfl
      rw [hserve, hsize]
      exact .answered ⟨p, c, rfl, h⟩
  | commit =>
      obtain rfl : point = none := hc
      obtain ⟨q, d', hexec, hlive⟩ := h.commit
      rw [serve, Engine.commit, ask_either hexec]
      exact .answered ⟨q, c, rfl, hlive⟩
  | rollback =>
      obtain ⟨hexec, hlive⟩ := h.rollback
      rw [serve, Engine.rollback, ask_either hexec]
      exact .answered ⟨_, c, rfl, hlive⟩
  | reopen o =>
      obtain ⟨rfl, ho⟩ := hc
      obtain ⟨q, d', hreopen, hlive⟩ := reopen_eq (c := c) h ho
      rw [serve, hreopen]
      exact .answered ⟨q, _, rfl, hlive⟩

end

/-! ## Many calls -/

section

variable {path : String} {point : Option CrashPoint} {s : Session} {l : Ledger} {calls : List Call}

/-- A session always stands where its answers lead the ledger. -/
theorem Stands.run [Codec] [Codec.Lawful] (h : Stands path point s l) (hc : Proper point calls) :
    ∃ point', Stands path point' (s.run path calls).2
      (l.followed (calls.zip (s.run path calls).1)) := by
  -- One call keeps the session and the ledger together, whether it succeeds or not.
  induction calls generalizing point s l with
  | nil => exact ⟨point, h⟩
  | cons call calls ih =>
      obtain ⟨hcall, hrest⟩ := hc
      have hserved := h.serve hcall
      rw [Session.run]
      generalize s.serve path call = result at hserved
      cases hserved with
      | answered hstands => exact ih hstands hrest
      | refused hstore hreason hstands => exact ih hstands hrest

/-- When no record is refused the answers are those of the ledger. -/
theorem Stands.answers_eq [Codec] [Codec.Lawful] (h : Stands path point s l)
    (hc : Proper point calls)
    (hok : ∀ x ∈ calls.zip (s.run path calls).1, x.1.IsStore → ∃ a, x.2 = .ok a) :
    (s.run path calls).1 = (l.answers calls).map .ok := by
  induction calls generalizing point s l with
  | nil => rfl
  | cons call calls ih =>
      obtain ⟨hcall, hrest⟩ := hc
      have hserved := h.serve hcall
      rw [Session.run] at hok ⊢
      rw [Ledger.answers, List.map_cons]
      generalize s.serve path call = result at hserved hok
      cases hserved with
      | answered hstands =>
          exact congrArg _ (ih hstands hrest fun x hx => hok x (List.mem_cons_of_mem _ hx))
      | refused hstore hreason hstands =>
          obtain ⟨a, ha⟩ := hok _ List.mem_cons_self hstore
          cases ha

/-- Calls may be served in two parts. -/
theorem run_append [Codec] (xs ys : List Call) :
    s.run path (xs ++ ys) = ((s.run path xs).1 ++ ((s.run path xs).2.run path ys).1,
      ((s.run path xs).2.run path ys).2) := by
  induction xs generalizing s with
  | nil => rfl
  | cons call xs ih => simp only [List.cons_append, run, ih]

/-- No record is refused when those that are stored first are not. -/
theorem stored_append [Codec] {xs ys : List Call}
    (hx : (s.run path xs).1 = List.replicate xs.length (.ok .done))
    (hy : ∀ call ∈ ys, ¬ call.IsStore) :
    ∀ x ∈ (xs ++ ys).zip (s.run path (xs ++ ys)).1, x.1.IsStore → ∃ a, x.2 = .ok a := by
  intro x hmem hstore
  rw [run_append, hx, List.zip_append List.length_replicate.symm] at hmem
  rcases List.mem_append.1 hmem with hfirst | hlater
  · exact ⟨_, List.eq_of_mem_replicate (List.of_mem_zip hfirst).2⟩
  · exact absurd hstore (hy _ (List.of_mem_zip hlater).1)

end

/-! ## New files -/

/-- An engine that was opened on a new file. -/
structure Begins (path : String) (o : Options) (s : Session) : Prop where
  valid : o.validate = .ok ()
  writes : o.readOnly = false
  opened : ∃ d e, d.New path ∧ (Engine.open path o).exec () d = (.ok e, (), s.disk) ∧
    s.engine = some e

/-- An engine for writing on a new file begins with the empty map. -/
theorem serves_of_open [Codec] {path : String} {o : Options} {e : Engine} {d d' : Disk}
    (hnew : d.New path) (hvalid : o.validate = .ok ()) (hwrites : o.readOnly = false)
    (hopen : (Engine.open path o).exec () d = (.ok e, (), d')) :
    ∃ p c, e = .tree p c ∧ p.crashPoint = o.crashPoint ∧ Serves path p d' ∅ ∅ := by
  obtain ⟨p, ⟨⟩, d', hpager, hrest⟩ := of_exec_bind_ok hopen
  obtain ⟨rfl, -, rfl⟩ := exec_ok_inj hrest
  obtain ⟨file, log, rfl, hready⟩ :=
    fresh_of_open hnew hwrites (pageSize_of_validate hvalid) hpager
  exact ⟨_, _, rfl, rfl, .of_fresh hready⟩

/-- A session with a new file begins with the empty map. -/
theorem Begins.stands [Codec] {path : String} {o : Options} {s : Session} (h : Begins path o s) :
    Stands path o.crashPoint s {} := by
  obtain ⟨d, e, hnew, hopen, hengine⟩ := h.opened
  obtain ⟨p, c, rfl, hpoint, hserves⟩ := serves_of_open hnew h.valid h.writes hopen
  exact ⟨p, c, hengine, hserves, hpoint⟩

/-! ## Six records -/

/-- Small pages, and values that are stored as they are. -/
def smallPages : Options := { pageSize := 512, compression := .off }

/-- A session that begins with the empty file. -/
def onEmptyFile : Session :=
  ⟨some (.tree Pager.onEmptyFile .off), ((Engine.open "a" smallPages).exec () emptyFiles).2.2⟩

theorem begins_onEmptyFile : Begins "a" smallPages onEmptyFile := by
  obtain ⟨d, hopen⟩ := closed_emptyFiles.exec_open_empty (o := smallPages) rfl rfl rfl rfl
  have hengine : (Engine.open "a" smallPages).exec () emptyFiles =
      (.ok (.tree Pager.onEmptyFile .off), (), d) := by
    rw [Engine.open, exec_bind_ok hopen]
    rfl
  refine ⟨rfl, rfl, emptyFiles, _, new_emptyFiles, ?_, rfl⟩
  rw [onEmptyFile, hengine]

/-- Five records that do not fit one leaf, and one whose value takes two pages. -/
def sixRecords : List Call :=
  [.put [1] (List.replicate 118 1), .put [2] (List.replicate 118 2),
    .put [3] (List.replicate 118 3), .put [4] (List.replicate 118 4),
    .put [5] (List.replicate 118 5), .put [6] (List.replicate 600 6)]

/-- The file has room for the records. -/
theorem run_sixRecords :
    (onEmptyFile.run "a" sixRecords).1 = List.replicate 6 (.ok .done) := by
  decide +kernel

/-- The header of the tree of a session. -/
def header? (s : Session) : Option Header :=
  match s.engine with
  | some (.tree p _) => some p.header
  | _ => none

theorem header?_of_engine {s : Session} {p : Pager} {c : Compression}
    (h : s.engine = some (.tree p c)) : s.header? = some p.header := by
  rw [header?, h]

/-- The root stands above two leaves, and there are two pages for the long value. -/
theorem header?_sixRecords : (onEmptyFile.run "a" sixRecords).2.header? =
    some { Header.fresh 512 with pageCount := 6, root := 3, recordCount := 6 } := by
  decide +kernel

theorem proper_sixRecords : Proper none sixRecords := by
  simp [sixRecords, Proper, Call.Proper, -List.reduceReplicate]

/-! ## Answers -/

section

variable {path : String} {o : Options} {s : Session} {calls : List Call}

/-- **A tree is a map.** A session with a new file gives the answers of a ledger that began with
the empty map, as long as no record is refused. -/
theorem answers_as_map [Codec] [Codec.Lawful] (h : Begins path o s)
    (hc : Proper o.crashPoint calls)
    (hok : ∀ x ∈ calls.zip (s.run path calls).1, x.1.IsStore → ∃ a, x.2 = .ok a) :
    (s.run path calls).1 = (Ledger.answers {} calls).map .ok :=
  h.stands.answers_eq hc hok

/-- A record is looked up, all are counted and committed, one is deleted, and the file is opened
again. -/
def laterCalls : List Call :=
  [.get [6], .size, .commit, .delete [3], .reopen smallPages, .get [3], .get [2]]

theorem answers_as_map_six_records :
    (onEmptyFile.run "a" (sixRecords ++ laterCalls)).1 =
      List.replicate 6 (.ok .done) ++
        [.ok (.value (some (List.replicate 600 6))), .ok (.count 6), .ok .done, .ok (.found true),
          .ok .done, .ok (.value none), .ok (.value (some (List.replicate 118 2)))] := by
  have hc : Proper none (sixRecords ++ laterCalls) := by
    simp [sixRecords, laterCalls, Proper, Call.Proper, Call.point, smallPages, Writes.mk,
      -List.reduceReplicate]
  have hlater : ∀ call ∈ laterCalls, ¬ call.IsStore := by
    simp [laterCalls, Call.IsStore]
  rw [answers_as_map begins_onEmptyFile hc (stored_append run_sixRecords hlater)]
  decide +kernel

/-! ## Pages -/

/-- **No page is lost or used twice.** Whatever the calls were and whichever of them failed, each
page belongs to one node, or to the chain of one cell, or to the free list, and when no record is
left all pages are free. -/
theorem pages_owned_once [Codec] [Codec.Lawful] (h : Begins path o s)
    (hc : Proper o.crashPoint calls) :
    ∃ p c m cells nodes chains free, (s.run path calls).2.engine = some (.tree p c) ∧
      m = (Ledger.followed {} (calls.zip (s.run path calls).1)).current ∧
      Tree.Owned (p.face (s.run path calls).2.disk) m cells nodes chains free ∧
      (m = ∅ → p.header.root = 0 ∧ p.header.freeCount.toNat + 1 = p.header.pageCount.toNat) := by
  obtain ⟨_, p, c, hengine, hlive⟩ := h.stands.run hc
  obtain ⟨cells, nodes, chains, free, howned⟩ := hlive.current.owned
  exact ⟨p, c, _, cells, nodes, chains, free, hengine, rfl, howned, howned.emptied⟩

/-- The records are deleted one after the other. -/
def sixDeletions : List Call := [[1], [2], [3], [4], [5], [6]].map .delete

theorem proper_sixDeletions : Proper none (sixRecords ++ sixDeletions) := by
  simp [sixRecords, sixDeletions, Proper, Call.Proper, -List.reduceReplicate]

/-- No record is left then. -/
theorem followed_sixDeletions :
    (Ledger.followed {} ((sixRecords ++ sixDeletions).zip
      (onEmptyFile.run "a" (sixRecords ++ sixDeletions)).1)).current = ∅ := by
  have hlater : ∀ call ∈ sixDeletions, ¬ call.IsStore := by
    simp [sixDeletions, Call.IsStore]
  rw [begins_onEmptyFile.stands.answers_eq proper_sixDeletions
    (stored_append run_sixRecords hlater), ← Std.ExtTreeMap.isEmpty_iff]
  decide +kernel

theorem pages_owned_once_six_records :
    (∃ p c m cells nodes chains,
      (onEmptyFile.run "a" sixRecords).2.engine = some (.tree p c) ∧
        Tree.Owned (p.face (onEmptyFile.run "a" sixRecords).2.disk) m cells nodes chains [] ∧
        nodes.card + chains.card = 5) ∧
      ∃ p c, (onEmptyFile.run "a" (sixRecords ++ sixDeletions)).2.engine = some (.tree p c) ∧
        p.header.root = 0 ∧ p.header.freeCount.toNat + 1 = p.header.pageCount.toNat := by
  constructor
  · obtain ⟨p, c, m, cells, nodes, chains, free, hengine, -, howned, -⟩ :=
      pages_owned_once begins_onEmptyFile proper_sixRecords
    have hheader : (p.face (onEmptyFile.run "a" sixRecords).2.disk).header =
        { Header.fresh 512 with pageCount := 6, root := 3, recordCount := 6 } :=
      Option.some.inj ((header?_of_engine hengine).symm.trans header?_sixRecords)
    have hfree := howned.freeCount
    have hcount := howned.pageCount
    rw [hheader] at hfree hcount
    obtain rfl : free = [] := List.length_eq_zero_iff.1 hfree.symm
    refine ⟨p, c, m, cells, nodes, chains, hengine, howned, ?_⟩
    exact (Nat.succ.inj hcount).symm
  · obtain ⟨p, c, m, -, -, -, -, hengine, hm, -, hempty⟩ :=
      pages_owned_once begins_onEmptyFile proper_sixDeletions
    exact ⟨p, c, hengine, hempty (hm.trans followed_sixDeletions)⟩

end

/-! ## Neighbours -/

/-- An engine finds the neighbours of a key as a map has them. -/
structure Navigates [Codec] (e : Engine) (d : Disk) (m : Contents) : Prop where
  first : ∃ r, (Engine.first.exec e d).1 = .ok r ∧ m.IsLeast (fun _ => True) r
  last : ∃ r, (Engine.last.exec e d).1 = .ok r ∧ m.IsGreatest (fun _ => True) r
  next : ∀ key, ∃ r, ((Engine.next key).exec e d).1 = .ok r ∧ m.IsLeast (KeyLt key) r
  prev : ∀ key, ∃ r, ((Engine.prev key).exec e d).1 = .ok r ∧
    m.IsGreatest (fun k => KeyLt k key) r
  seek : ∀ key mode, ∃ r, ((Engine.seek key mode).exec e d).1 = .ok r ∧ Tree.IsSought m key mode r

section

variable {path : String} {point : Option CrashPoint} {p : Pager} {c : Compression} {d : Disk}
  {m old : Contents} {α : Type}

/-- A question is answered by the engine as by the tree. -/
theorem answered_of_does [Codec] {a : Action Pager α} {memory : Memory → α} {Q : α → Prop}
    (h : Live path point p d m old)
    (ha : Does (p.face d) a (fun _ => False) fun x g => g = p.face d ∧ Q x) :
    ∃ x, ((Engine.query a memory).exec (.tree p c) d).1 = .ok x ∧ Q x := by
  obtain ⟨x, q, hexec, hx, -⟩ := h.asks ha
  exact ⟨x, congrArg Prod.fst (Engine.exec_query hexec), hx⟩

theorem navigates_of_live [Codec] (h : Live path point p d m old) : Navigates (.tree p c) d m where
  first := answered_of_does h (Tree.does_first h.current)
  last := answered_of_does h (Tree.does_last h.current)
  next key := answered_of_does h (Tree.does_next h.current key)
  prev key := answered_of_does h (Tree.does_prev h.current key)
  seek key mode := answered_of_does h (Tree.does_seek h.current key mode)

end

/-- **The neighbours of a key are those in the map**, whether the key is there or not. -/
theorem neighbours_as_map [Codec] [Codec.Lawful] {path : String} {o : Options} {s : Session}
    {calls : List Call} (h : Begins path o s) (hc : Proper o.crashPoint calls) :
    ∃ e, (s.run path calls).2.engine = some e ∧
      Navigates e (s.run path calls).2.disk
        (Ledger.followed {} (calls.zip (s.run path calls).1)).current := by
  obtain ⟨_, p, c, hengine, hlive⟩ := h.stands.run hc
  exact ⟨_, hengine, navigates_of_live hlive⟩

/-- A neighbour is found in another leaf. -/
theorem neighbours_as_map_six_records :
    ∃ e, (onEmptyFile.run "a" sixRecords).2.engine = some e ∧
      ((Engine.next [3]).exec e (onEmptyFile.run "a" sixRecords).2.disk).1 =
        .ok (some ([4], List.replicate 118 4)) := by
  obtain ⟨e, hengine, hnav⟩ := neighbours_as_map begins_onEmptyFile proper_sixRecords
  refine ⟨e, hengine, ?_⟩
  obtain ⟨r, hr, hleast⟩ := hnav.next [3]
  rw [run_sixRecords] at hleast
  have hfirst := Contents.isLeast_find? (m := (Ledger.followed {} (sixRecords.zip
    (List.replicate 6 (.ok .done)))).current) (p := fun k => compare [3] k == .lt)
    (P := KeyLt [3]) fun k => beq_iff_eq
  rw [hr, hleast.isNearest.unique hfirst.isNearest]
  decide +kernel

end Session

end PagedStore
