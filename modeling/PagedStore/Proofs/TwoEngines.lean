import PagedStore.Proofs.Closing
import PagedStore.Proofs.Ledgers
import PagedStore.Proofs.SerialHistories

/-!
# Two engines, one database

A caller cannot tell a database on a new file from one in memory, by whatever calls and in whatever
order: stored and deleted records, look-ups, counts, transactions that are committed or rolled back,
and calls at the wrong time. Both databases follow the same ledger. The exceptions are those of the
ledger: the file may have no room for a record, and its commits may be made to stop, which memory
knows nothing of.
-/

set_option autoImplicit false

namespace PagedStore.Database

open PagedStore.Action Engine Pager

/-! ## Calls one after the other -/

/-- The answers to calls that one caller makes one after the other. -/
def answers [Codec] (caller : Caller) : List Call → Database → Disk → List (Except Error Reply)
  | [], _, _ => []
  | c :: cs, db, d =>
      let (answer, db, d) := (c.run caller).exec db d
      answer :: answers caller cs db d

/-- The answers that a ledger gives. -/
def Ledger.answers (caller : Caller) : List Call → Ledger → List (Except Error Reply)
  | [], _ => []
  | c :: cs, l => l.answer caller c :: Ledger.answers caller cs (l.after caller c)

section

variable {place : Place} {auto : Bool} {path : String} {db db' : Database} {d d' : Disk}
  {ledger : Ledger} {l l' : Library} {caller : Caller} {o : Options}

variable [Codec]

/-- **A database answers as its ledger**, as long as no record is refused and no commit is made to
stop. -/
theorem Follows.answers_eq [Codec.Lawful] (h : Follows place auto db d ledger)
    (hsettles : auto = true ∨ place = .memory) (calls : List Call)
    (hserved : ∀ e, .error e ∈ answers caller calls db d → ¬ place.Refuses e ∧ ¬ place.Stops e) :
    answers caller calls db d = ledger.answers caller calls := by
  induction calls generalizing db d ledger with
  | nil => rfl
  | cons c calls ih =>
      have hserve := h.serve (hsettles.imp_right .inl) caller c
      rw [answers] at hserved ⊢
      rw [Ledger.answers]
      generalize (c.run caller).exec db d = outcome at hserve hserved ⊢
      cases hserve with
      | answered hnext =>
          dsimp only at hserved ⊢
          rw [ih hnext fun e he => hserved e (List.mem_cons_of_mem _ he)]
      | refused _ _ hrefuses => exact absurd hrefuses (hserved _ List.mem_cons_self).1
      | stopped hstops _ => exact absurd hstops (hserved _ List.mem_cons_self).2

/-! ## Opening -/

/-- A database in memory begins with an empty ledger. -/
theorem follows_of_open_memory (hopen : («open» memoryPath o).exec l d = (.ok db, l', d')) :
    Follows .memory o.autoCommit db d' { readOnly := o.readOnly } := by
  obtain ⟨-, e, hengine, rfl⟩ := open_eq_ok hopen
  rw [openEngine, if_pos rfl] at hengine
  obtain ⟨rfl, -, rfl⟩ := exec_ok_inj hengine
  exact ⟨⟨rfl, rfl, rfl, fun _ => Place.memory_ne_reader, fun h => absurd h Bool.false_ne_true⟩,
    .memory {} Memory.Contents.maps_empty .none _⟩

/-- What the place of a new file is, to write or to read. -/
def placeOf (path : String) (o : Options) : Place :=
  if o.readOnly then .reader else .file path o.crashPoint

/-- A database on a new file begins with an empty ledger. -/
theorem follows_of_open_file (hnew : d.New path) (hpath : path ≠ memoryPath)
    (hopen : («open» path o).exec l d = (.ok db, l', d')) :
    Follows (placeOf path o) o.autoCommit db d' { readOnly := o.readOnly } := by
  obtain ⟨hvalid, e, hengine, rfl⟩ := open_eq_ok hopen
  rw [openEngine, if_neg hpath] at hengine
  obtain ⟨p, ⟨⟩, d₁, hpager, hrest⟩ := of_exec_bind_ok hengine
  obtain ⟨rfl, -, rfl⟩ := exec_ok_inj hrest
  have hsize := pageSize_of_validate hvalid
  rw [placeOf]
  cases ho : o.readOnly with
  | true =>
      have hreads := reads_of_blank hnew.main hnew.log hsize ho hpager
      exact ⟨⟨rfl, rfl, rfl, fun h => absurd h.symm Bool.false_ne_true,
        fun h => absurd h Bool.false_ne_true⟩, .reader hreads⟩
  | false =>
      obtain ⟨file, log, rfl, hready⟩ := fresh_of_open hnew ho hsize hpager
      exact ⟨⟨rfl, rfl, rfl, fun _ => Place.file_ne_reader _ _,
        fun h => absurd h Bool.false_ne_true⟩, stands_file _ (.of_fresh hready) rfl⟩

/-! ## The main result -/

/-- **A database on a new file answers as one in memory.** One caller makes the same calls on both,
in any order. If the file has room for every record, and no commit is made to stop, each call gives
the same value or the same failure in both. In memory it makes no difference whether changes are
committed at once. -/
theorem engines_answer_alike [Codec.Lawful] {o' : Options} {k k' : Library} {d₀ files files' : Disk}
    (hnew : d₀.New path) (hpath : path ≠ memoryPath) (hauto : o.autoCommit = true)
    (hopen : («open» path o).exec l d₀ = (.ok db, l', d))
    (hopen' : («open» memoryPath o').exec k files = (.ok db', k', files'))
    (hro : o'.readOnly = o.readOnly) (calls : List Call)
    (hroom : ∀ e, .error e ∈ answers caller calls db d → ¬ Tree.Refused e)
    (hstops : o.crashPoint = none ∨ ∀ text, .error (.aborted text) ∉ answers caller calls db d) :
    answers caller calls db d = answers caller calls db' files' := by
  have hfile := follows_of_open_file hnew hpath hopen
  have hmemory := follows_of_open_memory hopen'
  rw [hro] at hmemory
  rw [hfile.answers_eq (.inl hauto) calls, hmemory.answers_eq (.inr rfl) calls]
  · exact fun _ _ => ⟨id, id⟩
  · intro e he
    rw [placeOf]
    cases o.readOnly with
    | true => exact ⟨id, id⟩
    | false =>
        refine ⟨hroom e he, fun hstopped => ?_⟩
        rcases hstops with hnone | hnever
        · rw [if_neg Bool.false_ne_true, hnone] at hstopped
          exact hstopped
        · rw [if_neg Bool.false_ne_true] at hstopped
          cases hpoint : o.crashPoint with
          | none =>
              rw [hpoint] at hstopped
              exact hstopped
          | some point =>
              rw [hpoint] at hstopped
              exact hnever _ (hstopped ▸ he)

end

/-! ## One record -/

/-- A record is stored and found in a transaction that is rolled back. -/
def onceStored : List Call := [.begin, .store [1] [2], .find [1], .rollback, .find [1]]

set_option maxRecDepth 4000 in
theorem answers_onceStored [Codec] (d : Disk) :
    answers 0 onceStored (onEmptyFile none) d =
      [.ok .done, .ok .done, .ok (.perhaps (some [2])), .ok .done, .ok (.perhaps none)] := by
  with_unfolding_all rfl

theorem engines_answer_alike_once_stored :
    answers 0 onceStored (onEmptyFile none) (openedFiles none) =
      answers 0 onceStored inMemory emptyFiles := by
  have hroom : ∀ e, .error e ∈ answers 0 onceStored (onEmptyFile none) (openedFiles none) →
      ¬ Tree.Refused e := by
    rw [answers_onceStored]
    simp
  exact engines_answer_alike (o := { pageSize := 512 }) new_emptyFiles (by decide) rfl
    (open_onEmptyFile none) open_inMemory rfl onceStored hroom (.inl rfl)

set_option maxRecDepth 4000 in
theorem answers_stopped [Codec] (d : Disk) :
    answers 0 [.store [1] [2]] (onEmptyFile (some .beforeLogCommit)) d =
      [.error (.aborted "simulated crash at BeforeLogCommit")] := by
  with_unfolding_all rfl

/-- A file whose commits are made to stop answers otherwise, although it has room for the record. -/
theorem engines_differ_when_stopped :
    («open» "a" { pageSize := 512, crashPoint := some .beforeLogCommit }).exec {} emptyFiles =
        (.ok (onEmptyFile (some .beforeLogCommit)), Library.register {},
          openedFiles (some .beforeLogCommit)) ∧
      («open» memoryPath {}).exec {} emptyFiles = (.ok inMemory, Library.register {}, emptyFiles) ∧
      answers 0 [.store [1] [2]] (onEmptyFile (some .beforeLogCommit))
          (openedFiles (some .beforeLogCommit)) =
        [.error (.aborted "simulated crash at BeforeLogCommit")] ∧
      answers 0 [.store [1] [2]] inMemory emptyFiles = [.ok .done] :=
  ⟨open_onEmptyFile _, open_inMemory, answers_stopped _, rfl⟩

end PagedStore.Database
