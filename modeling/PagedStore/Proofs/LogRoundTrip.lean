import PagedStore.Log.Writer
import PagedStore.Proofs.FileContents
import PagedStore.Proofs.LogRecovery

/-!
# Reading back what was written

Entries that are appended to an empty log are read back in their order, and the reader has then
come as far as the writer. Of a log that was cut off, the entries are read back that end before the
cut, and the reader stops there as at the end of a log: whatever it finds, it calls it damage.
-/

set_option autoImplicit false

namespace PagedStore.Log

open Bytes

/-! ## How far a reader comes -/

namespace Reader

/-- Where the log of a reader ends, as long as the reader has lost nothing. -/
def extent (r : Reader) : Nat := r.position + r.rest.length

theorem extent_fragment {r s : Reader} {f : Fragment} (h : r.fragment = (.ok (some f), s)) :
    s.extent = r.extent := by
  unfold fragment at h
  dsimp only at h
  split at h
  · cases h
  split at h
  · cases h
  split at h
  · cases h
  rename_i hbody
  obtain ⟨-, rfl⟩ := Prod.mk.inj h
  rw [List.length_take] at hbody
  simp only [extent, List.length_drop]
  omega

theorem extent_assemble {sofar : Option Bytes} {r s : Reader} {bs : Bytes}
    (h : r.assemble sofar = (.ok (some bs), s)) : s.extent = r.extent := by
  fun_induction assemble sofar r with
  | case1 => cases h
  | case2 => cases h
  | case3 => cases h
  | case4 r f s' hf =>
      obtain ⟨-, rfl⟩ := Prod.mk.inj h
      exact extent_fragment hf
  | case5 r f s' hf _ ih => exact (ih h).trans (extent_fragment hf)
  | case6 r f s' hf _ _ ih => exact (ih h).trans (extent_fragment hf)
  | case7 r f s' hf =>
      obtain ⟨-, rfl⟩ := Prod.mk.inj h
      exact extent_fragment hf
  | case8 => cases h

/-- A reader of a whole log reads all records and comes to the end. -/
theorem readAll_frames {rs : List Bytes} (hne : ∀ bs ∈ rs, bs ≠ []) (pos : Nat) :
    readAll ⟨rs.flatMap frame, pos⟩ = (rs, ⟨[], pos + (rs.flatMap frame).length⟩) := by
  induction rs generalizing pos with
  | nil =>
      rw [List.flatMap_nil, readAll_of_ends (ends_next_nil pos), next_nil]
      rfl
  | cons bs rs ih =>
      rw [List.flatMap_cons]
      obtain ⟨pos', hnext⟩ :=
        (brings_frame (hne bs List.mem_cons_self)).whole (rs.flatMap frame) pos
      have hextent := extent_assemble hnext
      simp only [extent, List.length_append] at hextent
      rw [readAll_of_next hnext, ih (fun r hr => hne r (List.mem_cons_of_mem _ hr)),
        List.length_append, hextent]

end Reader

/-! ## What a reader calls damage -/

/-- A failure to read that is put down to a damaged log. -/
def Damage (e : Error) : Prop := ∃ text, e = .corrupt text

theorem Fragment.decode_eq_error {bs : Bytes} {e : Error} (h : Fragment.decode bs = .error e) :
    Damage e := by
  unfold Fragment.decode at h
  split at h
  · exact ⟨_, (Except.error.inj h).symm⟩
  · cases hkind : FragmentKind.ofTag ((bs.drop 6).headD 0) with
    | error e' =>
        rw [hkind] at h
        obtain rfl := Except.error.inj h
        unfold FragmentKind.ofTag at hkind
        split_ifs at hkind
        exact ⟨_, (Except.error.inj hkind).symm⟩
    | ok kind =>
        rw [hkind] at h
        simp only [bind, Except.bind] at h
        split_ifs at h <;> exact ⟨_, (Except.error.inj h).symm⟩

namespace Reader

theorem fragment_eq_error {r s : Reader} {e : Error} (h : r.fragment = (.error e, s)) :
    Damage e := by
  unfold fragment at h
  dsimp only at h
  split at h
  · cases h
  split at h
  · exact ⟨_, (Except.error.inj (Prod.mk.inj h).1).symm⟩
  split at h
  · exact ⟨_, (Except.error.inj (Prod.mk.inj h).1).symm⟩
  · have hdecode := (Prod.mk.inj h).1
    cases hd : Fragment.decode (r.rest.take
        (frameLength + Fragment.announced (r.rest.take frameLength))) with
    | error e' =>
        rw [hd] at hdecode
        obtain rfl := Except.error.inj hdecode
        exact Fragment.decode_eq_error hd
    | ok f =>
        rw [hd] at hdecode
        cases hdecode

theorem assemble_eq_error {sofar : Option Bytes} {r s : Reader} {e : Error}
    (h : r.assemble sofar = (.error e, s)) : Damage e := by
  fun_induction assemble sofar r with
  | case1 =>
      obtain ⟨he, -⟩ := Prod.mk.inj h
      obtain rfl := Except.error.inj he
      exact fragment_eq_error ‹_›
  | case2 => exact ⟨_, (Except.error.inj (Prod.mk.inj h).1).symm⟩
  | case3 => cases h
  | case4 => cases h
  | case5 r f s' hf _ ih => exact ih h
  | case6 r f s' hf _ _ ih => exact ih h
  | case7 => cases h
  | case8 => exact ⟨_, (Except.error.inj (Prod.mk.inj h).1).symm⟩

end Reader

/-! ## What the log holds of entries -/

/-- The bytes that the log holds of entries. -/
def framed (es : List Entry) : Bytes := es.flatMap fun e => frame e.encode

theorem framed_eq (es : List Entry) : framed es = (es.map Entry.encode).flatMap frame := by
  rw [List.flatMap_map]
  rfl

theorem framed_cons (e : Entry) (es : List Entry) :
    framed (e :: es) = frame e.encode ++ framed es := List.flatMap_cons

theorem encoded_ne_nil (es : List Entry) : ∀ bs ∈ es.map Entry.encode, bs ≠ [] := by
  intro bs hbs
  obtain ⟨e, -, rfl⟩ := List.mem_map.1 hbs
  exact e.encode_ne_nil

theorem map_decode_encode {es : List Entry} (h : ∀ e ∈ es, e.Writable) :
    (es.map Entry.encode).map Entry.decode = es.map .ok := by
  rw [List.map_map]
  exact List.map_congr_left fun e he => Entry.decode_encode (h e he)

/-- Of a log that was cut off, the entries are read that end before the cut. -/
theorem records_take_framed (es : List Entry) (k : Nat) :
    ∃ j ≤ es.length, records ((framed es).take k) = (es.take j).map Entry.encode ∧
      ∀ i < es.length, i < j ↔ (framed (es.take (i + 1))).length ≤ k := by
  obtain ⟨j, hj, hread, hfit⟩ := readAll_take _ (encoded_ne_nil es) k 0
  rw [List.length_map] at hj hfit
  refine ⟨j, hj, ?_, fun i hi => ?_⟩
  · rw [framed_eq, records, hread, List.map_take]
  · rw [← Nat.succ_le_iff, hfit (i + 1) hi, framed_eq, List.map_take]

namespace Writer

variable {w w' : Writer} {d d' : Disk}

/-- What appending entries does to the file of a log. -/
structure Appended (w : Writer) (d : Disk) (es : List Entry) (w' : Writer) (d' : Disk) : Prop where
  path : w'.path = w.path
  file : w'.file = w.file
  size : w'.size = w.size + (framed es).length
  shape : d.SameShape d'
  contents : d'.readAll w.file = d.readAll w.file ++ framed es

theorem appended (es : List Entry) (h : w.file < d.nodes.size) :
    Appended w d es (w.appendEntries es d).1 (w.appendEntries es d).2 := by
  induction es generalizing w d with
  | nil => exact ⟨rfl, rfl, rfl, .refl d, (List.append_nil _).symm⟩
  | cons e es ih =>
      have hfirst : d.SameShape (d.append w.file (frame e.encode)) := .append ..
      have hrest := ih (w := (w.appendEntry e d).1) (d := (w.appendEntry e d).2)
        (h.trans_eq hfirst.size.symm)
      refine ⟨hrest.path, hrest.file, ?_, hfirst.trans hrest.shape, ?_⟩
      · rw [appendEntries, List.foldl_cons]
        refine hrest.size.trans ?_
        rw [framed_cons, List.length_append]
        exact Nat.add_assoc ..
      · refine hrest.contents.trans ?_
        show (d.append w.file (frame e.encode)).readAll w.file ++ _ = _
        rw [Disk.readAll_append_self h, List.append_assoc, framed_cons]

end Writer

/-- **The log reads back what was written, up to any cut.** Entries appended to an empty log are
all of its file, as long as the writer says, and are read back with the reader at the end. Cut off
to any length, the log gives the entries that end before the cut. A failure on the way to the next
record is always one that a reader of all records takes for the end of the log. -/
theorem reads_back_appended {path : String} {d d₁ d' : Disk} {w w' : Writer} {es : List Entry}
    (hlive : d.NamesLive) (hcreate : Writer.create path d = .ok (w, d₁))
    (hempty : d₁.readAll w.file = []) (hes : ∀ e ∈ es, e.Writable)
    (happend : w.appendEntries es d₁ = (w', d')) :
    d'.find? path = some w'.file ∧ d'.readAll w'.file = framed es ∧
      (d'.readAll w'.file).length = w'.size ∧
      (Reader.readAll ⟨d'.readAll w'.file, 0⟩).1.map Entry.decode = es.map .ok ∧
      (Reader.readAll ⟨d'.readAll w'.file, 0⟩).2.position = w'.size ∧
      (∀ k ≤ w'.size, ∃ j ≤ es.length,
        (records ((d'.truncate w'.file k).readAll w'.file)).map Entry.decode =
          (es.take j).map .ok ∧
        ∀ i < es.length, i < j ↔ (framed (es.take (i + 1))).length ≤ k) ∧
      ∀ (r s : Reader) (e : Error), r.next = (.error e, s) → Damage e := by
  obtain ⟨hfile, hname, hsize⟩ : w.file < d₁.nodes.size ∧ d₁.find? path = some w.file ∧
      w.size = d₁.size w.file := by
    rw [Writer.create] at hcreate
    split at hcreate
    · cases hcreate
    · rename_i file d₂ hopen
      obtain ⟨rfl, rfl⟩ := Prod.mk.inj (Except.ok.inj hcreate)
      rcases Disk.openToWrite_eq_ok hopen with ⟨hfind, -, rfl⟩ | ⟨-, rfl, rfl⟩
      · exact ⟨hlive _ _ hfind, hfind, rfl⟩
      · exact ⟨by rw [Disk.size_nodes_make]; exact Nat.lt_succ_self _,
          Disk.find?_make_self .., rfl⟩
  have h := Writer.appended es hfile
  rw [happend] at h
  have hzero : w.size = 0 := hsize.trans (congrArg List.length hempty)
  have hcontents : d'.readAll w'.file = framed es := by
    rw [h.file, h.contents, hempty, List.nil_append]
  have hlength : w'.size = (framed es).length := by rw [h.size, hzero, Nat.zero_add]
  have hread := Reader.readAll_frames (encoded_ne_nil es) 0
  rw [← framed_eq, Nat.zero_add] at hread
  refine ⟨by rw [h.shape.find?, hname, h.file], hcontents, by rw [hcontents, hlength], ?_, ?_,
    fun k hk => ?_, fun r s e => Reader.assemble_eq_error⟩
  · rw [hcontents, hread, map_decode_encode hes]
  · rw [hcontents, hread, hlength]
  · obtain ⟨j, hj, hrecords, hfit⟩ := records_take_framed es k
    have hcut : (d'.truncate w'.file k).readAll w'.file = (framed es).take k := by
      rw [Disk.readAll_truncate_self (by rw [h.file, h.shape.size]; exact hfile), hcontents,
        resize, Nat.sub_eq_zero_of_le (by omega), List.replicate_zero, List.append_nil]
    refine ⟨j, hj, ?_, hfit⟩
    rw [hcut, hrecords, map_decode_encode fun e he => hes e (List.mem_of_mem_take he)]

/-! ## A transaction with a page of two fragments -/

/-- A disk with an empty log. -/
def emptyLog : Disk := ⟨[("a.wal", 0)], #[⟨false, .empty, .free⟩]⟩

theorem namesLive_emptyLog : emptyLog.NamesLive := by
  intro name n h
  rw [Disk.find?, emptyLog, List.lookup_cons, List.lookup_nil] at h
  split at h
  · obtain rfl := Option.some.inj h
    decide
  · cases h

/-- A transaction that changes one page of 40000 bytes. -/
def longPage : List Entry :=
  [.begin 1, .page 1 (List.replicate 40000 0), .header [9], .commit 1 1]

theorem reads_back_appended_long_page :
    ∃ w d', Writer.appendEntries longPage ⟨"a.wal", 0, 0⟩ emptyLog = (w, d') ∧
      (Reader.readAll ⟨d'.readAll w.file, 0⟩).1.map Entry.decode = longPage.map .ok := by
  have hes : ∀ e ∈ longPage, e.Writable := by
    intro e he
    simp only [longPage, List.mem_cons, List.not_mem_nil, or_false] at he
    rcases he with rfl | rfl | rfl | rfl
    · trivial
    · rw [Entry.Writable, List.length_replicate]
      decide
    · show 1 < 2 ^ 64
      decide
    · trivial
  have hcreate : Writer.create "a.wal" emptyLog = .ok (⟨"a.wal", 0, 0⟩, emptyLog) := rfl
  exact ⟨_, _, rfl, (reads_back_appended namesLive_emptyLog hcreate rfl hes rfl).2.2.2.1⟩

end PagedStore.Log
