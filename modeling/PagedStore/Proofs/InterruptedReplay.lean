import Mathlib.Data.List.GetD
import PagedStore.Proofs.PagerHistory

/-!
# Replays that were cut short

Carrying out the transactions of a log is a sequence of writes into the main file, in which later
writes may cover earlier ones and lengthen the file. A replay that is cut short anywhere, within a
write as well, leaves nothing behind that a whole replay does not make up for: every byte that it
changed is one that some write covers, and the last write that covers a byte decides on it
whatever was there before. The same goes for the length, which is the largest that any write makes
necessary.
-/

set_option autoImplicit false

namespace PagedStore

namespace Bytes

/-! ## Bytes by their places -/

/-- The byte at a place, zero beyond the end. -/
def byteAt (bs : Bytes) (i : Nat) : UInt8 := bs.getD i 0

theorem ext_byteAt {a b : Bytes} (hlen : a.length = b.length) (h : ∀ i, byteAt a i = byteAt b i) :
    a = b := by
  refine List.ext_getElem hlen fun i hi hi' => ?_
  have hbyte := h i
  rwa [byteAt, byteAt, List.getD_eq_getElem _ _ hi, List.getD_eq_getElem _ _ hi'] at hbyte

theorem byteAt_append_left {a : Bytes} (b : Bytes) {i : Nat} (h : i < a.length) :
    byteAt (a ++ b) i = byteAt a i := List.getD_append _ _ _ _ h

theorem byteAt_append_right {a : Bytes} (b : Bytes) {i : Nat} (h : a.length ≤ i) :
    byteAt (a ++ b) i = byteAt b (i - a.length) := List.getD_append_right _ _ _ _ h

theorem byteAt_resize {n i : Nat} (h : i < n) (bs : Bytes) :
    byteAt (resize n bs) i = byteAt bs i := by
  simp only [byteAt, List.getD_eq_getElem?_getD, resize]
  rcases Nat.lt_or_ge i bs.length with hi | hi
  · rw [List.getElem?_append_left (by rw [List.length_take]; omega), List.getElem?_take_of_lt h]
  · rw [List.getElem?_append_right (by rw [List.length_take]; omega),
      List.getElem?_replicate_of_lt (by rw [List.length_take]; omega),
      List.getElem?_eq_none hi]
    rfl

/-- A write decides on the bytes in its place and on no others. -/
theorem byteAt_patch (at' : Nat) (new old : Bytes) (i : Nat) :
    byteAt (patch at' new old) i =
      if at' ≤ i ∧ i < at' + new.length then byteAt new (i - at') else byteAt old i := by
  by_cases hne : new = []
  · rw [hne, patch_nil, if_neg (by simp)]
  have hlen : (resize at' old).length = at' := length_resize at' old
  rw [patch, if_neg hne]
  rcases Nat.lt_or_ge i at' with hbefore | hfrom
  · rw [byteAt_append_left _ (by omega), byteAt_resize hbefore, if_neg (by omega)]
  rw [byteAt_append_right _ (by omega), hlen]
  rcases Nat.lt_or_ge i (at' + new.length) with hin | hbehind
  · rw [byteAt_append_left _ (by omega), if_pos ⟨hfrom, hin⟩]
  · rw [byteAt_append_right _ (by omega), if_neg (by omega), byteAt, byteAt,
      List.getD_eq_getElem?_getD, List.getD_eq_getElem?_getD, List.getElem?_drop]
    congr 2
    omega

/-! ## Sequences of writes -/

/-- A byte string after writes, each of which is a place and what is written there. -/
def patches (ws : List (Nat × Bytes)) (bs : Bytes) : Bytes :=
  ws.foldl (fun bs w => patch w.1 w.2 bs) bs

/-- Whether some write covers a place. -/
def Covers (ws : List (Nat × Bytes)) (i : Nat) : Prop :=
  ∃ w ∈ ws, w.1 ≤ i ∧ i < w.1 + w.2.length

/-- The length that a write makes necessary. -/
def reach (w : Nat × Bytes) : Nat := if w.2 = [] then 0 else w.1 + w.2.length

/-- The length that writes make necessary. -/
def reachAll (ws : List (Nat × Bytes)) : Nat := ws.foldr (fun w n => max (reach w) n) 0

variable {ws ws' : List (Nat × Bytes)}

theorem patches_cons (w : Nat × Bytes) (ws : List (Nat × Bytes)) (bs : Bytes) :
    patches (w :: ws) bs = patches ws (patch w.1 w.2 bs) := rfl

theorem reachAll_cons (w : Nat × Bytes) (ws : List (Nat × Bytes)) :
    reachAll (w :: ws) = max (reach w) (reachAll ws) := rfl

theorem length_patches (ws : List (Nat × Bytes)) (bs : Bytes) :
    (patches ws bs).length = max bs.length (reachAll ws) := by
  induction ws generalizing bs with
  | nil => exact (Nat.max_zero _).symm
  | cons w ws ih =>
      rw [patches_cons, ih, reachAll_cons, ← Nat.max_assoc]
      congr 1
      by_cases hne : w.2 = []
      · rw [hne, patch_nil, reach, if_pos hne, Nat.max_zero]
      · rw [length_patch hne, reach, if_neg hne]

/-- Where no write covers it a byte stays. -/
theorem byteAt_patches_of_not_covers {i : Nat} (h : ¬ Covers ws i) (bs : Bytes) :
    byteAt (patches ws bs) i = byteAt bs i := by
  induction ws generalizing bs with
  | nil => rfl
  | cons w ws ih =>
      have hw : ¬ (w.1 ≤ i ∧ i < w.1 + w.2.length) := fun hw => h ⟨w, List.mem_cons_self, hw⟩
      have hws : ¬ Covers ws i := fun ⟨x, hx, hi⟩ => h ⟨x, List.mem_cons_of_mem _ hx, hi⟩
      rw [patches_cons, ih hws, byteAt_patch, if_neg hw]

/-- Where writes cover it a byte does not depend on what was there before. -/
theorem byteAt_patches_of_covers {i : Nat} (h : Covers ws i) (a b : Bytes) :
    byteAt (patches ws a) i = byteAt (patches ws b) i := by
  induction ws generalizing a b with
  | nil =>
      obtain ⟨w, hw, -⟩ := h
      cases hw
  | cons w ws ih =>
      rw [patches_cons, patches_cons]
      by_cases hws : Covers ws i
      · exact ih hws _ _
      · -- The first write is the last one that covers the place.
        obtain ⟨x, hx, hi⟩ := h
        rcases List.mem_cons.1 hx with rfl | hx
        · rw [byteAt_patches_of_not_covers hws, byteAt_patches_of_not_covers hws, byteAt_patch,
            byteAt_patch, if_pos hi, if_pos hi]
        · exact absurd ⟨x, hx, hi⟩ hws

/-- Writes make up for others that went no further than they do. -/
theorem patches_patches (hcovers : ∀ i, Covers ws' i → Covers ws i)
    (hreach : reachAll ws' ≤ reachAll ws) (bs : Bytes) :
    patches ws (patches ws' bs) = patches ws bs := by
  refine ext_byteAt ?_ fun i => ?_
  · rw [length_patches, length_patches, length_patches, Nat.max_assoc, Nat.max_eq_right hreach]
  · by_cases hi : Covers ws i
    · exact byteAt_patches_of_covers hi _ _
    · rw [byteAt_patches_of_not_covers hi, byteAt_patches_of_not_covers hi,
        byteAt_patches_of_not_covers fun hi' => hi (hcovers i hi')]

/-! ## Cutting short -/

/-- The first `n` writes, and the next one up to its first `k` bytes. -/
def cutWrites (k : Nat) : (n : Nat) → List (Nat × Bytes) → List (Nat × Bytes)
  | _, [] => []
  | 0, w :: _ => [(w.1, w.2.take k)]
  | n + 1, w :: ws => w :: cutWrites k n ws

theorem covers_of_cutWrites {k n i : Nat} (h : Covers (cutWrites k n ws) i) : Covers ws i := by
  induction ws generalizing n with
  | nil =>
      cases n <;> exact h
  | cons w ws ih =>
      obtain ⟨x, hx, hi⟩ := h
      cases n with
      | zero =>
          obtain rfl := List.mem_singleton.1 hx
          rw [List.length_take] at hi
          exact ⟨w, List.mem_cons_self, hi.1, by omega⟩
      | succ n =>
          rcases List.mem_cons.1 hx with rfl | hx
          · exact ⟨x, List.mem_cons_self, hi⟩
          · obtain ⟨y, hy, hyi⟩ := ih ⟨x, hx, hi⟩
            exact ⟨y, List.mem_cons_of_mem _ hy, hyi⟩

theorem reach_take_le (w : Nat × Bytes) (k : Nat) : reach (w.1, w.2.take k) ≤ reach w := by
  rw [reach, reach]
  dsimp only
  split
  · exact Nat.zero_le _
  · rename_i hne
    rw [if_neg fun h => hne (by rw [h, List.take_nil]), List.length_take]
    omega

theorem reachAll_cutWrites_le (k n : Nat) (ws : List (Nat × Bytes)) :
    reachAll (cutWrites k n ws) ≤ reachAll ws := by
  induction ws generalizing n with
  | nil => cases n <;> exact Nat.le_refl _
  | cons w ws ih =>
      cases n with
      | zero =>
          have hle := reach_take_le w k
          rw [cutWrites, reachAll_cons, reachAll_cons]
          exact Nat.max_le_of_le_of_le (Nat.le_trans hle (Nat.le_max_left _ _)) (Nat.zero_le _)
      | succ n =>
          have hle := ih n
          rw [cutWrites, reachAll_cons, reachAll_cons]
          omega

end Bytes

open Bytes

/-! ## Writes into the main file -/

namespace FileEffect

/-- Writes as changes of the main file. -/
def writes (ws : List (Nat × Bytes)) : List FileEffect := ws.map fun w => .write w.1 w.2

theorem cut_writes (file log : NodeId) (k n : Nat) (ws : List (Nat × Bytes)) (d : Disk) :
    cut file log k n (writes ws) d = performAll file log (writes (cutWrites k n ws)) d := by
  induction ws generalizing n d with
  | nil => cases n <;> rfl
  | cons w ws ih =>
      cases n with
      | zero => rfl
      | succ n => exact ih n _

end FileEffect

namespace Pager

open PagedStore.Action

/-- Two disks that differ from a third one in one file are the same if the file is. -/
theorem OnlyFile.eq {file : NodeId} {d d₁ d₂ : Disk} (h₁ : OnlyFile file d d₁)
    (h₂ : OnlyFile file d d₂) (h : d₁.readAll file = d₂.readAll file) : d₁ = d₂ := by
  have hsize : d₁.nodes.size = d₂.nodes.size := h₁.shape.size.trans h₂.shape.size.symm
  have hnode : ∀ n, d₁.node n = d₂.node n := by
    intro n
    have hall : d₁.readAll n = d₂.readAll n := by
      by_cases hn : n = file
      · rw [hn, h]
      · rw [h₁.others n hn, h₂.others n hn]
    have hcontents : (d₁.node n).contents = (d₂.node n).contents :=
      ByteArray.ext (Array.toList_inj.1 hall)
    have hfolder : (d₁.node n).isFolder = (d₂.node n).isFolder :=
      (h₁.shape.folder n).trans (h₂.shape.folder n).symm
    have hlock : (d₁.node n).lock = (d₂.node n).lock :=
      (h₁.shape.lock n).trans (h₂.shape.lock n).symm
    cases hd₁ : d₁.node n
    cases hd₂ : d₂.node n
    rw [hd₁, hd₂] at hcontents hfolder hlock
    congr
  have hnodes : d₁.nodes = d₂.nodes := by
    refine Array.ext hsize fun n hn hn' => ?_
    have hn'' := hnode n
    rwa [Disk.node, Disk.node, Array.getD_eq_getD_getElem?, Array.getD_eq_getD_getElem?,
      Array.getElem?_eq_getElem hn, Array.getElem?_eq_getElem hn', Option.getD_some,
      Option.getD_some] at hn''
  cases d₁
  cases d₂
  exact congrArg₂ Disk.mk (h₁.shape.names.trans h₂.shape.names.symm) hnodes

theorem performAll_writes {file : NodeId} (log : NodeId) (ws : List (Nat × Bytes)) (d : Disk)
    (hlive : file < d.nodes.size) :
    OnlyFile file d (FileEffect.performAll file log (FileEffect.writes ws) d) ∧
      (FileEffect.performAll file log (FileEffect.writes ws) d).readAll file =
        patches ws (d.readAll file) := by
  induction ws generalizing d with
  | nil => exact ⟨.refl file d, rfl⟩
  | cons w ws ih =>
      obtain ⟨honly, hall⟩ := ih (d.write file w.1 w.2) (by rwa [Disk.size_nodes_write])
      refine ⟨(OnlyFile.write file d w.1 w.2).trans honly, hall.trans ?_⟩
      rw [Disk.readAll_write_self hlive, patches_cons]

/-! ## Replays -/

/-- Whether a transaction can be carried out: its header is one, and its images are as long as
that says. -/
def Replayable (t : Log.Transaction) : Prop :=
  ∃ h, Header.decode t.header = .ok h ∧ ∀ x ∈ t.pages, x.2.length = h.pageSize.toNat

/-- The size of the pages of a transaction. -/
def pageSizeOf (t : Log.Transaction) : Nat :=
  match Header.decode t.header with
  | .ok h => h.pageSize.toNat
  | .error _ => 0

/-- What a replay of transactions writes into the main file, in order. -/
def replayWrites (ts : List Log.Transaction) : List (Nat × Bytes) :=
  ts.flatMap fun t => t.pages.map (fun x => (offset (pageSizeOf t) x.1, x.2)) ++ [(0, t.header)]

/-- Replays that were cut short, one after the other: each of them after some number of writes and
some number of bytes of the next one. -/
def cutReplays (file log : NodeId) (ts : List Log.Transaction) (cuts : List (Nat × Nat))
    (d : Disk) : Disk :=
  cuts.foldl (fun d c => FileEffect.cut file log c.2 c.1 (FileEffect.writes (replayWrites ts)) d) d

/-- A replay does not fail, and its writes are all that it does. -/
theorem exec_replay_eq (file log : NodeId) {ts : List Log.Transaction}
    (h : ∀ t ∈ ts, Replayable t) (d : Disk) :
    (replay file ts).exec () d =
      (.ok (), (), FileEffect.performAll file log (FileEffect.writes (replayWrites ts)) d) := by
  induction ts generalizing d with
  | nil => rfl
  | cons t ts ih =>
      obtain ⟨header, hheader, hlen⟩ := h t List.mem_cons_self
      have hsize : pageSizeOf t = header.pageSize.toNat := by rw [pageSizeOf, hheader]
      rw [replay, exec_bind, exec_ofResult, hheader]
      dsimp only
      rw [exec_bind_ok (exec_replayPages file hlen d)]
      refine (ih (fun x hx => h x (List.mem_cons_of_mem _ hx)) _).trans ?_
      have hwrites : FileEffect.writes (replayWrites (t :: ts)) =
          (t.pages.map fun x => .write (offset header.pageSize.toNat x.1) x.2) ++
            .write 0 t.header :: FileEffect.writes (replayWrites ts) := by
        simp [FileEffect.writes, replayWrites, hsize]
      rw [hwrites, FileEffect.performAll_append, FileEffect.performAll.eq_1 _ _ (t.pages.map _),
        List.foldl_map]
      rfl

/-- Replays that were cut short leave what a whole one makes up for. -/
theorem cutReplays_spec {file : NodeId} (log : NodeId) (ts : List Log.Transaction)
    (cuts : List (Nat × Nat)) (d : Disk) (hlive : file < d.nodes.size) :
    OnlyFile file d (cutReplays file log ts cuts d) ∧
      patches (replayWrites ts) ((cutReplays file log ts cuts d).readAll file) =
        patches (replayWrites ts) (d.readAll file) := by
  induction cuts generalizing d with
  | nil => exact ⟨.refl file d, rfl⟩
  | cons c cuts ih =>
      obtain ⟨honly, hall⟩ := performAll_writes log (cutWrites c.2 c.1 (replayWrites ts)) d hlive
      rw [← FileEffect.cut_writes] at honly hall
      obtain ⟨honly', hall'⟩ := ih _ (hlive.trans_eq honly.shape.size.symm)
      refine ⟨honly.trans honly', hall'.trans ?_⟩
      rw [hall]
      exact patches_patches (fun i => covers_of_cutWrites) (reachAll_cutWrites_le _ _ _) _

/-- **An interrupted replay is harmless.** A replay consists of its writes. After any number of
replays that were cut short, each after any number of writes and any number of bytes of the next
one, a whole replay leaves exactly the disk that one replay alone leaves. So does a replay after a
whole one. -/
theorem replay_after_cut_replays {file : NodeId} (log : NodeId) {ts : List Log.Transaction}
    (hts : ∀ t ∈ ts, Replayable t) {d : Disk} (hlive : file < d.nodes.size)
    (cuts : List (Nat × Nat)) :
    ∃ d', d' = FileEffect.performAll file log (FileEffect.writes (replayWrites ts)) d ∧
      (replay file ts).exec () d = (.ok (), (), d') ∧
      (replay file ts).exec () (cutReplays file log ts cuts d) = (.ok (), (), d') ∧
      (replay file ts).exec () d' = (.ok (), (), d') := by
  -- A whole replay is one that was cut behind its last write, so it is enough to look at cuts.
  have hafter : ∀ cuts, (replay file ts).exec () (cutReplays file log ts cuts d) =
      (replay file ts).exec () d := by
    intro cuts
    obtain ⟨honly, hsame⟩ := cutReplays_spec log ts cuts d hlive
    obtain ⟨honly₁, hall₁⟩ := performAll_writes log (replayWrites ts) d hlive
    obtain ⟨honly₂, hall₂⟩ := performAll_writes log (replayWrites ts)
      (cutReplays file log ts cuts d) (hlive.trans_eq honly.shape.size.symm)
    rw [exec_replay_eq file log hts, exec_replay_eq file log hts]
    rw [OnlyFile.eq (honly.trans honly₂) honly₁ (by rw [hall₁, hall₂, hsame])]
  have hwhole := exec_replay_eq file log hts d
  refine ⟨_, rfl, hwhole, (hafter cuts).trans hwhole, ?_⟩
  have hcut := hafter [((FileEffect.writes (replayWrites ts)).length, 0)]
  rw [cutReplays, List.foldl_cons, List.foldl_nil,
    FileEffect.cut_of_length_le (Nat.le_refl _)] at hcut
  exact hcut.trans hwhole

/-! ## Two transactions that change the same page -/

/-- A transaction that fills a page with a byte. -/
def filling (txn : UInt64) (byte : UInt8) : Log.Transaction :=
  ⟨txn, (Header.fresh 512).encode, [(1, List.replicate 512 byte)]⟩

theorem replayable_filling (txn : UInt64) (byte : UInt8) : Replayable (filling txn byte) := by
  refine ⟨Header.fresh 512, ?_, ?_⟩
  · have htake := Header.take_encode (h := Header.fresh 512) (by decide)
    exact (Header.decode_of_take htake).trans rfl
  · intro x hx
    rw [List.mem_singleton.1 hx]
    exact List.length_replicate

theorem replay_after_cut_replays_same_page :
    ∃ d', (replay 0 [filling 1 7, filling 2 8]).exec () emptyFiles = (.ok (), (), d') ∧
      (replay 0 [filling 1 7, filling 2 8]).exec ()
        (cutReplays 0 1 [filling 1 7, filling 2 8] [(3, 100), (0, 17)] emptyFiles) =
          (.ok (), (), d') := by
  have hts : ∀ t ∈ [filling 1 7, filling 2 8], Replayable t := by
    intro t ht
    simp only [List.mem_cons, List.not_mem_nil, or_false] at ht
    rcases ht with rfl | rfl <;> exact replayable_filling _ _
  obtain ⟨d', -, hwhole, hcut, -⟩ :=
    replay_after_cut_replays 1 hts (show 0 < emptyFiles.nodes.size by decide) [(3, 100), (0, 17)]
  exact ⟨d', hwhole, hcut⟩

end Pager

end PagedStore
