import RaftCore.Log.Append
import RaftCore.Volatile.Bounds

/-!
# Log/Visible — what a log answers while a snapshot is installed

A snapshot is loaded into the volatile state, applied to the storage, and cleared from the volatile
state.  At every stage there is one `point` the entries continue: the loaded snapshot, else the
storage's.  `FirstIndex` and `LastIndex` are read off it,

    FirstIndex() = point + 1        LastIndex() = point + number of entries

and `TermOf` answers from the point on — and at the storage's own point (`answers_iff`).  Between
the load of a newer snapshot and its application the two points differ, and an index that has been
compacted away still matches; at every other stage the log is exactly one window (`oneWindow_iff`).
-/

namespace RaftCore

open Window Runs

namespace RaftLog

/-! ## Readings of a log -/

/-- `TermOf` succeeds. -/
def Answers (log : RaftLog) (index : UInt64) : Prop := ∃ term, log.termOf index = .ok (some term)

/-- **The log is one window**: it answers between its first and its last index, and nothing matches
below. -/
def OneWindow (log : RaftLog) : Prop :=
  (∀ i, log.Answers i ↔ log.firstIndex - 1 ≤ i ∧ i ≤ log.lastIndex) ∧
    ∀ i term, i < log.firstIndex - 1 → log.matchAt i term = .ok false

/-- No snapshot is loaded but the one at the storage's own index. -/
def Settled (log : RaftLog) : Prop :=
  ∀ s ∈ log.volatileState.snapshot, s.snapshotMetadata.index = log.storage.front.index

instance (log : RaftLog) : Decidable log.Settled :=
  inferInstanceAs (Decidable (∀ s ∈ log.volatileState.snapshot, _))

/-- The entry the volatile entries continue: the loaded snapshot's, else the storage's. -/
def point (log : RaftLog) : Entry :=
  match log.volatileState.snapshot with
  | none => log.storage.front
  | some s => dummyEntry (some s)

/-! ## Installing a snapshot -/

/-- What happens to a log that installs snapshots. -/
inductive InstallOp where
  | load (snapshot : Snapshot)
  | append (entries : List Entry) (offset : UInt64)
  | applySnapshot
  | clearSnapshot

/-- An appended batch is numbered contiguously. -/
def InstallOp.Contiguous : InstallOp → Prop
  | .append entries _ => ∃ b, Numbered Entry.num b entries
  | _ => True

/-- When it may happen: a snapshot is loaded from the last index on, a batch starts above the newest
snapshot and at most one past the last index, the loaded snapshot is applied, then cleared. -/
def Enabled (log : RaftLog) : InstallOp → Prop
  | .load s => log.lastIndex ≤ s.snapshotMetadata.index
  | .append entries offset => ∀ first ∈ firstImported entries offset,
      log.point.num < first.num ∧ first.num ≤ log.lastIndex.toNat + 1
  | .applySnapshot => log.volatileState.snapshot ≠ none
  | .clearSnapshot => log.volatileState.snapshot ≠ none ∧
      log.storage.snapshot = log.volatileState.snapshot

instance (log : RaftLog) : ∀ op, Decidable (log.Enabled op)
  | .load _ => inferInstanceAs (Decidable (_ ≤ _))
  | .append entries offset =>
    inferInstanceAs (Decidable (∀ first ∈ firstImported entries offset, _ ∧ _))
  | .applySnapshot => inferInstanceAs (Decidable (_ ≠ _))
  | .clearSnapshot => inferInstanceAs (Decidable (_ ∧ _))

def perform (log : RaftLog) : InstallOp → Outcome RaftLog
  | .load s => .ok { log with volatileState := log.volatileState.load (some s) }
  | .append entries offset =>
    (log.volatileState.append entries offset).map fun v => { log with volatileState := v }
  | .applySnapshot => match log.volatileState.snapshot with
    | none => .ok log
    | some s => .ok { log with storage := (log.storage.applySnapshot s).2 }
  | .clearSnapshot => match log.volatileState.snapshot with
    | none => .ok log
    | some s => .ok { log with
      volatileState := (log.volatileState.clearSnapshot s.snapshotMetadata.index).2 }

def install (log : RaftLog) (op : InstallOp) : Option RaftLog :=
  if log.Enabled op then (log.perform op).toOption else none

/-- An import lands where the volatile state cuts right. -/
def ImportsRight (log : RaftLog) : InstallOp → Prop
  | .append entries offset => ∀ first ∈ firstImported entries offset,
      log.volatileState.LandsRight first.num
  | _ => True

instance (log : RaftLog) : ∀ op, Decidable (log.ImportsRight op)
  | .append entries offset =>
    inferInstanceAs (Decidable (∀ first ∈ firstImported entries offset, _))
  | .load _ | .applySnapshot | .clearSnapshot => isTrue trivial

/-! ## The invariant -/

/-- **The volatile entries continue the point**, and the storage is not ahead of it. -/
structure Windowed (log : RaftLog) : Prop where
  follows : log.volatileState.Follows log.point
  storage_le : log.storage.front.num ≤ log.point.num

variable {log log' : RaftLog} {op : InstallOp}

theorem point_of_none (h : log.volatileState.snapshot = none) : log.point = log.storage.front := by
  rw [point, h]

theorem point_of_some {s : Snapshot} (h : log.volatileState.snapshot = some s) :
    log.point = dummyEntry (some s) := by rw [point, h]

theorem windowed_ofStorage (st : MemoryStorage) : (ofStorage st).Windowed where
  follows := ⟨congrArg (· + 1) st.lastIndex_eq, trivial⟩
  storage_le := le_rfl

namespace Windowed

theorem firstIndex_sub_one (log : RaftLog) : log.firstIndex - 1 = log.point.index := by
  rw [firstIndex, VolatileState.firstUnstableIndex, point]
  cases log.volatileState.snapshot with
  | none => exact log.storage.firstIndex_sub_one
  | some s => exact Word64.add_one_sub_one _

theorem lastIndex_toNat (h : log.Windowed) :
    log.lastIndex.toNat = log.point.num + log.volatileState.entries.length := by
  rw [lastIndex]
  rcases eq_or_ne log.volatileState.entries [] with hnil | hne
  · rw [VolatileState.lastIndex_of_nil hnil, hnil, point]
    cases log.volatileState.snapshot with
    | none => exact congrArg UInt64.toNat log.storage.lastIndex_eq
    | some s => rfl
  · rw [VolatileState.lastIndex_of_ne hne]
    exact h.follows.getLast hne

/-- **A log answers from its point to its last index, and at the storage's point.** -/
theorem answers_iff (h : log.Windowed) (i : UInt64) : log.Answers i ↔
    log.point.index ≤ i ∧ i ≤ log.lastIndex ∨ i = log.storage.front.index := by
  have hend := h.follows.end_le
  have hwin : log.point.index ≤ i ∧ i ≤ log.lastIndex ↔
      (lookup (log.point.num + 1) log.volatileState.entries i.toNat).isSome ∨
        i = log.point.index := by
    rw [UInt64.le_iff_toNat_le, UInt64.le_iff_toNat_le, h.lastIndex_toNat, lookup_isSome,
      ← UInt64.toNat_inj, ← Entry.num]
    omega
  rw [Answers, termOf, VolatileState.termOf_eq h.follows.contiguous, h.follows.lookup_eq, hwin]
  simp only [Outcome.ok_bind, MemoryStorage.termOf_eq, VolatileState.snapshotTerm]
  cases lookup (log.point.num + 1) log.volatileState.entries i.toNat with
  | some ent => simp
  | none =>
    cases hs : log.volatileState.snapshot with
    | none =>
      rw [point_of_none hs]
      by_cases hi : i = log.storage.front.index <;> simp [hi]
    | some s =>
      have hpt : log.point.index = s.snapshotMetadata.index := by rw [point_of_some hs]; rfl
      rw [hpt]
      by_cases hp : s.snapshotMetadata.index = i
      · simp [hp]
      · simp only [if_neg hp, Ne.symm hp]
        by_cases hi : i = log.storage.front.index <;> simp [hi]

theorem settled_iff (log : RaftLog) :
    log.Settled ↔ log.storage.front.index = log.point.index := by
  rw [Settled]
  cases hs : log.volatileState.snapshot with
  | none => simp [point_of_none hs]
  | some s => simp [point_of_some hs, dummyEntry, eq_comm]

/-- **The log is one window exactly when no newer snapshot waits for the storage.** -/
theorem oneWindow_iff_settled (h : log.Windowed) : log.OneWindow ↔ log.Settled := by
  rw [settled_iff, OneWindow, firstIndex_sub_one]
  have hle := h.lastIndex_toNat
  constructor
  · rintro ⟨hwin, -⟩
    -- the storage's own point is answered, so it lies in the window
    have hin := ((hwin log.storage.front.index).mp ((h.answers_iff _).mpr (Or.inr rfl))).1
    exact Word64.eq_of_toNat (le_antisymm h.storage_le (UInt64.le_iff_toNat_le.mp hin))
  · intro heq
    have hwin : ∀ i, log.Answers i ↔ log.point.index ≤ i ∧ i ≤ log.lastIndex := by
      intro i
      rw [h.answers_iff, or_iff_left_iff_imp]
      rintro rfl
      rw [heq, UInt64.le_iff_toNat_le, UInt64.le_iff_toNat_le, hle]
      exact ⟨le_rfl, Nat.le_add_right _ _⟩
    refine ⟨hwin, fun i term hi => ?_⟩
    have hnot : ¬log.Answers i := fun hc => UInt64.not_le.mpr hi ((hwin i).mp hc).1
    obtain ⟨held, hheld⟩ : ∃ held, log.termOf i = .ok held := by
      rw [termOf, VolatileState.termOf_eq h.follows.contiguous]
      simp only [Outcome.ok_bind]
      split <;> exact ⟨_, rfl⟩
    rw [matchAt, hheld]
    cases held with
    | none => rfl
    | some t => exact absurd ⟨t, hheld⟩ hnot

/-! ## One step -/

theorem append (h : log.Windowed) {entries : List Entry} {offset : UInt64} {v : VolatileState}
    {b : ℕ} (hb : Numbered Entry.num b entries) (hen : log.Enabled (.append entries offset))
    (hr : log.ImportsRight (.append entries offset))
    (happ : log.volatileState.append entries offset = .ok v) :
    RaftLog.Windowed { log with volatileState := v } := by
  cases hfirst : firstImported entries offset with
  | none =>
    rw [VolatileState.append_of_not_imported hfirst] at happ
    obtain rfl := Except.ok.inj happ
    exact h
  | some first =>
    obtain ⟨hlow, hhigh⟩ := hen first hfirst
    obtain ⟨hsize, hget⟩ := VolatileState.firstImported_eq_some.mp hfirst
    have hk : offset.toNat < entries.length := (List.getElem?_eq_some_iff.mp hget).1
    have hnum : first.num = b + offset.toNat := hb.getElem? hget
    have hlen : entries.length < 2 ^ 64 := by
      -- a batch of `2^64` entries has size 0
      have hle : b + entries.length ≤ 2 ^ 64 := length_lt_of_numbered hb (by
        have := first.num_lt; omega)
      refine lt_of_le_of_ne (by omega) fun he => hsize ?_
      rw [he]
      exact UInt64.zero_le
    have hoff := h.follows.offset_toNat (by have := first.num_lt; omega)
    have hend := h.follows.end_le
    have hfit : log.volatileState.endIndex < 2 ^ 64 + first.num := by
      rw [VolatileState.endIndex, hoff]
      omega
    rw [VolatileState.append_of_landsRight h.follows.contiguous hlen hget hfit (hr first hfirst)]
      at happ
    obtain rfl := Except.ok.inj happ
    have hle := (hr first hfirst).le_endIndex
    rw [VolatileState.endIndex, hoff] at hle
    refine ⟨⟨?_, ?_⟩, h.storage_le⟩
    · exact (Word64.stdMin_of_le (by rw [hoff]; exact hlow)).trans h.follows.offset_eq
    · change Numbered Entry.num (log.point.num + 1) (splice log.volatileState.offset.toNat _ _ _)
      rw [hoff]
      exact h.follows.numbered.splice hlow hle (hnum ▸ hb.drop hk.le)

/-- The storage catches up with the point. -/
theorem applySnapshot (h : log.Windowed) {s : Snapshot}
    (hsnap : log.volatileState.snapshot = some s) :
    RaftLog.Windowed { log with storage := (log.storage.applySnapshot s).2 } := by
  have hpoint : RaftLog.point { log with storage := (log.storage.applySnapshot s).2 }
      = log.point := by simp only [point, hsnap]
  have hle := h.storage_le
  rw [point_of_some hsnap] at hle
  refine ⟨hpoint ▸ h.follows, ?_⟩
  rw [hpoint, MemoryStorage.applySnapshot_front (UInt64.le_iff_toNat_le.mpr hle),
    point_of_some hsnap]

/-- The storage takes the point over. -/
theorem clearSnapshot (h : log.Windowed) {s : Snapshot}
    (hsnap : log.volatileState.snapshot = some s)
    (hdone : log.storage.snapshot = log.volatileState.snapshot) : RaftLog.Windowed { log with
      volatileState := (log.volatileState.clearSnapshot s.snapshotMetadata.index).2 } := by
  have hfront : log.storage.front = log.point := by
    rw [MemoryStorage.front_eq, hdone, hsnap, point_of_some hsnap]
  have hfollows := h.follows
  rw [← hfront] at hfollows
  rw [VolatileState.clearSnapshot_held hsnap]
  exact ⟨⟨hfollows.offset_eq, hfollows.numbered⟩, le_rfl⟩

/-- **An enabled step that imports right keeps the invariant.** -/
theorem install (h : log.Windowed) (hop : op.Contiguous) (hr : log.ImportsRight op)
    (hs : log.install op = some log') : log'.Windowed := by
  rw [RaftLog.install] at hs
  split at hs
  swap
  · cases hs
  rename_i hen
  have hok := Outcome.toOption_eq_some.mp hs
  cases op with
  | load s =>
    obtain rfl := Except.ok.inj hok
    have hle := UInt64.le_iff_toNat_le.mp hen
    rw [h.lastIndex_toNat] at hle
    refine ⟨⟨rfl, trivial⟩, h.storage_le.trans ?_⟩
    change log.point.num ≤ s.snapshotMetadata.index.toNat
    omega
  | append entries offset =>
    obtain ⟨b, hb⟩ := hop
    obtain ⟨v, happ, rfl⟩ := Outcome.map_eq_ok.mp hok
    exact h.append hb hen hr happ
  | applySnapshot =>
    obtain ⟨s, hsnap⟩ := Option.ne_none_iff_exists'.mp hen
    simp only [perform, hsnap] at hok
    obtain rfl := Except.ok.inj hok
    exact h.applySnapshot hsnap
  | clearSnapshot =>
    obtain ⟨s, hsnap⟩ := Option.ne_none_iff_exists'.mp hen.1
    simp only [perform, hsnap] at hok
    obtain rfl := Except.ok.inj hok
    exact h.clearSnapshot hsnap hen.2

end Windowed

/-! ## Runs -/

/-- **Along every run that imports right, the log is one window except while a newer snapshot waits
for the storage.** -/
theorem oneWindow_iff {st : MemoryStorage} {ops : List InstallOp}
    (hops : ∀ op ∈ ops, op.Contiguous) (hr : Along install ImportsRight (ofStorage st) ops) :
    Always install (fun log => log.OneWindow ↔ log.Settled) (ofStorage st) ops := by
  have hboth : Along install (fun log op => op.Contiguous ∧ log.ImportsRight op)
      (ofStorage st) ops := along_and.mpr ⟨along_of_forall hops, hr⟩
  intro log hlog
  exact (always_of_inv (fun _ _ _ h hq hs => Windowed.install h hq.1 hq.2 hs)
    (windowed_ofStorage st) hboth log hlog).oneWindow_iff_settled

/-- A whole installation over a storage at 3: two entries, a snapshot at 7, two entries on top. -/
theorem oneWindow_installation : Always install (fun log => log.OneWindow ↔ log.Settled)
    (ofStorage { snapshot := some ⟨⟨⟨[], []⟩, 3, 1⟩, []⟩ })
    [.append [⟨4, 1, .entryNormal, []⟩, ⟨5, 1, .entryNormal, []⟩] 0,
      .load ⟨⟨⟨[], []⟩, 7, 2⟩, []⟩, .append [⟨8, 2, .entryNormal, []⟩] 0, .applySnapshot,
      .append [⟨9, 2, .entryNormal, []⟩] 0, .clearSnapshot] := by
  refine oneWindow_iff ?_ (by decide)
  simp only [List.forall_mem_cons, List.not_mem_nil, false_implies, implies_true, and_true]
  exact ⟨⟨4, by decide⟩, trivial, ⟨8, by decide⟩, trivial, ⟨9, by decide⟩, trivial⟩

/-- **The log is not always one window**: over a fresh storage, a loaded snapshot at 5 leaves the
index 0 answered; and after an import at 4 that kept one of the three entries below it, the index 3
is not answered. -/
theorem not_oneWindow :
    ¬Always install OneWindow (ofStorage {}) [.load ⟨⟨⟨[], []⟩, 5, 2⟩, []⟩] ∧
      ¬Always install OneWindow (ofStorage {})
        [.append [⟨1, 1, .entryNormal, []⟩, ⟨2, 1, .entryNormal, []⟩, ⟨3, 1, .entryNormal, []⟩,
            ⟨4, 1, .entryNormal, []⟩, ⟨5, 1, .entryNormal, []⟩] 0,
          .append [⟨4, 2, .entryNormal, []⟩] 0] := by
  refine ⟨fun h => ?_, fun h => ?_⟩
  · have hlast := h _ (mem_visited_of_final? rfl)
    exact absurd ((hlast.1 0).mp ⟨0, rfl⟩).1 (by decide)
  · have hlast := h _ (mem_visited_of_final? rfl)
    obtain ⟨term, hterm⟩ := (hlast.1 3).mpr (by decide)
    cases hterm

end RaftLog

end RaftCore
