import RaftCore.Log.Append
import RaftCore.Volatile.Contiguous

/-!
# Log/HandOff — handing a loaded snapshot over to the storage

A loaded snapshot is applied to the storage and then cleared from the volatile state.  Whoever reads
or appends from the snapshot's index on does not notice: at that index the snapshot answers, then
both layers, then the storage's entry alone, and above it only the volatile entries do.

The stages of a hand-off are functions of the log (`atStage`), and an append commutes with each of
them (`appendCall_atStage`); so a sequence of appends gives the same results wherever the two steps
are put into it (`handOff_invisible`).  A batch that reaches below the snapshot is another matter:
until the hand-off the storage still answers at its own older point.
-/

namespace RaftCore

open Outcome

/-! ## The volatile state without its snapshot -/

namespace VolatileState

/-- The snapshot answers last. -/
theorem termOf_eq_or (v : VolatileState) (index : UInt64) : v.termOf index =
    (termOf { v with snapshot := none } index).map fun held => held.or (v.snapshotTerm index) := by
  rw [termOf, termOf]
  by_cases hnil : v.entries = []
  · simp [hnil, Except.map, snapshotTerm]
  simp only [if_neg hnil]
  cases Deque.front v.entries with
  | error e => rfl
  | ok first =>
    cases Deque.back v.entries with
    | error e => rfl
    | ok last =>
      simp only [ok_bind]
      split
      · cases Deque.get v.entries (index - first.index) <;> rfl
      · rfl

/-- **An import does not look at the snapshot.** -/
theorem append_withSnapshot (v : VolatileState) (snapshot : Option Snapshot) (entries : List Entry)
    (offset : UInt64) : append { v with snapshot := snapshot } entries offset =
      (v.append entries offset).map fun v' => { v' with snapshot := snapshot } := by
  simp only [append]
  split
  · rfl
  cases Deque.get entries offset with
  | error e => rfl
  | ok first =>
    simp only [ok_bind]
    split
    · rfl
    split
    · rfl
    cases Deque.back v.entries with
    | error e => rfl
    | ok last =>
      simp only [ok_bind]
      split
      · rfl
      · cases Deque.eraseFrom v.entries (last.index - first.index) <;> rfl

/-- …and leaves it where it is. -/
theorem append_snapshot {v v' : VolatileState} {entries : List Entry} {offset : UInt64}
    (h : v.append entries offset = .ok v') : v'.snapshot = v.snapshot := by
  have hself := v.append_withSnapshot v.snapshot entries offset
  rw [h] at hself
  have hv : v' = { v' with snapshot := v.snapshot } := Except.ok.inj hself
  rw [hv]

end VolatileState

/-- Its predecessor and its entries lie at or above an index. -/
def AppendCall.From (c : AppendCall) (index : UInt64) : Prop :=
  index ≤ c.lastIndex ∧ ∀ ent ∈ c.ents, index ≤ ent.index

instance (c : AppendCall) (index : UInt64) : Decidable (c.From index) :=
  inferInstanceAs (Decidable (_ ∧ _))

namespace RaftLog

/-! ## The stages -/

/-- How far the hand-off has come. -/
inductive Stage where
  | loaded
  | applied
  | cleared

/-- The log at a stage, the hand-off being of `s`. -/
def atStage (log : RaftLog) (s : Snapshot) : Stage → RaftLog
  | .loaded => log
  | .applied => { log with storage := (log.storage.applySnapshot s).2 }
  | .cleared => { log with
      storage := (log.storage.applySnapshot s).2
      volatileState := { log.volatileState with snapshot := none } }

/-- **A log that has loaded the snapshot**, over a storage that is not ahead of it. -/
structure Holding (log : RaftLog) (s : Snapshot) : Prop where
  snapshot_eq : log.volatileState.snapshot = some s
  storage_le : log.storage.front.index ≤ s.snapshotMetadata.index

/-- **Two logs read the same from an index on.** -/
structure SameFrom (index : UInt64) (log log' : RaftLog) : Prop where
  commit_eq : log.commit = log'.commit
  firstIndex_eq : log.firstIndex = log'.firstIndex
  lastIndex_eq : log.lastIndex = log'.lastIndex
  termOf_eq : ∀ i, index ≤ i → log.termOf i = log'.termOf i

variable {log : RaftLog} {s : Snapshot}

theorem Holding.applySnapshot_front (h : log.Holding s) :
    (log.storage.applySnapshot s).2.front = dummyEntry (some s) :=
  MemoryStorage.applySnapshot_front h.storage_le

/-- **A term from the snapshot on is the same at every stage.** -/
theorem Holding.termOf_atStage (h : log.Holding s) (k : Stage) {i : UInt64}
    (hi : s.snapshotMetadata.index ≤ i) : (log.atStage s k).termOf i = log.termOf i := by
  have hterm : log.volatileState.snapshotTerm i
      = if s.snapshotMetadata.index = i then some s.snapshotMetadata.term else none := by
    rw [VolatileState.snapshotTerm, h.snapshot_eq]
  -- away from the snapshot the storage has nothing to say, old or new
  have hold : s.snapshotMetadata.index ≠ i → log.storage.termOf i = none := by
    intro hne
    rw [MemoryStorage.termOf_eq, if_neg]
    rintro rfl
    exact hne (Word64.eq_of_toNat (le_antisymm (UInt64.le_iff_toNat_le.mp hi)
      (UInt64.le_iff_toNat_le.mp h.storage_le)))
  have hnew : (log.storage.applySnapshot s).2.termOf i
      = if s.snapshotMetadata.index = i then some s.snapshotMetadata.term else none := by
    rw [MemoryStorage.termOf_eq, h.applySnapshot_front]
    exact if_congr eq_comm rfl rfl
  cases k with
  | loaded => rfl
  | applied =>
    rw [termOf, termOf, atStage, VolatileState.termOf_eq_or, map_bind, map_bind, hterm, hnew]
    refine congrArg _ (funext fun held => ?_)
    cases held with
    | some t => rfl
    | none => by_cases hs : s.snapshotMetadata.index = i <;> simp [hs, hold]
  | cleared =>
    rw [termOf, termOf, atStage, log.volatileState.termOf_eq_or, map_bind, hterm, hnew]
    refine congrArg _ (funext fun held => ?_)
    cases held with
    | some t => rfl
    | none => by_cases hs : s.snapshotMetadata.index = i <;> simp [hs, hold]

/-- **The hand-off is invisible from the snapshot on.** -/
theorem Holding.sameFrom_atStage (h : log.Holding s) (k : Stage) :
    SameFrom s.snapshotMetadata.index (log.atStage s k) log := by
  refine ⟨by cases k <;> rfl, ?_, ?_, fun i hi => h.termOf_atStage k hi⟩
  · cases k with
    | loaded => rfl
    | applied =>
      simp only [firstIndex, VolatileState.firstUnstableIndex, h.snapshot_eq, atStage,
        Option.map_some]
    | cleared =>
      simp only [firstIndex, VolatileState.firstUnstableIndex, h.snapshot_eq, atStage,
        Option.map_none, Option.map_some, MemoryStorage.firstIndex, h.applySnapshot_front]
      rfl
  · have hlast : (log.storage.applySnapshot s).2.lastIndex = s.snapshotMetadata.index := by
      rw [MemoryStorage.lastIndex_eq, h.applySnapshot_front]
      rfl
    rcases eq_or_ne log.volatileState.entries [] with hnil | hne
    · cases k <;> simp [lastIndex, VolatileState.lastIndex, atStage, hnil, h.snapshot_eq, hlast]
    · cases k <;> simp [lastIndex, VolatileState.lastIndex, atStage,
        List.getLast?_eq_some_getLast hne]

/-! ## Appends -/

variable {build : Build}

theorem Holding.matchAt_atStage (h : log.Holding s) (k : Stage) {i : UInt64} (term : UInt64)
    (hi : s.snapshotMetadata.index ≤ i) :
    (log.atStage s k).matchAt i term = log.matchAt i term := by
  rw [matchAt, matchAt, h.termOf_atStage k hi]

theorem Holding.findConflict_atStage (h : log.Holding s) (k : Stage) {ents : List Entry}
    (hents : ∀ ent ∈ ents, s.snapshotMetadata.index ≤ ent.index) :
    (log.atStage s k).findConflict ents = log.findConflict ents := by
  induction ents with
  | nil => rfl
  | cons ent ents ih =>
    obtain ⟨hent, hrest⟩ := List.forall_mem_cons.mp hents
    rw [findConflict, findConflict, h.matchAt_atStage k _ hent, ih hrest]

theorem atStage_volatileState (log : RaftLog) (s : Snapshot) (k : Stage) :
    ∃ snapshot, (log.atStage s k).volatileState = { log.volatileState with snapshot := snapshot } ∧
      ∀ v : VolatileState, v.snapshot = log.volatileState.snapshot →
        atStage { log with volatileState := v } s k
          = { log.atStage s k with volatileState := { v with snapshot := snapshot } } := by
  cases k with
  | loaded => exact ⟨log.volatileState.snapshot, rfl, fun v hv => by rw [← hv]; rfl⟩
  | applied => exact ⟨log.volatileState.snapshot, rfl, fun v hv => by rw [← hv]; rfl⟩
  | cleared => exact ⟨none, rfl, fun _ _ => rfl⟩

theorem appendToVolatileState_atStage (log : RaftLog) (s : Snapshot) (k : Stage) (build : Build)
    (ents : List Entry) (offset : Int32) :
    (log.atStage s k).appendToVolatileState build ents offset
      = (log.appendToVolatileState build ents offset).map (Prod.map id (atStage · s k)) := by
  have hcommit : (log.atStage s k).commit = log.commit := by cases k <;> rfl
  obtain ⟨snapshot, hv, hstage⟩ := log.atStage_volatileState s k
  rw [appendToVolatileState, appendToVolatileState, hcommit, hv]
  split
  · rfl
  rw [bind_map]
  refine congrArg _ (funext fun first => ?_)
  rw [bind_map]
  refine congrArg _ (funext fun _ => ?_)
  rw [VolatileState.append_withSnapshot, map_bind, bind_map]
  cases happ : log.volatileState.append ents (Word64.ofInt offset) with
  | error e => rfl
  | ok v =>
    have hset := hstage v (VolatileState.append_snapshot happ)
    simp only [ok_bind, Except.map, Prod.map, id, hset, hcommit]

/-- **An append from the snapshot on commutes with the hand-off.** -/
theorem Holding.appendCall_atStage (h : log.Holding s) (k : Stage) {c : AppendCall}
    (hc : c.From s.snapshotMetadata.index) : (log.atStage s k).appendCall build c
      = (log.appendCall build c).map (Prod.map id (atStage · s k)) := by
  have hcommit : (log.atStage s k).commit = log.commit := by cases k <;> rfl
  rw [appendCall, appendCall, append, append, h.matchAt_atStage k _ hc.1,
    h.findConflict_atStage k hc.2, hcommit, bind_map]
  refine congrArg _ (funext fun matched => ?_)
  cases matched with
  | false => rfl
  | true =>
    simp only [if_true]
    rw [bind_map]
    refine congrArg _ (funext fun conflict => ?_)
    rw [bind_map]
    refine congrArg _ (funext fun _ => ?_)
    rw [bind_map]
    refine congrArg _ (funext fun first => ?_)
    rw [appendToVolatileState_atStage, map_bind, bind_map]
    refine congrArg _ (funext fun appended => ?_)
    cases k <;> rfl

theorem Holding.appendCall (h : log.Holding s) {c : AppendCall} {b : Bool} {log' : RaftLog}
    (happ : log.appendCall build c = .ok (b, log')) : log'.Holding s := by
  have hdone := appendCall_eq_ok.mp happ
  refine ⟨?_, hdone.storage_eq ▸ h.storage_le⟩
  cases hdone with
  | rejected | dropped => exact h.snapshot_eq
  | imported _ _ _ hv => exact (VolatileState.append_snapshot hv).trans h.snapshot_eq

/-! ## Interleavings -/

/-- What happens to a log during a hand-off. -/
inductive HandOffOp where
  | append (c : AppendCall)
  | applySnapshot
  | clearSnapshot

/-- The appends of an interleaving. -/
def appends : List HandOffOp → List HandOffOp
  | [] => []
  | .append c :: ops => .append c :: appends ops
  | .applySnapshot :: ops | .clearSnapshot :: ops => appends ops

/-- The hand-off steps of an interleaving. -/
def handOffs : List HandOffOp → List HandOffOp
  | [] => []
  | .append _ :: ops => handOffs ops
  | op :: ops => op :: handOffs ops

/-- What of the hand-off is still to come at a stage. -/
def Stage.rest : Stage → List HandOffOp
  | .loaded => [.applySnapshot, .clearSnapshot]
  | .applied => [.clearSnapshot]
  | .cleared => []

/-- One step, with the results of the calls it makes. -/
def handOffStep (build : Build) (s : Snapshot) (log : RaftLog) :
    HandOffOp → Outcome (List Bool × RaftLog)
  | .append c => (log.appendCall build c).map (Prod.map ([·]) id)
  | .applySnapshot => .ok ([], { log with storage := (log.storage.applySnapshot s).2 })
  | .clearSnapshot => .ok ([], { log with
      volatileState := (log.volatileState.clearSnapshot s.snapshotMetadata.index).2 })

/-- The results of the appends of an interleaving, and how it ends. -/
def handOffTrace (build : Build) (s : Snapshot) :
    RaftLog → List HandOffOp → List Bool × Outcome RaftLog
  | log, [] => ([], .ok log)
  | log, op :: ops => match handOffStep build s log op with
    | .error e => ([], .error e)
    | .ok (bs, log') =>
      let rest := handOffTrace build s log' ops
      (bs ++ rest.1, rest.2)

/-- **An interleaving cannot be told from its appends**: they give the same results, and leave the
same log from the snapshot on, or fail alike. -/
def Invisible (build : Build) (s : Snapshot) (log log' : RaftLog) (ops : List HandOffOp) : Prop :=
  let handed := handOffTrace build s log ops
  let plain := handOffTrace build s log' (appends ops)
  handed.1 = plain.1 ∧ Agree (SameFrom s.snapshotMetadata.index) handed.2 plain.2

theorem atStage_step (build : Build) (h : log.Holding s) {k : Stage} {op : HandOffOp}
    {ops : List HandOffOp} (hop : op :: ops <+: k.rest) : ∃ k' : Stage, ops <+: k'.rest ∧
      handOffStep build s (log.atStage s k) op = .ok ([], log.atStage s k') := by
  have hclear := VolatileState.clearSnapshot_held h.snapshot_eq
  cases k with
  | loaded =>
    obtain ⟨rfl, hrest⟩ := List.cons_prefix_cons.mp hop
    exact ⟨.applied, hrest, rfl⟩
  | applied =>
    obtain ⟨rfl, hrest⟩ := List.cons_prefix_cons.mp hop
    refine ⟨.cleared, hrest, ?_⟩
    simp only [handOffStep, atStage, hclear]
  | cleared => cases List.prefix_nil.mp hop

theorem invisible_atStage (h : log.Holding s) {ops : List HandOffOp} {k : Stage}
    (hord : handOffs ops <+: k.rest)
    (hcalls : ∀ c, .append c ∈ ops → c.From s.snapshotMetadata.index) :
    Invisible build s (log.atStage s k) log ops := by
  induction ops generalizing log k with
  | nil => exact ⟨rfl, h.sameFrom_atStage k⟩
  | cons op ops ih =>
    have hrest : ∀ c, .append c ∈ ops → c.From s.snapshotMetadata.index :=
      fun c hc => hcalls c (List.mem_cons_of_mem _ hc)
    have hsilent : ∀ {op : HandOffOp}, op :: handOffs ops <+: k.rest →
        appends (op :: ops) = appends ops →
          Invisible build s (log.atStage s k) log (op :: ops) := by
      intro op hop happ
      obtain ⟨k', hk', hstep⟩ := atStage_step build h hop
      have hinv := ih h hk' hrest
      simpa only [Invisible, handOffTrace, hstep, happ, List.nil_append] using hinv
    cases op with
    | append c =>
      have hc := hcalls c (List.mem_cons_self ..)
      simp only [Invisible, appends, handOffTrace, handOffStep, h.appendCall_atStage k hc]
      cases happ : log.appendCall build c with
      | error e => exact ⟨rfl, rfl⟩
      | ok r =>
        obtain ⟨hres, hlog⟩ := ih (h.appendCall happ) hord hrest
        exact ⟨congrArg (_ ++ ·) hres, hlog⟩
    | applySnapshot => exact hsilent hord rfl
    | clearSnapshot => exact hsilent hord rfl

/-- **A hand-off is invisible from the snapshot on**, wherever its two steps are put. -/
theorem handOff_invisible (build : Build) (h : log.Holding s) {ops : List HandOffOp}
    (hord : handOffs ops <+: [.applySnapshot, .clearSnapshot])
    (hcalls : ∀ c, .append c ∈ ops → c.From s.snapshotMetadata.index) :
    Invisible build s log log ops := invisible_atStage (k := .loaded) h hord hcalls

/-- Three appends around the two steps, over a fresh storage: one behind the snapshot, one behind
that, and one over the last two entries. -/
theorem handOff_invisible_between :
    Invisible .debug ⟨⟨⟨[], []⟩, 5, 1⟩, []⟩ ⟨{}, ⟨some ⟨⟨⟨[], []⟩, 5, 1⟩, []⟩, [], 6⟩, 5, 0⟩
      ⟨{}, ⟨some ⟨⟨⟨[], []⟩, 5, 1⟩, []⟩, [], 6⟩, 5, 0⟩
      [.append ⟨5, 1, 5, [⟨6, 1, .entryNormal, []⟩]⟩, .applySnapshot,
        .append ⟨6, 1, 6, [⟨7, 2, .entryNormal, []⟩, ⟨8, 2, .entryNormal, []⟩]⟩, .clearSnapshot,
        .append ⟨6, 1, 6, [⟨7, 3, .entryNormal, []⟩]⟩] := by
  refine handOff_invisible .debug ⟨rfl, by decide⟩ (List.prefix_refl _) fun c hc => ?_
  simp only [List.mem_cons, HandOffOp.append.injEq, reduceCtorEq, List.not_mem_nil, or_false,
    false_or] at hc
  rcases hc with rfl | rfl | rfl <;> decide

/-- **A batch that reaches below the snapshot tells the stages apart**: at 0 it matches the
storage's old point and is accepted, and once the snapshot is applied it conflicts at 0 and the
append aborts. -/
theorem not_handOff_invisible_below : ¬∀ (build : Build) (s : Snapshot) (log : RaftLog)
    (ops : List HandOffOp), log.Holding s → log.volatileState.Follows (dummyEntry (some s)) →
      handOffs ops <+: [.applySnapshot, .clearSnapshot] →
      (∀ c, .append c ∈ ops → s.snapshotMetadata.index ≤ c.lastIndex) →
      Invisible build s log log ops := by
  intro hall
  have hinv := hall .debug ⟨⟨⟨[], []⟩, 5, 1⟩, []⟩
    ⟨{}, ⟨some ⟨⟨⟨[], []⟩, 5, 1⟩, []⟩, [], 6⟩, 5, 0⟩
    [.applySnapshot, .append ⟨5, 1, 0, [⟨0, 0, .entryNormal, []⟩, ⟨6, 1, .entryNormal, []⟩]⟩]
    ⟨rfl, by decide⟩ ⟨rfl, trivial⟩ (List.prefix_append _ _) (fun c hc => by
      simp only [List.mem_cons, HandOffOp.append.injEq, reduceCtorEq, List.not_mem_nil, or_false,
        false_or] at hc
      subst hc
      decide)
  exact absurd hinv.1 (by decide)

end RaftLog

end RaftCore
