import RaftCore.Machinery.Runs
import RaftCore.Replication.Operations

/-!
# Replication/Acknowledged — what a member has acknowledged is not sent again

From a reset of the node on, a member's `match'` is the greatest of what the reset left and what was
acknowledged since, and `next` stays above it: every rule that writes `next` takes a successor of
`match'` or something larger (`NeverResends`).  No single call takes `match'` back, except a reset,
and only a probe, a replicate or a reset takes `next` back (`MovesForward`).

Both need the indexes to have successors: the end of the log at a reset, and what is acknowledged.
-/

namespace RaftCore

open Runs

/-- The index a call brings in has a successor. -/
def ProgressOp.HasRoom : ProgressOp → Prop
  | .mayUpdate matchIndex => matchIndex.toNat < 2 ^ 64 - 1
  | .raftReset _ _ lastIndex => lastIndex.toNat < 2 ^ 64 - 1
  | _ => True

/-- The calls that are resets of the node. -/
def ProgressOp.IsReset : ProgressOp → Prop
  | .raftReset _ _ _ => True
  | _ => False

/-- The calls that start sending anew. -/
def ProgressOp.Restarts : ProgressOp → Prop
  | .becomeProbe | .becomeReplicate | .raftReset _ _ _ => True
  | _ => False

/-- A progress, what the last reset of the node left as its match, and what was acknowledged
since. -/
structure Acknowledged where
  progress : Progress
  resetMatch : UInt64
  acks : List UInt64

namespace Acknowledged

variable {t t' : Acknowledged} {op : ProgressOp}

/-- A progress that a reset of the node has just left. -/
def ofReset (p : Progress) (nodeId id lastIndex : UInt64) : Acknowledged where
  progress := p.raftReset nodeId id lastIndex
  resetMatch := (p.raftReset nodeId id lastIndex).match'
  acks := []

/-- What is recorded beside the progress a call leaves. -/
def after (t : Acknowledged) (p : Progress) : ProgressOp → Acknowledged
  | .mayUpdate matchIndex => ⟨p, t.resetMatch, matchIndex :: t.acks⟩
  | .raftReset _ _ _ => ⟨p, p.match', []⟩
  | _ => ⟨p, t.resetMatch, t.acks⟩

def step (t : Acknowledged) (op : ProgressOp) : Option Acknowledged :=
  (t.progress.step op).toOption.map fun p => t.after p op

/-- What `match'` is the greatest of. -/
def heard (t : Acknowledged) : Set ℕ := {n | n = t.resetMatch.toNat ∨ ∃ i ∈ t.acks, n = i.toNat}

/-- **Nothing acknowledged is sent again.** -/
def NeverResends (t : Acknowledged) : Prop :=
  t.progress.match' < t.progress.next ∧ IsGreatest t.heard t.progress.match'.toNat

/-- **A call takes back only what it may**, and an acknowledgement says whether it was news. -/
def MovesForward (t : Acknowledged) (op : ProgressOp) : Prop :=
  ∀ t', t.step op = some t' →
    (¬op.IsReset → t.progress.match' ≤ t'.progress.match') ∧
    (t'.progress.next < t.progress.next → op.Restarts) ∧
    ∀ i, op = .mayUpdate i →
      ((t.progress.mayUpdate i).1 = true ↔ t.progress.match' < t'.progress.match')

/-! ## One step -/

/-- A call that leaves `match'`, and `next` above it. -/
theorem NeverResends.keep (h : t.NeverResends) {p : Progress}
    (hmatch : p.match' = t.progress.match') (hnext : p.match' < p.next) :
    NeverResends ⟨p, t.resetMatch, t.acks⟩ := by
  refine ⟨hnext, ?_⟩
  rw [hmatch]
  exact h.2

/-- What is matched has a successor. -/
theorem NeverResends.lt_succ (h : t.NeverResends) :
    t.progress.match' < t.progress.match' + 1 := by
  have hlt := UInt64.lt_iff_toNat_lt.mp h.1
  have hbound := t.progress.next.toNat_lt
  rw [UInt64.lt_iff_toNat_lt, Word64.toNat_succ (by omega)]
  omega

/-- An acknowledgement becomes the greatest, or is not news. -/
theorem NeverResends.isGreatest_mayUpdate (h : t.NeverResends) (i : UInt64) :
    IsGreatest (heard ⟨(t.progress.mayUpdate i).2, t.resetMatch, i :: t.acks⟩)
      (t.progress.mayUpdate i).2.match'.toNat := by
  have hheard : heard ⟨(t.progress.mayUpdate i).2, t.resetMatch, i :: t.acks⟩
      = insert i.toNat t.heard := by
    ext n
    simp only [heard, List.exists_mem_cons_iff, Set.mem_insert_iff, Set.mem_ofPred_eq]
    tauto
  rw [hheard, Progress.mayUpdate_match', Word64.toNat_stdMax, max_comm]
  exact h.2.insert i.toNat

theorem neverResends_ofReset (p : Progress) (nodeId id : UInt64) {lastIndex : UInt64}
    (hlast : lastIndex.toNat < 2 ^ 64 - 1) : (ofReset p nodeId id lastIndex).NeverResends := by
  refine ⟨?_, Or.inl rfl, ?_⟩
  · have hsucc : (lastIndex + 1).toNat = lastIndex.toNat + 1 := Word64.toNat_succ (by omega)
    change (if nodeId = id then lastIndex else 0) < lastIndex + 1
    rw [UInt64.lt_iff_toNat_lt, hsucc]
    split
    · omega
    · exact Nat.succ_pos _
  · rintro n (rfl | ⟨i, hi, -⟩)
    · exact le_rfl
    · exact absurd hi List.not_mem_nil

/-- **Every call keeps it.** -/
theorem NeverResends.next (h : t.NeverResends) (hop : op.HasRoom) (hs : t.step op = some t') :
    t'.NeverResends := by
  obtain ⟨p, hp, rfl⟩ := Option.map_eq_some_iff.mp hs
  replace hp := Outcome.toOption_eq_some.mp hp
  cases op with
  | setState | becomeSnapshot | pause | resume | add =>
    obtain rfl := Except.ok.inj hp
    exact h.keep rfl h.1
  | becomeReplicate =>
    obtain rfl := Except.ok.inj hp
    exact h.keep rfl h.lt_succ
  | becomeProbe =>
    obtain rfl := Except.ok.inj hp
    refine h.keep t.progress.becomeProbe_match' ?_
    rw [Progress.becomeProbe_match', Progress.becomeProbe_next]
    split
    · have hsucc := UInt64.lt_iff_toNat_lt.mp h.lt_succ
      rw [UInt64.lt_iff_toNat_lt, Word64.toNat_stdMax]
      omega
    · exact h.lt_succ
  | mayUpdate i =>
    obtain rfl := Except.ok.inj hp
    refine ⟨?_, h.isGreatest_mayUpdate i⟩
    have hroom : i.toNat < 2 ^ 64 - 1 := hop
    have hlt := UInt64.lt_iff_toNat_lt.mp h.1
    simp only [after, Progress.mayUpdate_match', Progress.mayUpdate_next]
    rw [UInt64.lt_iff_toNat_lt, Word64.toNat_stdMax, Word64.toNat_stdMax,
      Word64.toNat_succ (by omega)]
    omega
  | raftReset nodeId id lastIndex =>
    obtain rfl := Except.ok.inj hp
    exact neverResends_ofReset t.progress nodeId id hop
  | freeto | freeFirstOne =>
    obtain ⟨w, -, rfl⟩ := Outcome.map_eq_ok.mp hp
    exact h.keep rfl h.1

/-- **No call takes back more than it may.** -/
theorem movesForward (t : Acknowledged) (op : ProgressOp) : t.MovesForward op := by
  intro t' hs
  obtain ⟨p, hp, rfl⟩ := Option.map_eq_some_iff.mp hs
  replace hp := Outcome.toOption_eq_some.mp hp
  cases op with
  | setState | becomeSnapshot | pause | resume | add =>
    obtain rfl := Except.ok.inj hp
    exact ⟨fun _ => UInt64.le_refl _, fun hlt => absurd hlt (UInt64.lt_irrefl _), nofun⟩
  | becomeReplicate =>
    obtain rfl := Except.ok.inj hp
    exact ⟨fun _ => UInt64.le_refl _, fun _ => trivial, nofun⟩
  | becomeProbe =>
    obtain rfl := Except.ok.inj hp
    refine ⟨fun _ => ?_, fun _ => trivial, nofun⟩
    simp only [after, Progress.becomeProbe_match']
    exact UInt64.le_refl _
  | mayUpdate i =>
    obtain rfl := Except.ok.inj hp
    simp only [after, Progress.mayUpdate_match', Progress.mayUpdate_next, Progress.mayUpdate_fst,
      UInt64.le_iff_toNat_le, UInt64.lt_iff_toNat_lt, Word64.toNat_stdMax, decide_eq_true_eq]
    refine ⟨fun _ => le_max_left _ _, fun hlt => absurd hlt (by omega), ?_⟩
    rintro _ ⟨rfl⟩
    omega
  | raftReset nodeId id lastIndex =>
    exact ⟨fun hreset => absurd trivial hreset, fun _ => trivial, nofun⟩
  | freeto | freeFirstOne =>
    obtain ⟨w, -, rfl⟩ := Outcome.map_eq_ok.mp hp
    exact ⟨fun _ => UInt64.le_refl _, fun hlt => absurd hlt (UInt64.lt_irrefl _), nofun⟩

/-! ## Runs -/

/-- **What a member acknowledged is never sent to it again**, along any run after a reset. -/
theorem neverResends_along (p : Progress) (nodeId id : UInt64) {lastIndex : UInt64}
    (hlast : lastIndex.toNat < 2 ^ 64 - 1) {ops : List ProgressOp}
    (hops : ∀ op ∈ ops, op.HasRoom) :
    Always step NeverResends (ofReset p nodeId id lastIndex) ops ∧
      Along step MovesForward (ofReset p nodeId id lastIndex) ops :=
  ⟨always_of_inv (fun _ _ _ h hop hs => h.next hop hs) (neverResends_ofReset p nodeId id hlast)
    (along_of_forall hops), along_of_all movesForward _ _⟩

/-- A member that acknowledges out of order, waits for a snapshot, and is reset. -/
theorem neverResends_outOfOrder :
    Always step NeverResends (ofReset
        ⟨4, 5, .progressProbe, false, true, .ofSize 2, false, 0⟩ 2 1 8)
        [.mayUpdate 6, .mayUpdate 3, .becomeReplicate, .becomeSnapshot 5, .mayUpdate 7,
          .becomeProbe, .raftReset 2 1 9, .mayUpdate 1] ∧
      Along step MovesForward (ofReset
        ⟨4, 5, .progressProbe, false, true, .ofSize 2, false, 0⟩ 2 1 8)
        [.mayUpdate 6, .mayUpdate 3, .becomeReplicate, .becomeSnapshot 5, .mayUpdate 7,
          .becomeProbe, .raftReset 2 1 9, .mayUpdate 1] := by
  refine neverResends_along _ 2 1 (by decide) ?_
  simp only [List.forall_mem_cons, List.not_mem_nil, false_implies, implies_true, and_true]
  exact ⟨(by decide : (6 : UInt64).toNat < _), (by decide : (3 : UInt64).toNat < _), trivial,
    trivial, (by decide : (7 : UInt64).toNat < _), trivial, (by decide : (9 : UInt64).toNat < _),
    (by decide : (1 : UInt64).toNat < _)⟩

end Acknowledged

end RaftCore
