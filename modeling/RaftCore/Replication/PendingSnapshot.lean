import RaftCore.Machinery.Runs
import RaftCore.Replication.Operations

/-!
# Replication/PendingSnapshot — the snapshot a member is waiting for

A member in the snapshot state is to carry the index of the snapshot it was sent, and a member in
any other state none.  The two fields are written apart: leaving the snapshot state keeps the index,
and a reset of the node takes the index and keeps the state.  So they stay together exactly along
the runs in which a member, once in the snapshot state, is neither probed, replicated nor reset
(`pendingKnown_iff`).

What a probe takes from the index is right as long as no reset has taken it (`probesAbove_along`).
-/

namespace RaftCore

open Runs

/-- The calls that move a member between its states, a snapshot at an index that is one. -/
def ProgressOp.IsTransition : ProgressOp → Prop
  | .becomeSnapshot snapshotIndex => snapshotIndex ≠ 0 ∧ snapshotIndex.toNat < 2 ^ 64 - 1
  | .setState _ | .add _ | .freeto _ | .freeFirstOne => False
  | _ => True

/-- A progress, and the index of the snapshot it was last sent. -/
structure Installing where
  progress : Progress
  asked : UInt64

namespace Installing

variable {t t' : Installing} {op : ProgressOp}

def askedAfter (t : Installing) : ProgressOp → UInt64
  | .becomeSnapshot snapshotIndex => snapshotIndex
  | _ => t.asked

def step (t : Installing) (op : ProgressOp) : Option Installing :=
  (t.progress.step op).toOption.map fun p => ⟨p, t.askedAfter op⟩

/-- **A pending index is known exactly in the snapshot state**, and is the one last asked for. -/
def PendingKnown (t : Installing) : Prop :=
  (t.progress.pendingSnapshotIndex ≠ 0 ↔ t.progress.state = .progressSnapshot) ∧
    (t.progress.state = .progressSnapshot → t.progress.pendingSnapshotIndex = t.asked)

/-- **A probe that leaves the snapshot state starts above the snapshot.** -/
def ProbesAbove (t : Installing) (op : ProgressOp) : Prop :=
  op = .becomeProbe → t.progress.state = .progressSnapshot →
    ∀ t', t.step op = some t' → t.asked < t'.progress.next

/-- The call does not take a member out of the snapshot state, or its index away in it. -/
def StaysPending (t : Installing) : ProgressOp → Prop
  | .becomeProbe | .becomeReplicate | .raftReset _ _ _ => t.progress.state ≠ .progressSnapshot
  | _ => True

/-- The call does not reset a member in the snapshot state. -/
def KeepsIndex (t : Installing) : ProgressOp → Prop
  | .raftReset _ _ _ => t.progress.state ≠ .progressSnapshot
  | _ => True

instance (t : Installing) : ∀ op, Decidable (t.StaysPending op)
  | .becomeProbe | .becomeReplicate | .raftReset _ _ _ => inferInstanceAs (Decidable (_ ≠ _))
  | .setState _ | .becomeSnapshot _ | .pause | .resume | .mayUpdate _ | .add _ | .freeto _
  | .freeFirstOne => isTrue trivial

/-! ## One step -/

/-- Leaving the index where it is, a call that leaves the snapshot state breaks the rule, and a call
from another state keeps it. -/
theorem PendingKnown.leave_iff (h : t.PendingKnown)
    (hindex : t'.progress.pendingSnapshotIndex = t.progress.pendingSnapshotIndex)
    (hstate : t'.progress.state ≠ .progressSnapshot) :
    t'.PendingKnown ↔ t.progress.state ≠ .progressSnapshot := by
  rw [PendingKnown, hindex]
  refine ⟨fun h' hs => hstate (h'.1.mp (h.1.mpr hs)), fun hother => ?_⟩
  exact ⟨iff_of_false (fun hne => hother (h.1.mp hne)) hstate, fun hs => absurd hs hstate⟩

/-- A call that moves neither the state nor the index. -/
theorem PendingKnown.keep (h : t.PendingKnown)
    (hindex : t'.progress.pendingSnapshotIndex = t.progress.pendingSnapshotIndex)
    (hstate : t'.progress.state = t.progress.state) (hasked : t'.asked = t.asked) :
    t'.PendingKnown := by
  rw [PendingKnown, hindex, hstate, hasked]
  exact h

/-- **Every transition returns, and keeps the rule exactly when it stays pending.** -/
theorem PendingKnown.step (h : t.PendingKnown) (hop : op.IsTransition) :
    ∃ t', t.step op = some t' ∧ (t'.PendingKnown ↔ t.StaysPending op) := by
  cases op with
  | becomeProbe =>
    have hstate := t.progress.becomeProbe_state
    exact ⟨_, rfl, h.leave_iff t.progress.becomeProbe_pendingSnapshotIndex (by simp [hstate])⟩
  | becomeReplicate => exact ⟨_, rfl, h.leave_iff rfl nofun⟩
  | becomeSnapshot snapshotIndex =>
    exact ⟨_, rfl, iff_of_true ⟨iff_of_true hop.1 rfl, fun _ => rfl⟩ trivial⟩
  | raftReset nodeId id lastIndex =>
    refine ⟨_, rfl, ⟨fun h' hstate => (h'.1.mpr hstate) rfl, fun hstate => ?_⟩⟩
    exact ⟨iff_of_false (fun hne => hne rfl) hstate, fun hs => absurd hs hstate⟩
  | pause => exact ⟨_, rfl, iff_of_true (h.keep rfl rfl rfl) trivial⟩
  | resume => exact ⟨_, rfl, iff_of_true (h.keep rfl rfl rfl) trivial⟩
  | mayUpdate matchIndex =>
    exact ⟨_, rfl, iff_of_true (h.keep (t.progress.mayUpdate_pendingSnapshotIndex matchIndex)
      (t.progress.mayUpdate_state matchIndex) rfl) trivial⟩
  | setState | add | freeto | freeFirstOne => exact hop.elim

/-- In the snapshot state, the index is the one asked for, and has a successor. -/
def IndexKept (t : Installing) : Prop :=
  t.progress.state = .progressSnapshot →
    t.progress.pendingSnapshotIndex = t.asked ∧ t.asked.toNat < 2 ^ 64 - 1

theorem IndexKept.probesAbove (h : t.IndexKept) : t.ProbesAbove op := by
  rintro rfl hstate t' hs
  obtain ⟨hindex, hlt⟩ := h hstate
  obtain rfl : (⟨t.progress.becomeProbe, t.asked⟩ : Installing) = t' := Option.some.inj hs
  have hsucc : (t.asked + 1).toNat = t.asked.toNat + 1 := Word64.toNat_succ (by omega)
  simp only [Progress.becomeProbe_next, if_pos hstate, hindex]
  rw [UInt64.lt_iff_toNat_lt, Word64.toNat_stdMax, hsucc]
  omega

theorem IndexKept.next (h : t.IndexKept) (hop : op.IsTransition) (hq : t.KeepsIndex op)
    (hs : t.step op = some t') : t'.IndexKept := by
  cases op with
  | becomeProbe =>
    obtain rfl := Option.some.inj hs
    exact fun hstate => nomatch t.progress.becomeProbe_state.symm.trans hstate
  | becomeReplicate =>
    obtain rfl := Option.some.inj hs
    exact nofun
  | becomeSnapshot snapshotIndex =>
    obtain rfl := Option.some.inj hs
    exact fun _ => ⟨rfl, hop.2⟩
  | raftReset nodeId id lastIndex =>
    obtain rfl := Option.some.inj hs
    exact fun hstate => absurd hstate hq
  | pause | resume =>
    obtain rfl := Option.some.inj hs
    exact h
  | mayUpdate matchIndex =>
    obtain rfl := Option.some.inj hs
    intro hstate
    rw [Progress.mayUpdate_state] at hstate
    rw [Progress.mayUpdate_pendingSnapshotIndex]
    exact h hstate
  | setState | add | freeto | freeFirstOne => exact hop.elim

/-! ## Runs -/

/-- **Probes start above the snapshot**, as long as no reset meets the snapshot state. -/
theorem probesAbove_along {p : Progress} (hstate : p.state = .progressProbe) {asked : UInt64}
    {ops : List ProgressOp} (hops : ∀ op ∈ ops, op.IsTransition)
    (hkeep : Along step KeepsIndex ⟨p, asked⟩ ops) : Along step ProbesAbove ⟨p, asked⟩ ops :=
  along_of_inv (I := IndexKept) (fun _ _ _ h hq hs => h.next hq.1 hq.2 hs)
    (fun _ _ h _ => h.probesAbove) (fun hs => nomatch hstate.symm.trans hs)
    (along_and.mpr ⟨along_of_forall hops, hkeep⟩)

/-- **When the pending index belongs to the snapshot state**, along a run. -/
theorem pendingKnown_iff {p : Progress} (hstate : p.state = .progressProbe)
    (hpending : p.pendingSnapshotIndex = 0) {ops : List ProgressOp}
    (hops : ∀ op ∈ ops, op.IsTransition) :
    (Always step PendingKnown ⟨p, 0⟩ ops ∧ Along step ProbesAbove ⟨p, 0⟩ ops) ↔
      Along step StaysPending ⟨p, 0⟩ ops := by
  have hstart : PendingKnown ⟨p, 0⟩ :=
    ⟨iff_of_false (not_not_intro hpending) (by simp [hstate]), fun hs => by simp [hstate] at hs⟩
  have hiff : Always step PendingKnown ⟨p, 0⟩ ops ↔ Along step StaysPending ⟨p, 0⟩ ops := by
    rw [always_iff, and_iff_right hstart]
    refine (along_congr (P := StaysPending) (I := PendingKnown) (fun t op t' _ hq hs => hq t' hs)
      (fun t op h hop => ?_) hstart hops).symm
    obtain ⟨u, hu, hkeep⟩ := h.step hop
    rw [← hkeep, hu]
    simp
  rw [hiff, and_iff_left_of_imp fun hstays => probesAbove_along hstate hops ?_]
  refine hstays.mono fun t op h => ?_
  cases op with
  | raftReset => exact h
  | _ => trivial

/-- A member sent two snapshots, that stays with the second. -/
theorem pendingKnown_waiting :
    Always step PendingKnown ⟨⟨4, 5, .progressProbe, false, true, .ofSize 2, false, 0⟩, 0⟩
        [.becomeReplicate, .mayUpdate 6, .becomeSnapshot 9, .pause, .mayUpdate 7,
          .becomeSnapshot 12] ∧
      Along step ProbesAbove ⟨⟨4, 5, .progressProbe, false, true, .ofSize 2, false, 0⟩, 0⟩
        [.becomeReplicate, .mayUpdate 6, .becomeSnapshot 9, .pause, .mayUpdate 7,
          .becomeSnapshot 12] := by
  refine (pendingKnown_iff rfl rfl ?_).mpr (by decide)
  simp only [List.forall_mem_cons, List.not_mem_nil, false_implies, implies_true, and_true]
  exact ⟨trivial, trivial, ⟨by decide, by decide⟩, trivial, trivial, by decide, by decide⟩

/-- **A probe keeps the index of the snapshot it no longer waits for.** -/
theorem not_pendingKnown_becomeProbe : ¬∀ (p : Progress) (ops : List ProgressOp),
    p.state = .progressProbe → p.pendingSnapshotIndex = 0 → (∀ op ∈ ops, op.IsTransition) →
      Always step PendingKnown ⟨p, 0⟩ ops ∧ Along step ProbesAbove ⟨p, 0⟩ ops := by
  intro hall
  obtain ⟨hknown, -⟩ := hall ⟨4, 5, .progressProbe, false, true, .ofSize 2, false, 0⟩
    [.becomeSnapshot 9, .becomeProbe] rfl rfl (by
      simp only [List.forall_mem_cons, List.not_mem_nil, false_implies, implies_true, and_true]
      exact ⟨⟨by decide, by decide⟩, trivial⟩)
  have hstate : ProgressStateType.progressProbe = .progressSnapshot :=
    (hknown _ (mem_visited_of_final? rfl)).1.mp (by decide)
  exact nomatch hstate

end Installing

end RaftCore
