import RaftCore.Machinery.Runs
import RaftCore.Replication.Inflights
import RaftCore.Replication.Operations

/-!
# Replication/FlowControl — when a replicated follower is not sent to

A follower in `Replicate` is to be stopped exactly while as many indexes are outstanding as its
window was built for.  The outstanding indexes are tracked beside the progress (`Tracked`): what
`Add` accepted since the last state change or reset, less what was freed.

The window does hold them (`Tracked.Inv`), but a reset takes its size as well: from then on it is
full when it is empty.  So the rule is kept exactly along the runs that never have a `Replicate`
after such a reset (`flowControlled_iff`): none enters `Replicate`, and none resets in it.
-/

namespace RaftCore

open Runs

/-- A progress, and the indexes outstanding since its last state change or reset. -/
structure Tracked where
  progress : Progress
  outstanding : List UInt64

namespace Tracked

variable {t t' : Tracked} {op : ProgressOp} {c : UInt32}

/-- The outstanding indexes after a call, in the order they were accepted. -/
def outstandingAfter (t : Tracked) : ProgressOp → List UInt64
  | .pause | .resume | .mayUpdate _ => t.outstanding
  | .add index =>
    if (t.progress.inflights.add index).1 then t.outstanding ++ [index] else t.outstanding
  | .freeto index => t.outstanding.dropWhile (· ≤ index)
  | .freeFirstOne => t.outstanding.tail
  | _ => []

def step (t : Tracked) (op : ProgressOp) : Option Tracked :=
  (t.progress.step op).toOption.map fun p => ⟨p, t.outstandingAfter op⟩

/-- **The rule of flow control**, for a window of capacity `c`. -/
def FlowControlled (c : UInt32) (t : Tracked) : Prop :=
  t.progress.state = .progressReplicate →
    (t.progress.sendStopped = true ↔ t.outstanding.length = c.toNat) ∧
      ∀ index, (t.progress.inflights.add index).1 = true ↔ t.outstanding.length < c.toNat

/-- The call does not leave a `Replicate` whose window was reset. -/
def KeepsCapacity (t : Tracked) : ProgressOp → Prop
  | .setState state => state ≠ .progressReplicate
  | .becomeReplicate => False
  | .raftReset _ _ _ => t.progress.state ≠ .progressReplicate
  | _ => True

instance (t : Tracked) : ∀ op, Decidable (t.KeepsCapacity op)
  | .setState _ => inferInstanceAs (Decidable (_ ≠ _))
  | .becomeReplicate => inferInstanceAs (Decidable False)
  | .raftReset _ _ _ => inferInstanceAs (Decidable (_ ≠ _))
  | .becomeProbe | .becomeSnapshot _ | .pause | .resume | .mayUpdate _ | .add _ | .freeto _
  | .freeFirstOne => isTrue trivial

/-- **What every run keeps**: the window holds the outstanding indexes, and has its capacity or was
reset. -/
structure Inv (c : UInt32) (t : Tracked) : Prop where
  holds : t.progress.inflights.Holds t.outstanding
  size : t.progress.inflights.size = c ∧ t.outstanding.length ≤ c.toNat ∨
    t.progress.inflights.size = 0 ∧ t.outstanding = []

theorem Inv.length_le (h : t.Inv c) : t.outstanding.length ≤ t.progress.inflights.size.toNat := by
  rcases h.size with ⟨hsize, hle⟩ | ⟨-, hnil⟩
  · rwa [hsize]
  · rw [hnil]
    exact Nat.zero_le _

/-- A `Replicate` has its capacity. -/
def Kept (c : UInt32) (t : Tracked) : Prop :=
  t.progress.state = .progressReplicate → t.progress.inflights.size = c

/-- **The rule is that a `Replicate` has its capacity.** -/
theorem Inv.rule_iff (h : t.Inv c) (hc : c ≠ 0) : t.FlowControlled c ↔ t.Kept c := by
  refine forall_congr' fun hstate => ?_
  have hstopped : t.progress.sendStopped = t.progress.inflights.full := by
    rw [Progress.sendStopped, hstate]
  rw [hstopped, h.holds.full_iff]
  constructor
  · rintro ⟨hfull, -⟩
    refine (h.size.resolve_right ?_).1
    rintro ⟨hsize, hnil⟩
    -- an empty window of size 0 is full, with nothing outstanding
    have hzero := hfull.mp (by rw [hsize, hnil]; rfl)
    rw [hnil] at hzero
    exact hc (UInt32.toNat_inj.mp hzero.symm)
  · intro hsize
    have hle := h.length_le
    rw [hsize] at hle
    refine ⟨by rw [hsize], fun index => ?_⟩
    rcases h.holds.add_eq h.length_le index with ⟨heq, hadd⟩ | ⟨hlt, w', hadd, -⟩
    · rw [hadd]
      rw [hsize] at heq
      exact iff_of_false Bool.false_ne_true (by omega)
    · rw [hadd]
      rw [hsize] at hlt
      exact iff_of_true rfl hlt

/-! ## One step -/

theorem inv_of_reset (w : Inflights) (hw : t'.progress.inflights = w.reset)
    (hq : t'.outstanding = []) : t'.Inv c where
  holds := by
    rw [hw, hq]
    exact Inflights.holds_reset w
  size := Or.inr ⟨by rw [hw]; rfl, hq⟩

theorem kept_of_reset (w : Inflights) (hw : t'.progress.inflights = w.reset) (hc : c ≠ 0) :
    t'.Kept c ↔ t'.progress.state ≠ .progressReplicate := by
  rw [Kept, hw]
  exact imp_congr_right fun _ => iff_of_false hc.symm id

/-- A call that leaves the state and the window's size alone. -/
theorem Inv.of_size (h : t.Inv c) (hholds : t'.progress.inflights.Holds t'.outstanding)
    (hsize : t'.progress.inflights.size = t.progress.inflights.size)
    (hlen : t'.outstanding.length ≤ t.progress.inflights.size.toNat) : t'.Inv c where
  holds := hholds
  size := by
    rw [hsize]
    rcases h.size with ⟨hc, -⟩ | ⟨hzero, -⟩
    · exact Or.inl ⟨hc, hc ▸ hlen⟩
    · rw [hzero] at hlen
      exact Or.inr ⟨hzero, List.length_eq_zero_iff.mp (Nat.le_zero.mp hlen)⟩

theorem Kept.of_size (h : t.Kept c) (hstate : t'.progress.state = t.progress.state)
    (hsize : t'.progress.inflights.size = t.progress.inflights.size) : t'.Kept c :=
  fun hrep => hsize.trans (h (hstate.symm.trans hrep))

/-- **A call that starts over**, with an empty window of no size: the capacity is kept when the call
does not leave the follower replicating. -/
theorem step_of_reset (w : Inflights) (hw : t'.progress.inflights = w.reset)
    (hq : t'.outstanding = []) (hc : c ≠ 0)
    (hcap : t'.progress.state ≠ .progressReplicate ↔ t.KeepsCapacity op) :
    t'.Inv c ∧ (t.Kept c → (t'.Kept c ↔ t.KeepsCapacity op)) :=
  ⟨inv_of_reset w hw hq, fun _ => (kept_of_reset w hw hc).trans hcap⟩

/-- **A call that leaves the state and the window's size alone** keeps the capacity. -/
theorem Inv.step_of_size (h : t.Inv c) (hcap : t.KeepsCapacity op)
    (hstate : t'.progress.state = t.progress.state)
    (hsize : t'.progress.inflights.size = t.progress.inflights.size)
    (hholds : t'.progress.inflights.Holds t'.outstanding)
    (hlen : t'.outstanding.length ≤ t.progress.inflights.size.toNat) :
    t'.Inv c ∧ (t.Kept c → (t'.Kept c ↔ t.KeepsCapacity op)) :=
  ⟨h.of_size hholds hsize hlen, fun hkept => iff_of_true (hkept.of_size hstate hsize) hcap⟩

/-- **Every call returns, keeps the invariant, and keeps the capacity exactly when it should.** -/
theorem Inv.step (h : t.Inv c) (hc : c ≠ 0) (op : ProgressOp) :
    ∃ t', t.step op = some t' ∧ t'.Inv c ∧ (t.Kept c → (t'.Kept c ↔ t.KeepsCapacity op)) := by
  let w := t.progress.inflights
  cases op with
  | setState state => exact ⟨_, rfl, step_of_reset w rfl rfl hc Iff.rfl⟩
  | becomeProbe =>
    refine ⟨_, rfl, step_of_reset w t.progress.becomeProbe_inflights rfl hc ?_⟩
    refine iff_of_true (fun hrep => ?_) trivial
    exact nomatch t.progress.becomeProbe_state.symm.trans hrep
  | becomeReplicate =>
    exact ⟨_, rfl, step_of_reset w rfl rfl hc (iff_of_false (not_not_intro rfl) id)⟩
  | becomeSnapshot snapshotIndex =>
    exact ⟨_, rfl, step_of_reset w rfl rfl hc (iff_of_true nofun trivial)⟩
  | raftReset nodeId id lastIndex => exact ⟨_, rfl, step_of_reset w rfl rfl hc Iff.rfl⟩
  | pause => exact ⟨_, rfl, h.step_of_size trivial rfl rfl h.holds h.length_le⟩
  | resume => exact ⟨_, rfl, h.step_of_size trivial rfl rfl h.holds h.length_le⟩
  | mayUpdate matchIndex =>
    have hw := t.progress.mayUpdate_inflights matchIndex
    have hstate := t.progress.mayUpdate_state matchIndex
    refine ⟨_, rfl, h.step_of_size trivial hstate (congrArg _ hw) ?_ h.length_le⟩
    exact hw.symm ▸ h.holds
  | add index =>
    rcases h.holds.add_eq h.length_le index with ⟨-, hadd⟩ | ⟨hlt, w', hadd, hsize, hholds⟩
    · have hs : t.step (.add index) = some ⟨t.progress.withInflights w, t.outstanding⟩ := by
        simp [Tracked.step, Progress.step, outstandingAfter, hadd, Except.toOption, w]
      exact ⟨_, hs, h.step_of_size trivial rfl rfl h.holds h.length_le⟩
    · have hs : t.step (.add index)
          = some ⟨t.progress.withInflights w', t.outstanding ++ [index]⟩ := by
        simp [Tracked.step, Progress.step, outstandingAfter, hadd, Except.toOption]
      refine ⟨_, hs, h.step_of_size trivial rfl hsize hholds ?_⟩
      rw [List.length_append, List.length_singleton]
      exact hlt
  | freeto index =>
    obtain ⟨w', hfree, hsize, hholds⟩ := h.holds.freeto_eq index
    have hs : t.step (.freeto index)
        = some ⟨t.progress.withInflights w', t.outstanding.dropWhile (· ≤ index)⟩ := by
      simp [Tracked.step, Progress.step, outstandingAfter, hfree, Except.toOption, Except.map]
    have hlen := (List.dropWhile_sublist (· ≤ index)).length_le.trans h.length_le
    exact ⟨_, hs, h.step_of_size trivial rfl hsize hholds hlen⟩
  | freeFirstOne =>
    obtain ⟨w', hfree, hsize, hholds⟩ := h.holds.freeFirstOne_eq
    have hs : t.step .freeFirstOne
        = some ⟨t.progress.withInflights w', t.outstanding.tail⟩ := by
      simp [Tracked.step, Progress.step, outstandingAfter, hfree, Except.toOption, Except.map]
    have hlen := (List.tail_sublist t.outstanding).length_le.trans h.length_le
    exact ⟨_, hs, h.step_of_size trivial rfl hsize hholds hlen⟩

theorem Inv.next (h : t.Inv c) (hc : c ≠ 0) (hs : t.step op = some t') :
    t'.Inv c ∧ (t.Kept c → (t'.Kept c ↔ t.KeepsCapacity op)) := by
  obtain ⟨u, hu, hnext⟩ := h.step hc op
  obtain rfl := Option.some.inj (hs.symm.trans hu)
  exact hnext

/-! ## Runs -/

theorem inv_start {p : Progress} (hp : p.inflights = .ofSize c) : Inv c ⟨p, []⟩ where
  holds := by
    rw [hp]
    exact Inflights.holds_ofSize c
  size := Or.inl ⟨by rw [hp]; rfl, Nat.zero_le _⟩

/-- **No run reaches past the buffer**: every run ends. -/
theorem Inv.exists_final (h : t.Inv c) (hc : c ≠ 0) (ops : List ProgressOp) :
    ∃ t', final? Tracked.step t ops = some t' := by
  induction ops generalizing t with
  | nil => exact ⟨t, rfl⟩
  | cons op ops ih =>
    obtain ⟨u, hu, hinv, -⟩ := h.step hc op
    obtain ⟨t', ht'⟩ := ih hinv
    exact ⟨t', by rw [final?_cons, hu]; exact ht'⟩

/-- **When a run keeps the rule of flow control.** -/
theorem flowControlled_iff {p : Progress} (hc : c ≠ 0) (hp : p.inflights = .ofSize c)
    (ops : List ProgressOp) :
    Always step (FlowControlled c) ⟨p, []⟩ ops ↔
      Along step KeepsCapacity ⟨p, []⟩ ops := by
  have hstart : Kept c ⟨p, []⟩ := fun _ => congrArg Inflights.size hp
  have hinv : Always step (Inv c) ⟨p, []⟩ ops :=
    always_of_inv (Q := fun _ _ => True) (fun _ _ _ h _ hs => (h.next hc hs).1) (inv_start hp)
      (along_of_all (fun _ _ => trivial) _ _)
  have hrule : Always step (FlowControlled c) ⟨p, []⟩ ops ↔ Always step (Kept c) ⟨p, []⟩ ops :=
    forall₂_congr fun t ht => (hinv t ht).rule_iff hc
  rw [hrule, always_iff, and_iff_right hstart]
  refine along_congr (I := fun t => t.Inv c ∧ t.Kept c) (A := fun _ => True)
    (fun t op t' h hq hs => ?_) (fun t op h _ => ?_) ⟨inv_start hp, hstart⟩ fun _ _ => trivial
  · obtain ⟨hinv', hkept⟩ := h.1.next hc hs
    exact ⟨hinv', (hkept h.2).mpr hq⟩
  · obtain ⟨u, hu, -, hkept⟩ := h.1.step hc op
    rw [← hkept h.2, hu]
    simp

/-- A replicated follower with a window of two, filled, partly freed, and left for a probe. -/
theorem flowControlled_fill :
    Always step (FlowControlled 2)
      ⟨⟨4, 5, .progressReplicate, false, true, .ofSize 2, false, 0⟩, []⟩
      [.add 5, .add 6, .add 7, .freeto 5, .mayUpdate 5, .freeFirstOne, .becomeProbe] :=
  (flowControlled_iff (by decide) rfl _).mpr (by decide)

/-- **A follower that has just become replicated is stopped**, with nothing outstanding. -/
theorem not_flowControlled_becomeReplicate : ¬∀ (c : UInt32) (p : Progress)
    (ops : List ProgressOp), c ≠ 0 → p.inflights = .ofSize c →
      Always step (FlowControlled c) ⟨p, []⟩ ops := by
  intro hall
  have hrule := hall 1 ⟨4, 5, .progressProbe, false, true, .ofSize 1, false, 0⟩
    [.becomeReplicate] (by decide) rfl _ (mem_visited_of_final? rfl) rfl
  have hlen : 0 = 1 := hrule.1.mp rfl
  exact absurd hlen (by decide)

end Tracked

end RaftCore
