import RaftCore.Model.Raft

/-!
# Replication/Operations — what is done to one member's progress

Every call that touches the progress of one member, and what each leaves of its fields.  A call on
the window of messages in flight leaves the rest alone; a state change empties the window; only
`BecomeProbe`, `BecomeReplicate`, `MayUpdate` and a reset of the node move `next`, and only the last
two move `match'`.
-/

namespace RaftCore

/-- What is done to one member's progress. -/
inductive ProgressOp where
  | setState (state : ProgressStateType)
  | becomeProbe
  | becomeReplicate
  | becomeSnapshot (snapshotIndex : UInt64)
  | pause
  | resume
  | mayUpdate (matchIndex : UInt64)
  | raftReset (nodeId id lastIndex : UInt64)
  | add (index : UInt64)
  | freeto (index : UInt64)
  | freeFirstOne

namespace Progress

def withInflights (p : Progress) (w : Inflights) : Progress := { p with inflights := w }

def step (p : Progress) : ProgressOp → Outcome Progress
  | .setState state => .ok (p.setState state)
  | .becomeProbe => .ok p.becomeProbe
  | .becomeReplicate => .ok p.becomeReplicate
  | .becomeSnapshot snapshotIndex => .ok (p.becomeSnapshot snapshotIndex)
  | .pause => .ok p.pause
  | .resume => .ok p.resume
  | .mayUpdate matchIndex => .ok (p.mayUpdate matchIndex).2
  | .raftReset nodeId id lastIndex => .ok (p.raftReset nodeId id lastIndex)
  | .add index => .ok (p.withInflights (p.inflights.add index).2)
  | .freeto index => (p.inflights.freeto index).map p.withInflights
  | .freeFirstOne => p.inflights.freeFirstOne.map p.withInflights

/-! ## `BecomeProbe` -/

theorem becomeProbe_inflights (p : Progress) : p.becomeProbe.inflights = p.inflights.reset := by
  unfold becomeProbe
  split <;> rfl

theorem becomeProbe_state (p : Progress) : p.becomeProbe.state = .progressProbe := by
  unfold becomeProbe
  split <;> rfl

theorem becomeProbe_match' (p : Progress) : p.becomeProbe.match' = p.match' := by
  unfold becomeProbe
  split <;> rfl

theorem becomeProbe_pendingSnapshotIndex (p : Progress) :
    p.becomeProbe.pendingSnapshotIndex = p.pendingSnapshotIndex := by
  unfold becomeProbe
  split <;> rfl

/-- A probe starts after what is matched, and after the snapshot it waited for. -/
theorem becomeProbe_next (p : Progress) : p.becomeProbe.next =
    if p.state = .progressSnapshot then
      Word64.stdMax (p.match' + 1) (p.pendingSnapshotIndex + 1)
    else p.match' + 1 := by
  unfold becomeProbe
  split <;> rfl

/-! ## `MayUpdate` -/

theorem mayUpdate_inflights (p : Progress) (i : UInt64) :
    (p.mayUpdate i).2.inflights = p.inflights := by
  by_cases h : p.match' < i <;> simp [mayUpdate, h, resume]

theorem mayUpdate_state (p : Progress) (i : UInt64) : (p.mayUpdate i).2.state = p.state := by
  by_cases h : p.match' < i <;> simp [mayUpdate, h, resume]

theorem mayUpdate_pendingSnapshotIndex (p : Progress) (i : UInt64) :
    (p.mayUpdate i).2.pendingSnapshotIndex = p.pendingSnapshotIndex := by
  by_cases h : p.match' < i <;> simp [mayUpdate, h, resume]

theorem mayUpdate_fst (p : Progress) (i : UInt64) : (p.mayUpdate i).1 = decide (p.match' < i) := by
  by_cases h : p.match' < i <;> simp [mayUpdate, h]

theorem mayUpdate_match' (p : Progress) (i : UInt64) :
    (p.mayUpdate i).2.match' = Word64.stdMax p.match' i := by
  by_cases h : p.match' < i <;> simp [mayUpdate, h, resume, Word64.stdMax]

theorem mayUpdate_next (p : Progress) (i : UInt64) :
    (p.mayUpdate i).2.next = Word64.stdMax p.next (i + 1) := by
  by_cases h : p.match' < i <;> simp [mayUpdate, h, resume]

end Progress

end RaftCore
