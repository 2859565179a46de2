import RaftCore.Model.Raft

/-!
# Node/Restart — what a node built over a storage remembers

The constructor offers the storage's hard state to `LoadState` and does not read the answer.  A
hard state whose commit is below the snapshot point is refused, and with it its term and its vote:
the node runs on from term 0, without a vote.
-/

namespace RaftCore

namespace Raft

variable {unwritten : Unwritten} {cfg : RaftConfig} {st : MemoryStorage}

/-- **No vote is forgotten**: construction ends in a panic, or in a node with the storage's term and
vote, and with a commit mark at or after the storage's. -/
def RemembersVote (unwritten : Unwritten) (cfg : RaftConfig) (st : MemoryStorage) : Prop :=
  match construct unwritten cfg st with
  | .error fault => ∃ message, fault = .panic message
  | .ok r => r.curTerm = st.getHardState.term ∧ r.voteFor = st.getHardState.vote ∧
      st.getHardState.commit ≤ r.raftlog.commit

/-- Construction that does not end in a node ends in a panic. -/
theorem construct_eq_error {fault : Fault} (h : construct unwritten cfg st = .error fault) :
    ∃ message, fault = .panic message := by
  rw [construct] at h
  split at h
  · exact ⟨_, (Except.error.inj h).symm⟩
  dsimp only at h
  split at h
  · exact ⟨_, (Except.error.inj h).symm⟩
  · cases h

/-- The commit mark of a fresh node is the snapshot point. -/
theorem initial_commit (unwritten : Unwritten) (cfg : RaftConfig) (st : MemoryStorage) :
    (initial unwritten cfg st).raftlog.commit = st.lastIndex := by
  rw [st.lastIndex_eq]
  exact st.firstIndex_sub_one

/-- **When a restart remembers**: it is refused, or the hard state commits at or after the snapshot
point, or there is nothing in it to remember. -/
theorem remembersVote_iff (unwritten : Unwritten) (cfg : RaftConfig) (st : MemoryStorage) :
    RemembersVote unwritten cfg st ↔ ¬Admits unwritten cfg st ∨
      st.lastIndex ≤ st.getHardState.commit ∨
      st.getHardState.term = 0 ∧ st.getHardState.vote = 0 := by
  rw [RemembersVote]
  cases hr : construct unwritten cfg st with
  | error fault =>
    refine iff_of_true (construct_eq_error hr) (Or.inl fun hadmits => ?_)
    rw [construct_eq_ok.mpr ⟨hadmits, rfl⟩] at hr
    cases hr
  | ok r =>
    obtain ⟨hadmits, rfl⟩ := construct_eq_ok.mp hr
    have hcommit := initial_commit unwritten cfg st
    rw [or_iff_right (not_not_intro hadmits)]
    by_cases hlow : st.getHardState.commit < (initial unwritten cfg st).raftlog.commit
    · -- refused: term 0, no vote
      have hbelow : ¬st.lastIndex ≤ st.getHardState.commit := by
        rw [← hcommit]
        exact UInt64.not_le.mpr hlow
      rw [loadState, if_pos hlow, or_iff_right hbelow]
      constructor
      · rintro ⟨hterm, hvote, -⟩
        exact ⟨hterm.symm, hvote.symm⟩
      · rintro ⟨hterm, hvote⟩
        exact ⟨hterm.symm, hvote.symm, UInt64.le_of_lt hlow⟩
    · rw [loadState, if_neg hlow]
      rw [hcommit, UInt64.not_lt] at hlow
      exact iff_of_true ⟨rfl, rfl, UInt64.le_refl _⟩ (Or.inl hlow)

/-- **A restart can forget a vote**: a snapshot at 5, and a vote for 2 in term 3 with commit 0. -/
theorem not_remembersVote_snapshot : ¬∀ (unwritten : Unwritten) (cfg : RaftConfig)
    (st : MemoryStorage), RemembersVote unwritten cfg st := by
  intro hall
  have hrem := hall .zeros (.least 1)
    { snapshot := some { snapshotMetadata := { index := 5, term := 2 } }, hardState := ⟨3, 2, 0⟩ }
  have hterm : (0 : UInt64) = 3 := hrem.1
  exact absurd hterm (by decide)

end Raft

end RaftCore
