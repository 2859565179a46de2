import RaftCore.Node.Step

/-!
# Node/Reset — what a reset leaves of the leadership before it

Two nodes with the same members and the same log end, whatever they knew of their members, should
be the same after a reset.  The reset writes every field of a member's progress but three: the
learner flag, which is to stay, the state and the pause.  So the two nodes are the same, with every
member probed from the end of the log, exactly when every member of both was in an unpaused probe
before (`reset_erases_iff`).
-/

namespace RaftCore

/-- What a reset is to leave of a member's progress. -/
def Progress.standing (p : Progress) : UInt32 × Bool := (p.inflights.size, p.learner)

/-- The member is in an unpaused probe. -/
def Progress.Probing (p : Progress) : Prop := p.state = .progressProbe ∧ p.paused = false

instance (p : Progress) : Decidable p.Probing := inferInstanceAs (Decidable (_ ∧ _))

namespace Raft

variable {r s : Raft} {draw : Draw} {term : UInt64}

/-- The progress of a member, in either role. -/
def IsMember (r : Raft) (nodeId : UInt64) (p : Progress) : Prop :=
  r.peers[nodeId]? = some p ∨ r.learners[nodeId]? = some p

/-- **The same members, over the same log end**, whatever is known of them. -/
structure SameMembers (r s : Raft) : Prop where
  id_eq : r.id = s.id
  curTerm_eq : r.curTerm = s.curTerm
  voteFor_eq : r.voteFor = s.voteFor
  electionTick_eq : r.electionTick = s.electionTick
  lastIndex_eq : r.raftlog.lastIndex = s.raftlog.lastIndex
  peers_eq : ∀ k : UInt64, r.peers[k]?.map Progress.standing = s.peers[k]?.map Progress.standing
  learners_eq : ∀ k : UInt64,
    r.learners[k]?.map Progress.standing = s.learners[k]?.map Progress.standing

/-- **The same footing**: the term and the vote, the election's state, and all that is known of the
members. -/
structure SameFooting (r s : Raft) : Prop where
  curTerm_eq : r.curTerm = s.curTerm
  voteFor_eq : r.voteFor = s.voteFor
  votes_eq : r.votes = s.votes
  transferLeader_eq : r.transferLeader = s.transferLeader
  pendingConf_eq : r.pendingConf = s.pendingConf
  heartbeatElapsed_eq : r.heartbeatElapsed = s.heartbeatElapsed
  electionElapsed_eq : r.electionElapsed = s.electionElapsed
  randomElectionTick_eq : r.randomElectionTick = s.randomElectionTick
  peers_eq : r.peers = s.peers
  learners_eq : r.learners = s.learners

/-- **Every member is probed from the end of the log**; only the node itself matches it. -/
def ProbesFromEnd (r : Raft) : Prop :=
  ∀ nodeId p, r.IsMember nodeId p → p.Probing ∧ p.next = r.raftlog.lastIndex + 1 ∧
    p.match' = if nodeId = r.id then r.raftlog.lastIndex else 0

def AllProbing (r : Raft) : Prop := ∀ nodeId p, r.IsMember nodeId p → p.Probing

/-! ## What a reset writes -/

theorem reset_id (r : Raft) (draw : Draw) (term : UInt64) : (r.reset draw term).id = r.id := by
  by_cases h : r.curTerm = term <;> simp [reset, h]

theorem reset_raftlog (r : Raft) (draw : Draw) (term : UInt64) :
    (r.reset draw term).raftlog = r.raftlog := by
  by_cases h : r.curTerm = term <;> simp [reset, h]

theorem reset_voteFor (r : Raft) (draw : Draw) (term : UInt64) :
    (r.reset draw term).voteFor = if r.curTerm = term then r.voteFor else 0 := by
  by_cases h : r.curTerm = term <;> simp [reset, h]

theorem reset_randomElectionTick (r : Raft) (draw : Draw) (term : UInt64) :
    (r.reset draw term).randomElectionTick = random draw r.electionTick + r.electionTick := by
  by_cases h : r.curTerm = term <;> simp [reset, h]

theorem getElem?_reset_peers (r : Raft) (draw : Draw) (term k : UInt64) :
    (r.reset draw term).peers[k]?
      = r.peers[k]?.map fun p => p.raftReset k r.id r.raftlog.lastIndex := by
  by_cases h : r.curTerm = term <;> simp [reset, h]

theorem getElem?_reset_learners (r : Raft) (draw : Draw) (term k : UInt64) :
    (r.reset draw term).learners[k]?
      = r.learners[k]?.map fun p => p.raftReset k r.id r.raftlog.lastIndex := by
  by_cases h : r.curTerm = term <;> simp [reset, h]

/-- The members after a reset are the reset members. -/
theorem isMember_reset {nodeId : UInt64} {p' : Progress} :
    (r.reset draw term).IsMember nodeId p' ↔
      ∃ p, r.IsMember nodeId p ∧ p.raftReset nodeId r.id r.raftlog.lastIndex = p' := by
  simp only [IsMember, getElem?_reset_peers, getElem?_reset_learners, Option.map_eq_some_iff,
    or_and_right, exists_or]

/-- **After a reset every member is probed from the end** exactly when it was in an unpaused
probe. -/
theorem probesFromEnd_reset_iff : (r.reset draw term).ProbesFromEnd ↔ r.AllProbing := by
  constructor
  · intro h nodeId p hp
    exact (h nodeId _ (isMember_reset.mpr ⟨p, hp, rfl⟩)).1
  · intro h nodeId p' hp'
    obtain ⟨p, hp, rfl⟩ := isMember_reset.mp hp'
    rw [reset_raftlog, reset_id]
    exact ⟨h nodeId p hp, rfl, rfl⟩

/-- Members that were in an unpaused probe are reset to the same progress. -/
theorem raftReset_eq_of_probing {p q : Progress} (hp : p.Probing) (hq : q.Probing)
    (h : p.standing = q.standing) (k id lastIndex : UInt64) :
    p.raftReset k id lastIndex = q.raftReset k id lastIndex := by
  have hlearner : p.learner = q.learner := congrArg Prod.snd h
  have hstate : p.state = q.state := hp.1.trans hq.1.symm
  have hpaused : p.paused = q.paused := hp.2.trans hq.2.symm
  simp only [Progress.raftReset, hlearner, hstate, hpaused, Inflights.reset]

/-- Maps with the same members are reset to the same map. -/
theorem map_raftReset_eq {m n : NodeMap Progress} {id lastIndex : UInt64}
    (h : ∀ k : UInt64, m[k]?.map Progress.standing = n[k]?.map Progress.standing)
    (hm : ∀ (k : UInt64) (p : Progress), m[k]? = some p → p.Probing)
    (hn : ∀ (k : UInt64) (p : Progress), n[k]? = some p → p.Probing) (k : UInt64) :
    m[k]?.map (fun p => p.raftReset k id lastIndex)
      = n[k]?.map fun p => p.raftReset k id lastIndex := by
  have hk := h k
  cases hmk : m[k]? with
  | none =>
    rw [hmk, Option.map_none, eq_comm, Option.map_eq_none_iff] at hk
    rw [hk, Option.map_none]
  | some p =>
    rw [hmk, Option.map_some, eq_comm, Option.map_eq_some_iff] at hk
    obtain ⟨q, hq, hqp⟩ := hk
    rw [hq, Option.map_some, Option.map_some,
      raftReset_eq_of_probing (hm k p hmk) (hn k q hq) hqp.symm]

/-- **When a reset erases what was before.** -/
theorem reset_erases_iff (h : r.SameMembers s) (draw : Draw) (term : UInt64) :
    ((r.reset draw term).SameFooting (s.reset draw term) ∧ (r.reset draw term).ProbesFromEnd ∧
      (s.reset draw term).ProbesFromEnd) ↔ r.AllProbing ∧ s.AllProbing := by
  rw [probesFromEnd_reset_iff, probesFromEnd_reset_iff]
  refine and_iff_right_of_imp fun ⟨hr, hs⟩ => ?_
  refine
    { curTerm_eq := ?_, voteFor_eq := ?_, votes_eq := rfl, transferLeader_eq := rfl
      pendingConf_eq := rfl, heartbeatElapsed_eq := rfl, electionElapsed_eq := rfl
      randomElectionTick_eq := ?_, peers_eq := Std.ExtTreeMap.ext_getElem? fun k => ?_
      learners_eq := Std.ExtTreeMap.ext_getElem? fun k => ?_ }
  · rw [reset_curTerm, reset_curTerm]
  · rw [reset_voteFor, reset_voteFor, h.curTerm_eq, h.voteFor_eq]
  · rw [reset_randomElectionTick, reset_randomElectionTick, h.electionTick_eq]
  · rw [getElem?_reset_peers, getElem?_reset_peers, h.id_eq, h.lastIndex_eq]
    exact map_raftReset_eq h.peers_eq (fun k p hp => hr k p (Or.inl hp))
      (fun k p hp => hs k p (Or.inl hp)) k
  · rw [getElem?_reset_learners, getElem?_reset_learners, h.id_eq, h.lastIndex_eq]
    exact map_raftReset_eq h.learners_eq (fun k p hp => hr k p (Or.inr hp))
      (fun k p hp => hs k p (Or.inr hp)) k

/-! ## A node with one peer -/

/-- A fresh node, and what it knows of peer 2: a state and a match. -/
def withPeer (state : ProgressStateType) (match' : UInt64) : Raft :=
  { initial .zeros (.least 1) {} with
    peers := (∅ : NodeMap Progress).insert 2
      ⟨match', match' + 1, state, false, true, .ofSize 4, false, 0⟩ }

theorem getElem?_withPeer (state : ProgressStateType) (match' k : UInt64) :
    (withPeer state match').peers[k]? = if 2 = k then
      some ⟨match', match' + 1, state, false, true, .ofSize 4, false, 0⟩ else none := by
  simp only [withPeer, Std.ExtTreeMap.getElem?_insert, Std.LawfulEqCmp.compare_eq_iff_eq]
  rfl

theorem sameMembers_withPeer (a b : ProgressStateType) (m n : UInt64) :
    (withPeer a m).SameMembers (withPeer b n) :=
  ⟨rfl, rfl, rfl, rfl, rfl, fun k => by
    rw [getElem?_withPeer, getElem?_withPeer]
    split <;> rfl, fun _ => rfl⟩

theorem allProbing_withPeer (m : UInt64) : (withPeer .progressProbe m).AllProbing := by
  rintro k p (hp | hp)
  · rw [getElem?_withPeer] at hp
    obtain ⟨-, hp⟩ := Option.ite_none_right_eq_some.mp hp
    obtain rfl := Option.some.inj hp
    exact ⟨rfl, rfl⟩
  · exact nomatch hp

/-- Two nodes that knew different things of a probed peer. -/
theorem reset_erases_probe :
    ((withPeer .progressProbe 3).reset (fun _ => 0) 1).SameFooting
        ((withPeer .progressProbe 7).reset (fun _ => 0) 1) ∧
      ((withPeer .progressProbe 3).reset (fun _ => 0) 1).ProbesFromEnd ∧
      ((withPeer .progressProbe 7).reset (fun _ => 0) 1).ProbesFromEnd :=
  (reset_erases_iff (sameMembers_withPeer ..) (fun _ => 0) 1).mpr
    ⟨allProbing_withPeer 3, allProbing_withPeer 7⟩

/-- **A reset leaves a peer in the snapshot state.** -/
theorem not_reset_erases_snapshot : ¬∀ (r s : Raft) (draw : Draw) (term : UInt64),
    r.SameMembers s →
      (r.reset draw term).SameFooting (s.reset draw term) ∧ (r.reset draw term).ProbesFromEnd ∧
        (s.reset draw term).ProbesFromEnd := by
  intro hall
  obtain ⟨-, hprobes, -⟩ := hall (withPeer .progressSnapshot 3) (withPeer .progressProbe 3)
    (fun _ => 0) 1 (sameMembers_withPeer ..)
  have hpeer : (withPeer .progressSnapshot 3).IsMember 2 _ := Or.inl (getElem?_withPeer _ 3 2)
  obtain ⟨⟨hstate, -⟩, -⟩ := hprobes 2 _ (isMember_reset.mpr ⟨_, hpeer, rfl⟩)
  exact nomatch hstate

end Raft

end RaftCore
