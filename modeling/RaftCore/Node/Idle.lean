import RaftCore.Node.Timeout

/-!
# Node/Idle — what a node never does

The public functions of a node write its term and vote, its commit mark, its leader and the node it
would hand over to, its state and timeout, and the flag of a pending configuration (`Written`).  So
every node that is ever reached is the initial one but for these (`Idle`): it has no members, no
message to send, no vote counted and no tick elapsed, its log has no entry it was not built with,
its commit mark is at least what it was built with, and it is never a candidate, nor a leader unless
its memory said so when it was built.
-/

namespace RaftCore

open Runs

/-- A call of a public function of a node. -/
inductive PublicCall where
  | loadState (hs : HardState)
  | stepLeader (msg : Message)
  | node (c : NodeCall)

namespace Raft

variable {unwritten : Unwritten} {cfg : RaftConfig} {st : MemoryStorage} {mark : UInt64} {r : Raft}

def publicStep (r : Raft) : PublicCall → Option Raft
  | .loadState hs => some (r.loadState hs).2
  | .stepLeader msg => some (r.stepLeader msg)
  | .node c => r.perform c

/-- What the public functions write. -/
structure Written where
  curTerm : UInt64
  voteFor : UInt64
  commit : UInt64
  curState : StateType
  leader : UInt64
  transferLeader : UInt64
  randomElectionTick : UInt64
  pendingConf : Bool

/-- The initial node, with that written. -/
def Written.node (w : Written) (unwritten : Unwritten) (cfg : RaftConfig) (st : MemoryStorage) :
    Raft :=
  { initial unwritten cfg st with
    curTerm := w.curTerm
    voteFor := w.voteFor
    raftlog := (RaftLog.ofStorage st).setCommit w.commit
    curState := w.curState
    leader := w.leader
    transferLeader := w.transferLeader
    randomElectionTick := w.randomElectionTick
    pendingConf := w.pendingConf }

/-- **The initial node, but for what is written**; its commit mark is at least `mark`. -/
def Idle (unwritten : Unwritten) (cfg : RaftConfig) (st : MemoryStorage) (mark : UInt64)
    (r : Raft) : Prop :=
  ∃ w : Written, mark ≤ w.commit ∧
    (w.curState = unwritten.curState ∨ w.curState = .stateFollower) ∧ r = w.node unwritten cfg st

theorem idle_initial :
    (initial unwritten cfg st).Idle unwritten cfg st (RaftLog.ofStorage st).commit :=
  ⟨⟨0, 0, (RaftLog.ofStorage st).commit, unwritten.curState, 0, unwritten.transferLeader, 0,
    unwritten.pendingConf⟩, UInt64.le_refl _, .inl rfl, rfl⟩

/-- What is idle is so from where its commit mark is now. -/
theorem Idle.from_commit (h : r.Idle unwritten cfg st mark) :
    r.Idle unwritten cfg st r.raftlog.commit := by
  obtain ⟨w, -, hstate, rfl⟩ := h
  exact ⟨w, UInt64.le_refl _, hstate, rfl⟩

theorem Idle.loadState (h : r.Idle unwritten cfg st mark) (hs : HardState) :
    (r.loadState hs).2.Idle unwritten cfg st mark := by
  obtain ⟨w, hcommit, hstate, rfl⟩ := h
  rw [Raft.loadState]
  split_ifs with hlow
  · exact ⟨w, hcommit, hstate, rfl⟩
  · exact ⟨{ w with commit := hs.commit, curTerm := hs.term, voteFor := hs.vote },
      UInt64.le_trans hcommit (UInt64.not_lt.mp hlow), hstate, rfl⟩

theorem Idle.voteFor (h : r.Idle unwritten cfg st mark) (vote : UInt64) :
    ({ r with voteFor := vote } : Raft).Idle unwritten cfg st mark := by
  obtain ⟨w, hcommit, hstate, rfl⟩ := h
  exact ⟨{ w with voteFor := vote }, hcommit, hstate, rfl⟩

/-- A reset finds no member to reset. -/
theorem Idle.reset (h : r.Idle unwritten cfg st mark) (draw : Draw) (term : UInt64) :
    (r.reset draw term).Idle unwritten cfg st mark := by
  obtain ⟨w, hcommit, hstate, rfl⟩ := h
  have hnone : ∀ {lastIndex : UInt64}, (∅ : NodeMap Progress).map
      (fun nodeId p => p.raftReset nodeId cfg.id lastIndex) = ∅ :=
    Std.ExtTreeMap.map_eq_empty_iff.mpr rfl
  by_cases hterm : w.curTerm = term
  · refine ⟨{ w with
      transferLeader := 0
      pendingConf := false
      randomElectionTick := random draw cfg.electionTick + cfg.electionTick },
      hcommit, hstate, ?_⟩
    simp [Raft.reset, Written.node, initial, hterm, hnone]
  · refine ⟨{ w with
      curTerm := term
      voteFor := 0
      transferLeader := 0
      pendingConf := false
      randomElectionTick := random draw cfg.electionTick + cfg.electionTick },
      hcommit, hstate, ?_⟩
    simp [Raft.reset, Written.node, initial, hterm, hnone]

theorem Idle.becomeFollower (h : r.Idle unwritten cfg st mark) (draw : Draw)
    (term leader : UInt64) : (r.becomeFollower draw term leader).Idle unwritten cfg st mark := by
  obtain ⟨w, hcommit, -, heq⟩ := h.reset draw term
  refine ⟨{ w with curState := .stateFollower, leader := leader }, hcommit, .inr rfl, ?_⟩
  rw [Raft.becomeFollower, heq]
  rfl

theorem Idle.publicStep {r' : Raft} {c : PublicCall} (h : r.Idle unwritten cfg st mark)
    (hstep : r.publicStep c = some r') : r'.Idle unwritten cfg st mark := by
  cases c with
  | loadState hs =>
    obtain rfl := Option.some.inj hstep
    exact h.loadState hs
  | stepLeader msg =>
    obtain rfl := Option.some.inj hstep
    rw [Raft.stepLeader, ite_self]
    exact h
  | node c =>
    obtain rfl := Option.some.inj hstep
    cases c with
    | becomeFollower draw term leader => exact h.becomeFollower draw term leader
    | reset draw term => exact h.reset draw term
    | stepMessage draw msg =>
      have hmsg := stepMessage_stepped r draw msg
      change (r.stepMessage draw msg).Idle unwritten cfg st mark
      generalize r.stepMessage draw msg = r' at hmsg ⊢
      cases hmsg with
      | followed => exact h.becomeFollower draw msg.term msg.from'
      | voteMoved => exact h.voteFor msg.from'
      | ignored => exact h

/-- What an idle node is without, and where its log ends. -/
structure Silent (st : MemoryStorage) (r : Raft) : Prop where
  messages : r.messages = []
  peers : r.peers = ∅
  learners : r.learners = ∅
  votes : r.votes = ∅
  heartbeatElapsed : r.heartbeatElapsed = 0
  electionElapsed : r.electionElapsed = 0
  entries : r.raftlog.volatileState.entries = []
  lastIndex : r.raftlog.lastIndex = st.lastIndex

theorem Idle.silent (h : r.Idle unwritten cfg st mark) : r.Silent st := by
  obtain ⟨w, -, -, rfl⟩ := h
  exact ⟨rfl, rfl, rfl, rfl, rfl, rfl, rfl, rfl⟩

/-- **Every node that is reached is idle**, and so silent: from its construction on, whatever is
called; and its commit mark is never below the one it was built with. -/
theorem idle_always (h : construct unwritten cfg st = .ok r) (calls : List PublicCall) :
    Always publicStep (fun s => s.Idle unwritten cfg st r.raftlog.commit ∧ s.Silent st) r
      calls := by
  obtain ⟨-, rfl⟩ := construct_eq_ok.mp h
  have hidle : Always Raft.publicStep (Idle unwritten cfg st _) _ calls :=
    always_of_inv (Q := fun _ _ => True) (fun _ _ _ h _ hstep => h.publicStep hstep)
      (idle_initial.loadState st.getHardState).from_commit
      (along_of_all (fun _ _ => trivial) _ calls)
  exact fun t ht => ⟨hidle t ht, (hidle t ht).silent⟩

/-- A node that is asked for its vote and then hears of a leader. -/
theorem idle_always_least : ∃ r, construct .zeros (.least 1) {} = .ok r ∧
    Always publicStep
      (fun s => s.Idle .zeros (.least 1) {} r.raftlog.commit ∧ s.Silent {}) r
      [.node (.stepMessage (fun _ => 0) { type := .msgVote, from' := 2, term := 3 }),
        .node (.stepMessage (fun _ => 0) { type := .msgApp, from' := 2, term := 3 })] :=
  ⟨_, rfl, idle_always rfl _⟩

end Raft

end RaftCore
