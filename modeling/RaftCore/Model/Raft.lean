import RaftCore.Model.Progress
import RaftCore.Model.RaftConfig
import RaftCore.Model.RaftLog

/-!
# Model/Raft — the node

`raft.cpp`: construction over a storage, the return of a node to its initial footing (`Reset`), and
the step on a message.  A `std::map` is an `ExtTreeMap`, and the random draw of `Reset` is an
argument, the distribution's answer to its upper bound.

The constructor reads and leaves values the program never wrote: what `Validate` yields when it
leaves without a value, and three members without an initial value.  They are arguments too
(`Unwritten`).
-/

namespace RaftCore

inductive StateType where
  | stateFollower
  | statePreCandidate
  | stateCandidate
  | stateLeader
  deriving DecidableEq, Repr

/-- A `std::map` from node ids. -/
abbrev NodeMap (β : Type) := Std.ExtTreeMap UInt64 β compare

structure Raft where
  id : UInt64
  curTerm : UInt64
  voteFor : UInt64
  raftlog : RaftLog
  maxSizePerMsg : UInt64
  maxInflightMsgs : UInt64
  curState : StateType
  isLearner : Bool
  messages : List Message
  leader : UInt64
  transferLeader : UInt64
  heartbeatTick : UInt64
  electionTick : UInt64
  heartbeatElapsed : UInt64
  electionElapsed : UInt64
  randomElectionTick : UInt64
  disableProposalForwarding : Bool
  readonlyOption : ReadOnlyOption
  votes : NodeMap Bool
  peers : NodeMap Progress
  learners : NodeMap Progress
  pendingConf : Bool
  transferLearder : UInt64

/-- The values a constructor call finds in what the program never wrote. -/
structure Unwritten where
  validated : Bool
  curState : StateType
  transferLeader : UInt64
  pendingConf : Bool

/-- A validation taken as passed, and zeros. -/
def Unwritten.zeros : Unwritten := ⟨true, .stateFollower, 0, false⟩

/-- The distribution's answer to an upper bound. -/
abbrev Draw := Int32 → Int32

/-- What `Reset` does to the progress of the member `nodeId`. -/
def Progress.raftReset (p : Progress) (nodeId id lastIndex : UInt64) : Progress :=
  { p with
    next := lastIndex + 1
    active := true
    pendingSnapshotIndex := 0
    inflights := p.inflights.reset
    match' := if nodeId = id then lastIndex else 0 }

namespace Raft

/-- A commit below the log's refuses the whole hard state. -/
def loadState (r : Raft) (hs : HardState) : Bool × Raft :=
  if hs.commit < r.raftlog.commit then (false, r)
  else (true, { r with
    raftlog := r.raftlog.setCommit hs.commit
    curTerm := hs.term
    voteFor := hs.vote })

/-- The members the constructor sets before it loads the hard state. -/
def initial (unwritten : Unwritten) (cfg : RaftConfig) (storage : MemoryStorage) : Raft where
  id := cfg.id
  curTerm := 0
  voteFor := 0
  raftlog := RaftLog.ofStorage storage
  maxSizePerMsg := cfg.maxSizePerMsg
  maxInflightMsgs := cfg.maxInflightMsgs
  -- the source declares a local variable of this name instead
  curState := unwritten.curState
  isLearner := false
  messages := []
  leader := 0
  transferLeader := unwritten.transferLeader
  heartbeatTick := cfg.heartbeatTick
  electionTick := cfg.electionTick
  heartbeatElapsed := 0
  electionElapsed := 0
  randomElectionTick := 0
  disableProposalForwarding := cfg.disableProposalForwarding
  readonlyOption := cfg.readonlyOption
  votes := ∅
  peers := ∅
  learners := ∅
  pendingConf := unwritten.pendingConf
  transferLearder := 0

/-- The constructor.  The members the node is to have are computed in the source, and then dropped;
what `LoadState` answers is not read. -/
def construct (unwritten : Unwritten) (cfg : RaftConfig) (storage : MemoryStorage) :
    Outcome Raft :=
  if ¬cfg.validate.getD unwritten.validated then .error (.panic "cfg is not validate")
  else
    let hs := storage.getHardState
    let cs := storage.getConfState
    if (cs.peers.length ≠ 0 ∨ cs.learners.length ≠ 0) ∧
        (cfg.peers.length ≠ 0 ∨ cfg.learners.length ≠ 0) then
      .error (.panic
        "when peers and learners config stored in db, cant specify it in config")
    else .ok ((initial unwritten cfg storage).loadState hs).2

/-- `Random`, with the bound passed as an `int` and the answer read back as a `uint64_t`. -/
def random (draw : Draw) (high : UInt64) : UInt64 := Word64.ofInt (draw (Word64.toInt high))

def reset (r : Raft) (draw : Draw) (term : UInt64) : Raft :=
  let r := if r.curTerm ≠ term then { r with curTerm := term, voteFor := 0 } else r
  { r with
    transferLeader := 0
    heartbeatElapsed := 0
    electionElapsed := 0
    randomElectionTick := random draw r.electionTick + r.electionTick
    votes := ∅
    pendingConf := false
    peers := r.peers.map fun nodeId prog => prog.raftReset nodeId r.id r.raftlog.lastIndex
    learners := r.learners.map fun nodeId prog => prog.raftReset nodeId r.id r.raftlog.lastIndex }

def becomeFollower (r : Raft) (draw : Draw) (term leader : UInt64) : Raft :=
  { r.reset draw term with curState := .stateFollower, leader := leader }

def stepMessage (r : Raft) (draw : Draw) (msg : Message) : Raft :=
  if r.curTerm < msg.term then
    if msg.type = .msgApp ∨ msg.type = .msgHeartbeat ∨ msg.type = .msgSnap then
      r.becomeFollower draw msg.term msg.from'
    else if msg.type = .msgPreVote ∨ msg.type = .msgVote then
      -- a vote that was never cast stays so; one that was cast follows the message
      if r.voteFor ≠ 0 then { r with voteFor := msg.from' } else r
    else r
  else r

/-- There is nothing in the branch. -/
def stepLeader (r : Raft) (msg : Message) : Raft := if r.curTerm < msg.term then r else r

/-! ## Construction -/

/-- The constructor's checks, in one condition. -/
def Admits (unwritten : Unwritten) (cfg : RaftConfig) (storage : MemoryStorage) : Prop :=
  cfg.validate.getD unwritten.validated ∧
    ((storage.getConfState.peers = [] ∧ storage.getConfState.learners = []) ∨
      (cfg.peers = [] ∧ cfg.learners = []))

/-- **A constructed node is the initial one with the storage's hard state offered to it.** -/
theorem construct_eq_ok {unwritten : Unwritten} {cfg : RaftConfig} {storage : MemoryStorage}
    {r : Raft} : construct unwritten cfg storage = .ok r ↔
      Admits unwritten cfg storage ∧
        r = ((initial unwritten cfg storage).loadState storage.getHardState).2 := by
  rw [construct, Admits]
  by_cases hvalid : cfg.validate.getD unwritten.validated
  swap
  · simp [hvalid]
  rw [if_neg (not_not_intro hvalid)]
  dsimp only
  split_ifs with hboth
  · refine iff_of_false (by simp) fun h => ?_
    simp only [ne_eq, List.length_eq_zero_iff] at hboth
    tauto
  · simp only [ne_eq, List.length_eq_zero_iff] at hboth
    rw [Except.ok.injEq, eq_comm, iff_and_self]
    intro _
    tauto

end Raft

end RaftCore
