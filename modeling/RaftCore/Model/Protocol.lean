import Mathlib.Tactic

/-!
# Model/Protocol — the records replicas store and exchange

`protocol.h`: log entries, snapshots, the persisted hard state, membership changes, and the one
message type.  A member `m_cur_term` of the source is the field `curTerm`; `std::string` is a list
of bytes, `std::deque` and `std::vector` are lists, and the member initialisers are the default
values.  `to'` and `from'` are `m_to` and `m_from`, whose plain names Lean keeps for itself.
-/

namespace RaftCore

inductive EntryType where
  | entryNormal
  | entryConfChange
  deriving DecidableEq, Repr

inductive MessageType where
  | msgHup
  | msgBeat
  | msgProp
  | msgApp
  | msgAppResp
  | msgVote
  | msgVoteResp
  | msgSnap
  | msgHeartbeat
  | msgHeartbeatResp
  | msgUnreachable
  | msgSnapStatus
  | msgCheckQuorum
  | msgTransferLeader
  | msgTimeoutNow
  | msgReadIndex
  | msgReadIndexResp
  | msgPreVote
  | msgPreVoteResp
  deriving DecidableEq, Repr

inductive ConfChangeType where
  | confChangeAddNode
  | confChangeRemoveNode
  | confChangeUpdateNode
  | confChangeAddLearnerNode
  deriving DecidableEq, Repr

structure ConfState where
  peers : List UInt64 := []
  learners : List UInt64 := []
  deriving DecidableEq, Repr

structure SnapshotMetadata where
  confState : ConfState := {}
  index : UInt64 := 0
  term : UInt64 := 0
  deriving DecidableEq, Repr

structure Snapshot where
  snapshotMetadata : SnapshotMetadata := {}
  data : List UInt8 := []
  deriving DecidableEq, Repr

structure Entry where
  index : UInt64 := 0
  term : UInt64 := 0
  type : EntryType := .entryNormal
  data : List UInt8 := []
  deriving DecidableEq, Repr

structure Message where
  type : MessageType := .msgApp
  to' : UInt64 := 0
  from' : UInt64 := 0
  term : UInt64 := 0
  logTerm : UInt64 := 0
  index : UInt64 := 0
  entries : List Entry := []
  commit : UInt64 := 0
  snapshot : Snapshot := {}
  reject : Bool := false
  rejectHint : UInt64 := 0
  context : List UInt8 := []
  deriving DecidableEq, Repr

structure HardState where
  term : UInt64 := 0
  vote : UInt64 := 0
  commit : UInt64 := 0
  deriving DecidableEq, Repr

structure ConfChange where
  id : UInt64 := 0
  type : ConfChangeType := .confChangeAddLearnerNode
  nodeId : UInt64 := 0
  context : List UInt8 := []
  deriving DecidableEq, Repr

end RaftCore
