import Mathlib.Tactic

/-!
# Model/RaftConfig — the configuration of a node

`raft_config.cpp`.  `Validate` returns at a failing check and has no `return` after the last one:
`none` says that control leaves the function without a value.
-/

namespace RaftCore

inductive ReadOnlyOption where
  | readOnlySafe
  | readOnlyLease
  deriving DecidableEq, Repr

structure RaftConfig where
  id : UInt64
  peers : List UInt64
  learners : List UInt64
  electionTick : UInt64
  heartbeatTick : UInt64
  applied : UInt64
  maxSizePerMsg : UInt64
  maxInflightMsgs : UInt64
  checkQuorum : Bool
  prevote : Bool
  readonlyOption : ReadOnlyOption
  disableProposalForwarding : Bool
  deriving DecidableEq, Repr

namespace RaftConfig

/-- A configuration that passes every check, at the least ticks and limits. -/
def least (id : UInt64) : RaftConfig where
  id := id
  peers := []
  learners := []
  electionTick := 10
  heartbeatTick := 1
  applied := 0
  maxSizePerMsg := 1
  maxInflightMsgs := 1
  checkQuorum := false
  prevote := false
  readonlyOption := .readOnlySafe
  disableProposalForwarding := false

def validate (cfg : RaftConfig) : Option Bool :=
  if cfg.id = 0 then some false
  else if cfg.heartbeatTick = 0 then some false
  else if cfg.electionTick < 10 * cfg.heartbeatTick then some false
  else if cfg.maxSizePerMsg = 0 ∨ cfg.maxInflightMsgs = 0 then some false
  else if cfg.readonlyOption = .readOnlyLease ∧ ¬cfg.checkQuorum then some false
  else none

end RaftConfig

end RaftCore
