import RaftCore.Model.MemoryStorage
import RaftCore.Model.VolatileState

/-!
# Model/RaftLog — the log a node reads and appends to

`raftlog.cpp`: the volatile state over the storage, and the two marks `commit` and `applied`.  A
lookup falls through from the volatile layer to the storage; an append checks its predecessor,
searches the first entry the log does not have, and imports from there on.

The position of that entry is handed over as an `int`: `conflict_index - ents[0].m_index` is cut to
32 bits at the call and sign-extended by the comparison with `ents.size()`.
-/

namespace RaftCore

structure RaftLog where
  storage : MemoryStorage
  volatileState : VolatileState
  commit : UInt64
  applied : UInt64

namespace RaftLog

/-- The constructor. -/
def ofStorage (storage : MemoryStorage) : RaftLog where
  storage := storage
  volatileState := VolatileState.setOffset {} (storage.lastIndex + 1)
  commit := storage.firstIndex - 1
  applied := storage.firstIndex - 1

def setCommit (log : RaftLog) (commit : UInt64) : RaftLog := { log with commit := commit }

def termOf (log : RaftLog) (index : UInt64) : Outcome (Option UInt64) := do
  match ← log.volatileState.termOf index with
  | some term => .ok (some term)
  | none => .ok (log.storage.termOf index)

/-- `Match`. -/
def matchAt (log : RaftLog) (index term : UInt64) : Outcome Bool := do
  match ← log.termOf index with
  | none => .ok false
  | some termOfIndex => .ok (decide (term = termOfIndex))

def firstIndex (log : RaftLog) : UInt64 :=
  match log.volatileState.firstUnstableIndex with
  | some index => index
  | none => log.storage.firstIndex

def lastIndex (log : RaftLog) : UInt64 :=
  match log.volatileState.lastIndex with
  | some index => index
  | none => log.storage.lastIndex

/-- The index of the first entry the log does not have, or 0. -/
def findConflict (log : RaftLog) : List Entry → Outcome UInt64
  | [] => .ok 0
  | ent :: ents => do
    if ← log.matchAt ent.index ent.term then log.findConflict ents else .ok ent.index

def appendToVolatileState (log : RaftLog) (build : Build) (ents : List Entry) (offset : Int32) :
    Outcome (Bool × RaftLog) :=
  if UInt64.ofNat ents.length ≤ Word64.ofInt offset then .ok (true, log)
  else do
    let offsetIndex := (← Deque.get ents 0).index
    build.assert (log.commit < offsetIndex) "offset_index > m_commit"
    let volatileState ← log.volatileState.append ents (Word64.ofInt offset)
    .ok (true, { log with volatileState := volatileState })

def append (log : RaftLog) (build : Build) (lastIndex lastTerm commit : UInt64)
    (ents : List Entry) : Outcome (Bool × RaftLog) := do
  if ← log.matchAt lastIndex lastTerm then
    let conflictIndex ← log.findConflict ents
    build.assert (log.commit < conflictIndex) "conflict_index > m_commit"
    let offset := Word64.toInt (conflictIndex - (← Deque.get ents 0).index)
    let (_, appended) ← log.appendToVolatileState build ents offset
    .ok (true, { appended with
      commit := Word64.stdMin commit (lastIndex + UInt64.ofNat ents.length) })
  else .ok (false, log)

end RaftLog

end RaftCore
