import RaftCore.Machinery.Outcome
import RaftCore.Machinery.Word64
import RaftCore.Model.Protocol

/-!
# Model/VolatileState — the log entries that are not in the storage yet

`volatile_state.cpp`: a deque of entries, the index `offset` of the first of them, and the snapshot
that is being installed.  A function with an out-parameter returns an `Option`; every access that
can leave the deque goes through `Deque` and can fail.
-/

namespace RaftCore

structure VolatileState where
  snapshot : Option Snapshot := none
  entries : List Entry := []
  offset : UInt64 := 1
  deriving DecidableEq, Repr

namespace VolatileState

def setOffset (v : VolatileState) (offset : UInt64) : VolatileState := { v with offset := offset }

def lastIndex (v : VolatileState) : Option UInt64 :=
  match v.entries.getLast? with
  | some ent => some ent.index
  | none => v.snapshot.map fun s => s.snapshotMetadata.index

/-- The second half of `TermOf`: the term at the snapshot's own index. -/
def snapshotTerm (v : VolatileState) (index : UInt64) : Option UInt64 :=
  match v.snapshot with
  | some s => if s.snapshotMetadata.index = index then some s.snapshotMetadata.term else none
  | none => none

def termOf (v : VolatileState) (index : UInt64) : Outcome (Option UInt64) :=
  if v.entries = [] then .ok (v.snapshotTerm index)
  else do
    let localFirstIndex := (← Deque.front v.entries).index
    let localEndIndex := (← Deque.back v.entries).index
    if localFirstIndex ≤ index ∧ index ≤ localEndIndex then
      let ent ← Deque.get v.entries (index - localFirstIndex)
      .ok (some ent.term)
    else .ok (v.snapshotTerm index)

def clearEntriesBefore (v : VolatileState) (index term : UInt64) :
    Outcome (Bool × VolatileState) := do
  if (← v.termOf index) ≠ some term then .ok (false, v)
  else
    let localFirstIndex := (← Deque.front v.entries).index
    let localEndIndex := (← Deque.back v.entries).index
    if localEndIndex < index ∨ index < localFirstIndex then .ok (false, v)
    else
      let entries ← Deque.eraseUpTo v.entries (index - localFirstIndex + 1)
      .ok (true, { v with entries := entries, offset := index + 1 })

def clearSnapshot (v : VolatileState) (index : UInt64) : Bool × VolatileState :=
  match v.snapshot with
  | none => (false, v)
  | some s =>
    if s.snapshotMetadata.index ≠ index then (false, v) else (true, { v with snapshot := none })

def append (v : VolatileState) (entries : List Entry) (offset : UInt64) :
    Outcome VolatileState :=
  if UInt64.ofNat entries.length ≤ offset then .ok v
  else do
    let importFirstIndexShouldBe := v.offset + UInt64.ofNat v.entries.length
    let importFirstIndex := (← Deque.get entries offset).index
    let income := entries.drop offset.toNat
    if importFirstIndexShouldBe = importFirstIndex then
      .ok { v with entries := v.entries ++ income }
    else if importFirstIndex ≤ v.offset then
      .ok { v with entries := income, offset := importFirstIndex }
    else
      let localEndIndex := (← Deque.back v.entries).index
      if localEndIndex < importFirstIndex then
        .error (.panic "gap between local entries and income entries")
      else
        -- the number of entries kept; `importFirstIndex - offset` would keep those below the import
        let preserve := localEndIndex - importFirstIndex
        let kept ← Deque.eraseFrom v.entries preserve
        .ok { v with entries := kept ++ income }

/-- A null snapshot puts the state back to its initial offset. -/
def load (_ : VolatileState) (snapshot : Option Snapshot) : VolatileState where
  snapshot := snapshot
  entries := []
  offset := match snapshot with
    | none => 1
    | some s => s.snapshotMetadata.index + 1

def firstUnstableIndex (v : VolatileState) : Option UInt64 :=
  v.snapshot.map fun s => s.snapshotMetadata.index + 1

end VolatileState

end RaftCore
