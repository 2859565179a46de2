import RaftCore.Machinery.Outcome
import RaftCore.Machinery.Word64

/-!
# Model/Progress — what a leader knows of one member

`progress.cpp`: the window of messages in flight, and the member's progress around it.  The window
keeps a count beside its buffer, and its loops test the count and read the buffer, so they can reach
past an empty buffer; that is a fault.
-/

namespace RaftCore

inductive ProgressStateType where
  | progressProbe
  | progressReplicate
  | progressSnapshot
  deriving DecidableEq, Repr

structure Inflights where
  count : UInt32
  size : UInt32
  buffer : List UInt64
  deriving DecidableEq, Repr

namespace Inflights

/-- The constructor. -/
def ofSize (size : UInt32) : Inflights where
  count := 0
  size := size
  buffer := []

def full (w : Inflights) : Bool := w.size = w.count

def add (w : Inflights) (index : UInt64) : Bool × Inflights :=
  if w.full then (false, w)
  else (true, { w with buffer := w.buffer ++ [index], count := w.count + 1 })

/-- The loop of `Freeto`, on the count and the buffer. -/
def freetoLoop (index : UInt64) : UInt32 → List UInt64 → Outcome (UInt32 × List UInt64)
  | count, [] =>
    if 0 < count then .error (.undefined "begin() of an empty list") else .ok (count, [])
  | count, first :: rest =>
    if 0 < count ∧ first ≤ index then freetoLoop index (count - 1) rest
    else .ok (count, first :: rest)

def freeto (w : Inflights) (index : UInt64) : Outcome Inflights := do
  let (count, buffer) ← freetoLoop index w.count w.buffer
  .ok { w with count := count, buffer := buffer }

def freeFirstOne (w : Inflights) : Outcome Inflights :=
  if 0 < w.count then
    match w.buffer with
    | [] => .error (.undefined "pop_front() of an empty list")
    | _ :: rest => .ok { w with buffer := rest, count := w.count - 1 }
  else .ok w

/-- The capacity is reset as well: nothing fits from here on. -/
def reset (_ : Inflights) : Inflights where
  size := 0
  count := 0
  buffer := []

end Inflights

structure Progress where
  match' : UInt64
  next : UInt64
  state : ProgressStateType
  paused : Bool
  active : Bool
  inflights : Inflights
  learner : Bool
  pendingSnapshotIndex : UInt64
  deriving DecidableEq, Repr

namespace Progress

def setState (p : Progress) (state : ProgressStateType) : Progress :=
  { p with state := state, paused := false, inflights := p.inflights.reset }

def becomeProbe (p : Progress) : Progress :=
  if p.state = .progressSnapshot then
    let pendingIndex := p.pendingSnapshotIndex
    let p := p.setState .progressProbe
    { p with next := Word64.stdMax (p.match' + 1) (pendingIndex + 1) }
  else
    let p := p.setState .progressProbe
    { p with next := p.match' + 1 }

def becomeReplicate (p : Progress) : Progress :=
  let p := p.setState .progressReplicate
  { p with next := p.match' + 1 }

def becomeSnapshot (p : Progress) (snapshotIndex : UInt64) : Progress :=
  { p.setState .progressSnapshot with pendingSnapshotIndex := snapshotIndex }

def pause (p : Progress) : Progress := { p with paused := true }

def resume (p : Progress) : Progress := { p with paused := false }

def mayUpdate (p : Progress) (matchIndex : UInt64) : Bool × Progress :=
  let (updateMatch, p) :=
    if p.match' < matchIndex then (true, { p with match' := matchIndex }.resume) else (false, p)
  (updateMatch, { p with next := Word64.stdMax p.next (matchIndex + 1) })

def sendStopped (p : Progress) : Bool :=
  match p.state with
  | .progressProbe => p.paused
  | .progressReplicate => p.inflights.full
  | .progressSnapshot => true

end Progress

end RaftCore
