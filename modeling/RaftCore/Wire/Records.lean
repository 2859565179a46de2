import RaftCore.Model.Protocol
import RaftCore.Msgpack.Adaptor

/-!
# Wire/Records — the records of the protocol as bytes

What `MSGPACK_DEFINE` makes of each class of `protocol.h`: its members in the order they are listed
there, an enumeration cast to `int`.  A record whose lengths fit in 32 bits (`Fits`) is carried: the
deepest item, a peer of a message's snapshot, stands in five containers.
-/

namespace RaftCore

open Msgpack

/-! ## The adaptors -/

def EntryType.enumerators : List EntryType := [.entryNormal, .entryConfChange]

def MessageType.enumerators : List MessageType :=
  [.msgHup, .msgBeat, .msgProp, .msgApp, .msgAppResp, .msgVote, .msgVoteResp, .msgSnap,
    .msgHeartbeat, .msgHeartbeatResp, .msgUnreachable, .msgSnapStatus, .msgCheckQuorum,
    .msgTransferLeader, .msgTimeoutNow, .msgReadIndex, .msgReadIndexResp, .msgPreVote,
    .msgPreVoteResp]

def ConfChangeType.enumerators : List ConfChangeType :=
  [.confChangeAddNode, .confChangeRemoveNode, .confChangeUpdateNode, .confChangeAddLearnerNode]

def ConfState.adaptor : Adaptor ConfState := .defineArray
  [⟨.sequence .uint64 0, peers, fun r v => { r with peers := v }⟩,
    ⟨.sequence .uint64 0, learners, fun r v => { r with learners := v }⟩]

def SnapshotMetadata.adaptor : Adaptor SnapshotMetadata := .defineArray
  [⟨ConfState.adaptor, confState, fun r v => { r with confState := v }⟩,
    ⟨.uint64, index, fun r v => { r with index := v }⟩,
    ⟨.uint64, term, fun r v => { r with term := v }⟩]

def Snapshot.adaptor : Adaptor Snapshot := .defineArray
  [⟨SnapshotMetadata.adaptor, snapshotMetadata, fun r v => { r with snapshotMetadata := v }⟩,
    ⟨.string, data, fun r v => { r with data := v }⟩]

def Entry.adaptor : Adaptor Entry := .defineArray
  [⟨.uint64, index, fun r v => { r with index := v }⟩,
    ⟨.uint64, term, fun r v => { r with term := v }⟩,
    ⟨.enumeration EntryType.enumerators, type, fun r v => { r with type := v }⟩,
    ⟨.string, data, fun r v => { r with data := v }⟩]

def Message.adaptor : Adaptor Message := .defineArray
  [⟨.enumeration MessageType.enumerators, type, fun r v => { r with type := v }⟩,
    ⟨.uint64, to', fun r v => { r with to' := v }⟩,
    ⟨.uint64, from', fun r v => { r with from' := v }⟩,
    ⟨.uint64, term, fun r v => { r with term := v }⟩,
    ⟨.uint64, logTerm, fun r v => { r with logTerm := v }⟩,
    ⟨.uint64, index, fun r v => { r with index := v }⟩,
    ⟨Entry.adaptor.sequence {}, entries, fun r v => { r with entries := v }⟩,
    ⟨.uint64, commit, fun r v => { r with commit := v }⟩,
    ⟨Snapshot.adaptor, snapshot, fun r v => { r with snapshot := v }⟩,
    ⟨.bool, reject, fun r v => { r with reject := v }⟩,
    ⟨.uint64, rejectHint, fun r v => { r with rejectHint := v }⟩,
    ⟨.string, context, fun r v => { r with context := v }⟩]

def HardState.adaptor : Adaptor HardState := .defineArray
  [⟨.uint64, term, fun r v => { r with term := v }⟩,
    ⟨.uint64, vote, fun r v => { r with vote := v }⟩,
    ⟨.uint64, commit, fun r v => { r with commit := v }⟩]

def ConfChange.adaptor : Adaptor ConfChange := .defineArray
  [⟨.uint64, id, fun r v => { r with id := v }⟩,
    ⟨.enumeration ConfChangeType.enumerators, type, fun r v => { r with type := v }⟩,
    ⟨.uint64, nodeId, fun r v => { r with nodeId := v }⟩,
    ⟨.string, context, fun r v => { r with context := v }⟩]

/-! ## What fits -/

structure ConfState.Fits (s : ConfState) : Prop where
  peers : s.peers.length < 2 ^ 32
  learners : s.learners.length < 2 ^ 32

structure Snapshot.Fits (s : Snapshot) : Prop where
  confState : s.snapshotMetadata.confState.Fits
  data : s.data.length < 2 ^ 32

structure Entry.Fits (e : Entry) : Prop where
  data : e.data.length < 2 ^ 32

structure Message.Fits (m : Message) : Prop where
  entries : m.entries.length < 2 ^ 32
  entry : ∀ e ∈ m.entries, e.Fits
  snapshot : m.snapshot.Fits
  context : m.context.length < 2 ^ 32

structure ConfChange.Fits (c : ConfChange) : Prop where
  context : c.context.length < 2 ^ 32

/-! ## What is carried -/

theorem ConfState.carries {s : ConfState} (h : s.Fits) : Carries ConfState.adaptor 2 s := by
  have hpeers : ∀ {v : List UInt64}, v.length < 2 ^ 32 → Carries (.sequence .uint64 0) 1 v :=
    fun hv => carries_sequence 0 hv fun d _ => carries_uint64 d
  exact carries_defineArray (by decide) (fun _ => rfl) ⟨hpeers h.peers, hpeers h.learners⟩

theorem SnapshotMetadata.carries {s : SnapshotMetadata} (h : s.confState.Fits) :
    Carries SnapshotMetadata.adaptor 3 s := by
  have hword : ∀ d, Carries .uint64 2 d := fun d => (carries_uint64 d).mono (by omega)
  exact carries_defineArray (by decide) (fun _ => rfl) ⟨ConfState.carries h, hword _, hword _⟩

theorem Snapshot.carries {s : Snapshot} (h : s.Fits) : Carries Snapshot.adaptor 4 s := by
  have hdata : Carries .string 3 s.data := (carries_string h.data).mono (by omega)
  exact carries_defineArray (by decide) (fun _ => rfl)
    ⟨SnapshotMetadata.carries h.confState, hdata⟩

theorem Entry.carries {e : Entry} (h : e.Fits) : Carries Entry.adaptor 1 e := by
  have htype : e.type ∈ EntryType.enumerators := by cases e.type <;> decide
  exact carries_defineArray (by decide) (fun _ => rfl) ⟨carries_uint64 _, carries_uint64 _,
    carries_enumeration htype (by decide), carries_string h.data⟩

/-- The entry `(1, 2, EntryNormal, "hello")`: an array of four items, the last of five bytes. -/
example : Entry.adaptor.pack { index := 1, term := 2, data := [104, 101, 108, 108, 111] }
    = .ok [0x94, 1, 2, 0, 0xa5, 104, 101, 108, 108, 111] := rfl

theorem Message.carries {m : Message} (h : m.Fits) : Carries Message.adaptor 5 m := by
  have hmem : m.type ∈ MessageType.enumerators := by cases m.type <;> decide
  have htype : Carries (.enumeration MessageType.enumerators) 4 m.type :=
    (carries_enumeration hmem (by decide)).mono (by omega)
  have hword : ∀ d, Carries .uint64 4 d := fun d => (carries_uint64 d).mono (by omega)
  have hentries : Carries (Entry.adaptor.sequence {}) 4 m.entries :=
    (carries_sequence {} h.entries fun e he => Entry.carries (h.entry e he)).mono (by omega)
  have hreject : Carries .bool 4 m.reject := (carries_bool _).mono (by omega)
  have hcontext : Carries .string 4 m.context := (carries_string h.context).mono (by omega)
  exact carries_defineArray (by decide) (fun _ => rfl) ⟨htype, hword _, hword _, hword _, hword _,
    hword _, hentries, hword _, Snapshot.carries h.snapshot, hreject, hword _, hcontext⟩

theorem HardState.carries (s : HardState) : Carries HardState.adaptor 1 s :=
  carries_defineArray (by decide) (fun _ => rfl)
    ⟨carries_uint64 _, carries_uint64 _, carries_uint64 _⟩

theorem ConfChange.carries {c : ConfChange} (h : c.Fits) : Carries ConfChange.adaptor 1 c := by
  have htype : c.type ∈ ConfChangeType.enumerators := by cases c.type <;> decide
  exact carries_defineArray (by decide) (fun _ => rfl) ⟨carries_uint64 _,
    carries_enumeration htype (by decide), carries_uint64 _, carries_string h.context⟩

/-- **The wire format round-trips**: every record whose lengths fit in 32 bits comes back from its
bytes, whatever follows them and whatever the target held. -/
theorem records_roundTrip :
    (∀ m : Message, m.Fits → RoundTrips Message.adaptor m) ∧
      (∀ e : Entry, e.Fits → RoundTrips Entry.adaptor e) ∧
      (∀ s : Snapshot, s.Fits → RoundTrips Snapshot.adaptor s) ∧
      (∀ s : HardState, RoundTrips HardState.adaptor s) ∧
      (∀ c : ConfChange, c.Fits → RoundTrips ConfChange.adaptor c) := by
  refine ⟨fun m h => ?_, fun e h => ?_, fun s h => ?_, fun s => ?_, fun c h => ?_⟩
  · exact (Message.carries h).roundTrips (by decide)
  · exact (Entry.carries h).roundTrips (by decide)
  · exact (Snapshot.carries h).roundTrips (by decide)
  · exact (HardState.carries s).roundTrips (by decide)
  · exact (ConfChange.carries h).roundTrips (by decide)

/-- A message with an entry and a snapshot. -/
theorem records_roundTrip_nested : RoundTrips Message.adaptor
    { type := .msgSnap, to' := 300, entries := [{ type := .entryConfChange, data := [7] }],
      snapshot := { snapshotMetadata := { confState := { peers := [1, 70000] } } } } := by
  refine records_roundTrip.1 _ ⟨by decide, fun e he => ?_, ⟨⟨by decide, by decide⟩, by decide⟩,
    by decide⟩
  obtain rfl := List.mem_singleton.mp he
  exact ⟨by decide⟩

end RaftCore
