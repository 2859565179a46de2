import RaftCore.Machinery.Runs
import RaftCore.Model.Raft

/-!
# Node/Step — what one message does

A message above the node's term has one of two effects (`Stepped`): from a leader it makes the node
a follower in the message's term; asking for a vote, it moves a vote that was cast to its sender,
and leaves the term.  Every other message, and every message at or below the term, is ignored.

A delivery is a message and the draw its step would make; deliveries are total, so a run of them is
a fold (`deliverAll`).
-/

namespace RaftCore

open Runs

/-- The message types that follow a leader of their term. -/
def MessageType.FromLeader (type : MessageType) : Prop :=
  type = .msgApp ∨ type = .msgHeartbeat ∨ type = .msgSnap

/-- The message types that ask for a vote, or whether there would be one. -/
def MessageType.AsksVote (type : MessageType) : Prop := type = .msgPreVote ∨ type = .msgVote

instance (type : MessageType) : Decidable type.FromLeader :=
  inferInstanceAs (Decidable (_ ∨ _ ∨ _))

instance (type : MessageType) : Decidable type.AsksVote := inferInstanceAs (Decidable (_ ∨ _))

theorem MessageType.AsksVote.not_fromLeader {type : MessageType} (h : type.AsksVote) :
    ¬type.FromLeader := by
  rcases h with rfl | rfl <;> decide

structure Delivery where
  draw : Draw
  msg : Message

namespace Raft

variable {r r' : Raft} {draw : Draw} {msg : Message} {term leader : UInt64}

def deliver (r : Raft) (d : Delivery) : Option Raft := some (r.stepMessage d.draw d.msg)

def deliverAll (r : Raft) (ds : List Delivery) : Raft :=
  ds.foldl (fun r d => r.stepMessage d.draw d.msg) r

@[simp] theorem reset_curTerm (r : Raft) (draw : Draw) (term : UInt64) :
    (r.reset draw term).curTerm = term := by
  by_cases h : r.curTerm = term <;> simp [reset, h]

theorem reset_voteFor_of_ne (h : r.curTerm ≠ term) (draw : Draw) :
    (r.reset draw term).voteFor = 0 := by
  simp [reset, h]

/-- **What a message did.** -/
inductive Stepped (r : Raft) (draw : Draw) (msg : Message) : Raft → Prop
  | followed (hterm : r.curTerm < msg.term) (htype : msg.type.FromLeader) :
      Stepped r draw msg (r.becomeFollower draw msg.term msg.from')
  | voteMoved (hterm : r.curTerm < msg.term) (htype : msg.type.AsksVote) (hvote : r.voteFor ≠ 0) :
      Stepped r draw msg { r with voteFor := msg.from' }
  | ignored (hleader : r.curTerm < msg.term → ¬msg.type.FromLeader)
      (hvote : r.curTerm < msg.term → msg.type.AsksVote → r.voteFor = 0) : Stepped r draw msg r

theorem stepMessage_stepped (r : Raft) (draw : Draw) (msg : Message) :
    Stepped r draw msg (r.stepMessage draw msg) := by
  rw [stepMessage]
  split_ifs with hterm hleader hasks hvote
  · exact .followed hterm hleader
  · exact .voteMoved hterm hasks hvote
  · exact .ignored (fun _ => hleader) fun _ _ => not_not.mp hvote
  · exact .ignored (fun _ => hleader) fun _ h => absurd h hasks
  · exact .ignored (fun h => absurd h hterm) fun h => absurd h hterm

theorem Stepped.of_deliver {d : Delivery} (h : r.deliver d = some r') :
    Stepped r d.draw d.msg r' := by
  obtain rfl := Option.some.inj h
  exact stepMessage_stepped r d.draw d.msg

/-- **The term after a message** is the greater of the term before and, from a leader, the
message's. -/
theorem Stepped.isGreatest (h : Stepped r draw msg r') :
    IsGreatest {n | n = r.curTerm.toNat ∨ msg.type.FromLeader ∧ n = msg.term.toNat}
      r'.curTerm.toNat := by
  cases h with
  | followed hterm htype =>
    have hnew : (r.becomeFollower draw msg.term msg.from').curTerm = msg.term :=
      reset_curTerm r draw msg.term
    rw [hnew]
    refine ⟨Or.inr ⟨htype, rfl⟩, ?_⟩
    rintro n (rfl | ⟨-, rfl⟩)
    · exact (UInt64.lt_iff_toNat_lt.mp hterm).le
    · exact le_rfl
  | voteMoved hterm htype =>
    refine ⟨Or.inl rfl, ?_⟩
    rintro n (rfl | ⟨hleader, -⟩)
    · exact le_rfl
    · exact absurd hleader htype.not_fromLeader
  | ignored hleader =>
    refine ⟨Or.inl rfl, ?_⟩
    rintro n (rfl | ⟨hfrom, rfl⟩)
    · exact le_rfl
    · exact not_lt.mp fun hlt => hleader (UInt64.lt_iff_toNat_lt.mpr hlt) hfrom

/-- **A step that raises the term** follows the sender, and has cast no vote. -/
theorem Stepped.of_rise (h : Stepped r draw msg r') (hrise : r.curTerm < r'.curTerm) :
    r'.curState = .stateFollower ∧ r'.leader = msg.from' ∧ r'.voteFor = 0 := by
  cases h with
  | followed hterm => exact ⟨rfl, rfl, reset_voteFor_of_ne (UInt64.ne_of_lt hterm) draw⟩
  | voteMoved => exact absurd hrise (UInt64.lt_irrefl _)
  | ignored => exact absurd hrise (UInt64.lt_irrefl _)

end Raft

end RaftCore
