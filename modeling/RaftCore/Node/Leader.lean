import RaftCore.Node.Step

/-!
# Node/Leader — nodes that agree on the leader of a term

A node's leader is written together with its term, from one message of a leader, and the term moves
in no other way (`Stepped.leader_cases`).  So along any run of any number of nodes a known leader is
the sender of some delivered message in the node's own term (`LedBy`): if no two such messages name
different leaders for one term, no two nodes do (`agreeOnLeader`).
-/

namespace RaftCore

open Runs

namespace Raft

variable {r r' : Raft} {draw : Draw} {msg : Message}

/-- **A step keeps the term and the leader, or takes both from a leader's message.** -/
theorem Stepped.leader_cases (h : Stepped r draw msg r') :
    r'.curTerm = r.curTerm ∧ r'.leader = r.leader ∨
      msg.type.FromLeader ∧ r'.curTerm = msg.term ∧ r'.leader = msg.from' := by
  cases h with
  | followed hterm htype => exact Or.inr ⟨htype, reset_curTerm r draw msg.term, rfl⟩
  | voteMoved => exact Or.inl ⟨rfl, rfl⟩
  | ignored => exact Or.inl ⟨rfl, rfl⟩

theorem loadState_leader (r : Raft) (hs : HardState) : (r.loadState hs).2.leader = r.leader := by
  rw [loadState]
  split <;> rfl

/-- A node that was just built knows no leader. -/
theorem construct_leader {unwritten : Unwritten} {cfg : RaftConfig} {st : MemoryStorage}
    (h : construct unwritten cfg st = .ok r) : r.leader = 0 := by
  obtain ⟨-, rfl⟩ := construct_eq_ok.mp h
  exact loadState_leader _ _

/-- **A known leader was heard of**, in the node's term, from one of these deliveries. -/
def LedBy (ds : List Delivery) (r : Raft) : Prop :=
  r.leader ≠ 0 →
    ∃ d ∈ ds, d.msg.type.FromLeader ∧ d.msg.term = r.curTerm ∧ d.msg.from' = r.leader

theorem LedBy.step {ds : List Delivery} {d : Delivery} (h : r.LedBy ds) (hd : d ∈ ds) :
    (r.stepMessage d.draw d.msg).LedBy ds := by
  intro hne
  rcases (stepMessage_stepped r d.draw d.msg).leader_cases with
    ⟨hterm, hlead⟩ | ⟨htype, hterm, hlead⟩
  · rw [hlead] at hne
    rw [hterm, hlead]
    exact h hne
  · exact ⟨d, hd, htype, hterm.symm, hlead.symm⟩

end Raft

/-! ## Any number of nodes -/

/-- Some nodes, each with its own state. -/
abbrev Nodes (ι : Type) := ι → Raft

namespace Nodes

variable {ι : Type}

/-- **Nodes in one term that know a leader know the same one.** -/
def AgreeOnLeader (nodes : Nodes ι) : Prop :=
  ∀ a b, (nodes a).curTerm = (nodes b).curTerm → (nodes a).leader ≠ 0 → (nodes b).leader ≠ 0 →
    (nodes a).leader = (nodes b).leader

/-- No two messages of leaders carry one term and different senders. -/
def OneLeaderPerTerm (ds : List Delivery) : Prop :=
  ∀ d ∈ ds, ∀ d' ∈ ds, d.msg.type.FromLeader → d'.msg.type.FromLeader →
    d.msg.term = d'.msg.term → d.msg.from' = d'.msg.from'

instance (ds : List Delivery) : Decidable (OneLeaderPerTerm ds) :=
  inferInstanceAs (Decidable (∀ d ∈ ds, ∀ d' ∈ ds, _ → _ → _ = _ → _ = _))

/-- Leaders that were all heard of from the same messages agree. -/
theorem agreeOnLeader_of_ledBy {ds : List Delivery} (hone : OneLeaderPerTerm ds) {nodes : Nodes ι}
    (h : ∀ a, (nodes a).LedBy ds) : nodes.AgreeOnLeader := by
  intro a b hterm ha hb
  obtain ⟨d, hd, htype, hdterm, hdfrom⟩ := h a ha
  obtain ⟨d', hd', htype', hdterm', hdfrom'⟩ := h b hb
  rw [← hdfrom, ← hdfrom']
  exact hone d hd d' hd' htype htype' (hdterm.trans (hterm.trans hdterm'.symm))

variable [DecidableEq ι]

/-- One message, to one node. -/
def deliverTo (nodes : Nodes ι) (e : ι × Delivery) : Option (Nodes ι) :=
  ((nodes e.1).deliver e.2).map (Function.update nodes e.1)

/-- **Nodes agree on the leader of a term**, in every state a run of deliveries reaches. -/
theorem agreeOnLeader {nodes : Nodes ι}
    (hbuilt : ∀ a, ∃ unwritten cfg st, Raft.construct unwritten cfg st = .ok (nodes a))
    {events : List (ι × Delivery)} (hone : OneLeaderPerTerm (events.map Prod.snd)) :
    Always deliverTo AgreeOnLeader nodes events := by
  let ds := events.map Prod.snd
  have hled : Always deliverTo (fun nodes => ∀ a, (nodes a).LedBy ds) nodes events := by
    refine always_of_inv (Q := fun _ e => e.2 ∈ ds) (fun nodes e nodes' h he hs a => ?_)
      (fun a hne => ?_) (along_of_forall fun e he => List.mem_map_of_mem he)
    · obtain rfl := Option.some.inj hs
      rcases eq_or_ne a e.1 with rfl | hother
      · rw [Function.update_self]
        exact (h e.1).step he
      · rw [Function.update_of_ne hother]
        exact h a
    · obtain ⟨unwritten, cfg, st, hnode⟩ := hbuilt a
      exact absurd (Raft.construct_leader hnode) hne
  exact fun nodes hvisit => agreeOnLeader_of_ledBy hone (hled nodes hvisit)

/-- Two nodes that hear of leader 3 in term 2, one of them late, and of leader 2 in term 4. -/
theorem agreeOnLeader_late : Always deliverTo AgreeOnLeader
    (fun a : Bool => ((Raft.initial .zeros (.least (if a then 1 else 2)) {}).loadState {}).2)
    [(true, ⟨fun _ => 0, { type := .msgApp, from' := 3, term := 2 }⟩),
      (true, ⟨fun _ => 0, { type := .msgVote, from' := 2, term := 3 }⟩),
      (false, ⟨fun _ => 0, { type := .msgSnap, from' := 2, term := 4 }⟩),
      (false, ⟨fun _ => 0, { type := .msgApp, from' := 3, term := 2 }⟩),
      (true, ⟨fun _ => 0, { type := .msgHeartbeat, from' := 2, term := 4 }⟩)] :=
  agreeOnLeader (fun a => ⟨.zeros, .least (if a then 1 else 2), {}, by cases a <;> rfl⟩) (by decide)

end Nodes

end RaftCore
