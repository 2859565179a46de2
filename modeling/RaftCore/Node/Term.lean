import RaftCore.Node.Step

/-!
# Node/Term — the term a node ends a run in

After any run of messages the term is the greatest of the starting term and the terms of the
messages that follow a leader (`isGreatest_deliverAll`): no other message raises it, vote requests
and responses included.  So the node has kept up with every term it heard of exactly when each of
them is covered by its starting term or by such a message (`keepsUp_iff`).  A step that does raise
the term always leaves a follower without a vote.
-/

namespace RaftCore

open Runs

/-- The message types whose term counts: all but the two of a pre-election. -/
def MessageType.Counts (type : MessageType) : Prop := type ≠ .msgPreVote ∧ type ≠ .msgPreVoteResp

instance (type : MessageType) : Decidable type.Counts := inferInstanceAs (Decidable (_ ∧ _))

theorem MessageType.FromLeader.counts {type : MessageType} (h : type.FromLeader) : type.Counts := by
  rcases h with rfl | rfl | rfl <;> decide

namespace Raft

variable {r r' : Raft} {draw : Draw} {msg : Message}

/-- The starting term and the terms of the messages of some types. -/
def termsHeard (p : MessageType → Prop) (r : Raft) (ds : List Delivery) : Set ℕ :=
  {n | n = r.curTerm.toNat ∨ ∃ d ∈ ds, p d.msg.type ∧ n = d.msg.term.toNat}

/-- A step that raises the term leaves a follower whose vote is none, or the sender's who asked
for it. -/
def RaisesCleanly (r : Raft) (d : Delivery) : Prop :=
  ∀ r', r.deliver d = some r' → r.curTerm < r'.curTerm → r'.curState = .stateFollower ∧
    (r'.voteFor = 0 ∨ d.msg.type = .msgVote ∧ r'.voteFor = d.msg.from')

/-- **The node keeps up with the highest term it has heard of.** -/
def KeepsUp (r : Raft) (ds : List Delivery) : Prop :=
  IsGreatest (termsHeard MessageType.Counts r ds) (r.deliverAll ds).curTerm.toNat ∧
    Along deliver RaisesCleanly r ds

theorem raisesCleanly (r : Raft) (d : Delivery) : r.RaisesCleanly d := by
  intro r' hs hrise
  obtain ⟨hstate, -, hvote⟩ := (Stepped.of_deliver hs).of_rise hrise
  exact ⟨hstate, Or.inl hvote⟩

/-- **The final term** is the greatest one heard from a leader, or the starting one. -/
theorem isGreatest_deliverAll (r : Raft) (ds : List Delivery) :
    IsGreatest (termsHeard MessageType.FromLeader r ds) (r.deliverAll ds).curTerm.toNat := by
  induction ds generalizing r with
  | nil =>
    refine ⟨Or.inl rfl, ?_⟩
    rintro n (rfl | ⟨d, hd, -⟩)
    · exact le_rfl
    · exact absurd hd List.not_mem_nil
  | cons d ds ih =>
    obtain ⟨hin, hup⟩ := (stepMessage_stepped r d.draw d.msg).isGreatest
    obtain ⟨hfin, hfup⟩ := ih (r.stepMessage d.draw d.msg)
    -- everything heard before the rest of the run is in the term it starts with
    have hle : (r.stepMessage d.draw d.msg).curTerm.toNat ≤ _ := hfup (Or.inl rfl)
    refine ⟨?_, ?_⟩
    · rcases hfin with heq | ⟨d', hd', hfrom, heq⟩
      · rcases hin with hkept | ⟨hfrom, hraised⟩
        · exact Or.inl (heq.trans hkept)
        · exact Or.inr ⟨d, List.mem_cons_self .., hfrom, heq.trans hraised⟩
      · exact Or.inr ⟨d', List.mem_cons_of_mem _ hd', hfrom, heq⟩
    · rintro n (rfl | ⟨d', hd', hfrom, rfl⟩)
      · exact (hup (Or.inl rfl)).trans hle
      · rcases List.mem_cons.mp hd' with rfl | hd'
        · exact (hup (Or.inr ⟨hfrom, rfl⟩)).trans hle
        · exact hfup (Or.inr ⟨d', hd', hfrom, rfl⟩)

/-- **When a node keeps up**: no term it hears of is above both its own and those of leaders. -/
theorem keepsUp_iff (r : Raft) (ds : List Delivery) :
    r.KeepsUp ds ↔ ∀ d ∈ ds, d.msg.type.Counts → d.msg.term ≤ r.curTerm ∨
      ∃ d' ∈ ds, d'.msg.type.FromLeader ∧ d.msg.term ≤ d'.msg.term := by
  obtain ⟨hin, hup⟩ := isGreatest_deliverAll r ds
  constructor
  · intro h d hd hcounts
    have hle : d.msg.term.toNat ≤ _ := h.1.2 (Or.inr ⟨d, hd, hcounts, rfl⟩)
    rcases hin with heq | ⟨d', hd', hfrom, heq⟩
    · exact Or.inl (UInt64.le_iff_toNat_le.mpr (heq ▸ hle))
    · exact Or.inr ⟨d', hd', hfrom, UInt64.le_iff_toNat_le.mpr (heq ▸ hle)⟩
  · intro h
    refine ⟨⟨?_, ?_⟩, along_of_all raisesCleanly r ds⟩
    · exact hin.imp_right fun ⟨d, hd, hfrom, heq⟩ => ⟨d, hd, hfrom.counts, heq⟩
    · rintro n (rfl | ⟨d, hd, hcounts, rfl⟩)
      · exact hup (Or.inl rfl)
      · rcases h d hd hcounts with hle | ⟨d', hd', hfrom, hle⟩
        · exact (UInt64.le_iff_toNat_le.mp hle).trans (hup (Or.inl rfl))
        · exact (UInt64.le_iff_toNat_le.mp hle).trans (hup (Or.inr ⟨d', hd', hfrom, rfl⟩))

/-- **A vote request in a higher term is not kept up with**, by a node that was just built. -/
theorem not_keepsUp_voteRequest : ¬∀ (unwritten : Unwritten) (cfg : RaftConfig)
    (st : MemoryStorage) (r : Raft) (ds : List Delivery),
    construct unwritten cfg st = .ok r → r.KeepsUp ds := by
  intro hall
  have hkeeps := hall .zeros (.least 1) {} _
    [⟨fun _ => 0, { type := .msgVote, from' := 2, term := 1 }⟩] rfl
  have hle : 1 ≤ 0 := hkeeps.1.2 (Or.inr ⟨_, List.mem_singleton_self _, by decide, rfl⟩)
  exact absurd hle (by decide)

end Raft

end RaftCore
