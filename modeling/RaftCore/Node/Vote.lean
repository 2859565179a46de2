import RaftCore.Node.Step

/-!
# Node/Vote — one vote in a term

A vote, once cast, may only go when the term rises.  A message that asks for a vote breaks this: it
moves a cast vote to its sender and leaves the term.  So a run keeps the rule exactly when every
such message above the node's term finds no vote cast, or cast for its sender
(`oneVotePerTerm_iff`).
-/

namespace RaftCore

open Runs

namespace Raft

variable {r r' : Raft} {draw : Draw} {msg : Message}

/-- A step replaces a recorded vote only together with the term, and none for a pre-vote. -/
def KeepsVote (r : Raft) (d : Delivery) : Prop :=
  ∀ r', r.deliver d = some r' →
    (r.voteFor ≠ 0 → r'.voteFor ≠ r.voteFor → r.curTerm < r'.curTerm) ∧
      (d.msg.type = .msgPreVote → r'.voteFor = r.voteFor)

/-- **At most one vote in a term**, over the states of a run and over its steps. -/
def OneVotePerTerm (r : Raft) (ds : List Delivery) : Prop :=
  (∀ s ∈ visited deliver r ds, ∀ t ∈ visited deliver r ds, s.curTerm = t.curTerm →
    s.voteFor ≠ 0 → t.voteFor ≠ 0 → s.voteFor = t.voteFor) ∧
  Along deliver KeepsVote r ds

/-- A message above the term that asks for a vote finds none cast, or one for its sender. -/
def VoteUncontested (r : Raft) (d : Delivery) : Prop :=
  d.msg.type.AsksVote → r.curTerm < d.msg.term → r.voteFor = 0 ∨ r.voteFor = d.msg.from'

instance (r : Raft) (d : Delivery) : Decidable (r.VoteUncontested d) :=
  inferInstanceAs (Decidable (_ → _ → _ ∨ _))

/-- The vote stands as long as the term does. -/
def VoteStands (r r' : Raft) : Prop :=
  r.curTerm < r'.curTerm ∨ r.curTerm = r'.curTerm ∧ r.voteFor = r'.voteFor

theorem VoteStands.refl (r : Raft) : r.VoteStands r := Or.inr ⟨rfl, rfl⟩

theorem VoteStands.trans {r₁ r₂ r₃ : Raft} (h : r₁.VoteStands r₂) (h' : r₂.VoteStands r₃) :
    r₁.VoteStands r₃ := by
  rcases h with hlt | ⟨hterm, hvote⟩
  · rcases h' with hlt' | ⟨hterm', -⟩
    · exact Or.inl (UInt64.lt_trans hlt hlt')
    · exact Or.inl (hterm' ▸ hlt)
  · rw [VoteStands, hterm, hvote]
    exact h'

/-- **A step on an uncontested message**: the vote stands, and a pre-vote is ignored. -/
theorem Stepped.voteStands (h : Stepped r draw msg r')
    (hfree : msg.type.AsksVote → r.curTerm < msg.term → r.voteFor = 0 ∨ r.voteFor = msg.from') :
    r.VoteStands r' ∧ (msg.type = .msgPreVote → r'.voteFor = r.voteFor) := by
  cases h with
  | followed hterm htype =>
    refine ⟨Or.inl ?_, fun hpre => ?_⟩
    · exact lt_of_lt_of_eq hterm (reset_curTerm r draw msg.term).symm
    · rw [hpre] at htype
      exact absurd htype (by decide)
  | voteMoved hterm htype hvote =>
    -- the vote moves to where it is
    have hsame : r.voteFor = msg.from' := (hfree htype hterm).resolve_left hvote
    exact ⟨Or.inr ⟨rfl, hsame⟩, fun _ => hsame.symm⟩
  | ignored => exact ⟨.refl r, fun _ => rfl⟩

theorem Stepped.eq_of_asksVote (h : Stepped r draw msg r') (hasks : msg.type.AsksVote)
    (hterm : r.curTerm < msg.term) (hvote : r.voteFor ≠ 0) :
    r' = { r with voteFor := msg.from' } := by
  cases h with
  | followed _ htype => exact absurd htype hasks.not_fromLeader
  | voteMoved => rfl
  | ignored _ hnone => exact absurd (hnone hterm hasks) hvote

theorem VoteUncontested.voteStands {d : Delivery} (h : r.VoteUncontested d)
    (hs : r.deliver d = some r') : r.VoteStands r' :=
  ((Stepped.of_deliver hs).voteStands h).1

/-- **One step keeps the rule exactly when it is uncontested.** -/
theorem keepsVote_iff {d : Delivery} : r.KeepsVote d ↔ r.VoteUncontested d := by
  constructor
  · intro h hasks hterm
    by_contra hcast
    obtain ⟨hvote, hother⟩ := not_or.mp hcast
    have hs := (stepMessage_stepped r d.draw d.msg).eq_of_asksVote hasks hterm hvote
    have hlt := (h _ (congrArg some hs)).1 hvote (Ne.symm hother)
    exact absurd hlt (UInt64.lt_irrefl _)
  · intro h r' hs
    obtain ⟨hstands, hpre⟩ := (Stepped.of_deliver hs).voteStands h
    refine ⟨fun _ hmoved => ?_, hpre⟩
    exact hstands.resolve_right fun hkept => hmoved hkept.2.symm

/-- **When a run casts one vote in a term.** -/
theorem oneVotePerTerm_iff (r : Raft) (ds : List Delivery) :
    r.OneVotePerTerm ds ↔ Along deliver VoteUncontested r ds := by
  constructor
  · exact fun h => h.2.mono fun _ _ => keepsVote_iff.mp
  · intro h
    refine ⟨?_, h.mono fun _ _ => keepsVote_iff.mpr⟩
    have hpair : (visited deliver r ds).Pairwise VoteStands :=
      pairwise_visited (Q := VoteUncontested) VoteStands.refl (fun _ _ _ => VoteStands.trans)
        (fun _ _ _ hfree hs => hfree.voteStands hs) h
    have hterm : (visited deliver r ds).Pairwise fun s t => s.curTerm = t.curTerm →
        s.voteFor = t.voteFor := hpair.imp fun hst heq => by
      rcases hst with hlt | ⟨-, hvote⟩
      · rw [heq] at hlt
        exact absurd hlt (UInt64.lt_irrefl _)
      · exact hvote
    intro s hs t ht heq _ _
    exact List.Pairwise.forall_of_forall_of_flip (fun _ _ _ => rfl) hterm
      (hterm.imp fun h heq => (h heq.symm).symm) hs ht heq

/-- **A vote request moves a vote**: the node voted for 2 in term 1, and 3 asks in term 2.  The vote
comes from the storage's hard state, or from a `LoadState` after the construction. -/
theorem not_oneVotePerTerm_voteRequest :
    (¬∀ (unwritten : Unwritten) (cfg : RaftConfig) (st : MemoryStorage) (r : Raft)
      (ds : List Delivery), construct unwritten cfg st = .ok r → r.OneVotePerTerm ds) ∧
    ¬∀ (unwritten : Unwritten) (cfg : RaftConfig) (r : Raft) (hs : HardState)
      (ds : List Delivery), construct unwritten cfg {} = .ok r →
        (r.loadState hs).2.OneVotePerTerm ds := by
  refine ⟨fun hall => ?_, fun hall => ?_⟩
  · have hone := hall .zeros (.least 1) { hardState := ⟨1, 2, 0⟩ } _
      [⟨fun _ => 0, { type := .msgVote, from' := 3, term := 2 }⟩] rfl
    have hlt : (1 : UInt64) < 1 := (hone.2.1 _ rfl).1 (by decide) (by decide)
    exact absurd hlt (by decide)
  · have hone := hall .zeros (.least 1) _ ⟨1, 2, 0⟩
      [⟨fun _ => 0, { type := .msgVote, from' := 3, term := 2 }⟩] rfl
    have hlt : (1 : UInt64) < 1 := (hone.2.1 _ rfl).1 (by decide) (by decide)
    exact absurd hlt (by decide)

end Raft

end RaftCore
