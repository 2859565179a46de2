import RaftCore.Node.Construction

/-!
# Node/Timeout — the election timeout a node draws

A reset draws the election timeout anew: `m_election_tick`, and what the distribution answers to it
as an upper bound.  The sum is to lie between the election tick and twice the election tick, the
bound is not to be negative, and the election tick is to be ten heartbeats or more.

None of the three holds of every run.  The constructor leaves the timeout at 0, and draws nothing:
so no node meets the rule from its construction on.  From the first draw on, a node keeps it exactly
when its ticks are apart as natural numbers — `Validate` compares them as words — and the bound is
not negative when cut to an `int` (`keepsTime_iff`).
-/

namespace RaftCore

open Runs

/-- **What is assumed of the distribution**: to a bound that is not negative it answers with a
number between 0 and the bound. -/
def Draw.Uniform (draw : Draw) : Prop :=
  ∀ high : Int32, 0 ≤ high.toInt → 0 ≤ (draw high).toInt ∧ (draw high).toInt ≤ high.toInt

/-- A call on a node that may draw, and the draw it would make. -/
inductive NodeCall where
  | becomeFollower (draw : Draw) (term leader : UInt64)
  | reset (draw : Draw) (term : UInt64)
  | stepMessage (draw : Draw) (msg : Message)

def NodeCall.draw : NodeCall → Draw
  | .becomeFollower draw _ _ | .reset draw _ | .stepMessage draw _ => draw

/-- The election tick, cut to an `int`, is not negative. -/
def RaftConfig.DrawsFit (cfg : RaftConfig) : Prop := cfg.electionTick.toNat % 2 ^ 32 < 2 ^ 31

instance (cfg : RaftConfig) : Decidable cfg.DrawsFit := inferInstanceAs (Decidable (_ < _))

namespace Raft

variable {unwritten : Unwritten} {cfg : RaftConfig} {st : MemoryStorage} {r r' : Raft}

def call (r : Raft) : NodeCall → Raft
  | .becomeFollower draw term leader => r.becomeFollower draw term leader
  | .reset draw term => r.reset draw term
  | .stepMessage draw msg => r.stepMessage draw msg

def perform (r : Raft) (c : NodeCall) : Option Raft := some (r.call c)

def callAll (r : Raft) (cs : List NodeCall) : Raft := cs.foldl call r

/-- The call resets the node, and so makes its draw. -/
def Draws (r : Raft) : NodeCall → Prop
  | .becomeFollower _ _ _ | .reset _ _ => True
  | .stepMessage _ msg => r.curTerm < msg.term ∧ msg.type.FromLeader

/-- **The bound the call passes to the distribution is not negative.** -/
def BoundsRight (r : Raft) (c : NodeCall) : Prop :=
  r.Draws c → 0 ≤ (Word64.toInt r.electionTick).toInt

/-- **An election takes ten heartbeats**, and the timeout is between it and twice it. -/
structure Timely (r : Raft) : Prop where
  apart : 10 * r.heartbeatTick.toNat ≤ r.electionTick.toNat
  least : r.electionTick.toNat ≤ r.randomElectionTick.toNat
  most : r.randomElectionTick.toNat ≤ 2 * r.electionTick.toNat

/-- **A run keeps time**: every state is timely, and every bound is right. -/
def KeepsTime (r : Raft) (cs : List NodeCall) : Prop :=
  Always perform Timely r cs ∧ Along perform BoundsRight r cs

/-! ## One call -/

instance (r : Raft) : ∀ c, Decidable (r.Draws c)
  | .becomeFollower _ _ _ | .reset _ _ => isTrue trivial
  | .stepMessage _ _ => inferInstanceAs (Decidable (_ ∧ _))

/-- **What a call does to the ticks**: it keeps them, and draws the timeout anew or keeps it. -/
structure Timed (r : Raft) (c : NodeCall) (r' : Raft) : Prop where
  heartbeatTick : r'.heartbeatTick = r.heartbeatTick
  electionTick : r'.electionTick = r.electionTick
  drawn : r.Draws c → r'.randomElectionTick = random c.draw r.electionTick + r.electionTick
  kept : ¬r.Draws c → r'.randomElectionTick = r.randomElectionTick

theorem reset_ticks (r : Raft) (draw : Draw) (term : UInt64) :
    (r.reset draw term).heartbeatTick = r.heartbeatTick ∧
      (r.reset draw term).electionTick = r.electionTick ∧
      (r.reset draw term).randomElectionTick = random draw r.electionTick + r.electionTick := by
  by_cases h : r.curTerm = term <;> simp [reset, h]

theorem timed_of_draws {c : NodeCall} (hc : r.Draws c) {term : UInt64}
    (hbeat : r'.heartbeatTick = (r.reset c.draw term).heartbeatTick)
    (helection : r'.electionTick = (r.reset c.draw term).electionTick)
    (hrandom : r'.randomElectionTick = (r.reset c.draw term).randomElectionTick) :
    Timed r c r' := by
  obtain ⟨h1, h2, h3⟩ := r.reset_ticks c.draw term
  exact ⟨hbeat.trans h1, helection.trans h2, fun _ => hrandom.trans h3, fun h => absurd hc h⟩

theorem call_timed (r : Raft) (c : NodeCall) : Timed r c (r.call c) := by
  cases c with
  | becomeFollower draw term leader => exact timed_of_draws trivial rfl rfl rfl
  | reset draw term => exact timed_of_draws trivial rfl rfl rfl
  | stepMessage draw msg =>
    change Timed r _ (r.stepMessage draw msg)
    have h := stepMessage_stepped r draw msg
    generalize r.stepMessage draw msg = r' at h ⊢
    cases h with
    | followed hterm htype => exact timed_of_draws ⟨hterm, htype⟩ rfl rfl rfl
    | voteMoved hterm htype =>
      exact ⟨rfl, rfl, fun hc => absurd hc.2 htype.not_fromLeader, fun _ => rfl⟩
    | ignored hleader => exact ⟨rfl, rfl, fun hc => absurd hc.2 (hleader hc.1), fun _ => rfl⟩

/-! ## A draw -/

/-- Below a bound that is not negative, the draw is at most the low 32 bits of the tick. -/
theorem random_le {draw : Draw} {high : UInt64} (hdraw : draw.Uniform)
    (hfit : high.toNat % 2 ^ 32 < 2 ^ 31) : (random draw high).toNat ≤ high.toNat % 2 ^ 32 := by
  have hbound : (Word64.toInt high).toInt = (high.toNat % 2 ^ 32 : ℕ) := by
    rw [Word64.toInt_toInt, if_pos hfit]
  obtain ⟨hlo, hhi⟩ := hdraw _ ((Word64.toInt_nonneg_iff high).mpr hfit)
  have hread := Word64.toNat_ofInt_of_nonneg hlo
  rw [random]
  omega

/-! ## Runs -/

/-- The node runs on the ticks of the configuration. -/
structure Paced (cfg : RaftConfig) (r : Raft) : Prop where
  heartbeatTick : r.heartbeatTick = cfg.heartbeatTick
  electionTick : r.electionTick = cfg.electionTick

theorem Timed.paced {c : NodeCall} (h : Timed r c r') (hp : r.Paced cfg) : r'.Paced cfg :=
  ⟨h.heartbeatTick.trans hp.heartbeatTick, h.electionTick.trans hp.electionTick⟩

theorem Timely.ticksApart (h : r.Timely) (hp : r.Paced cfg) : cfg.TicksApart := by
  rw [RaftConfig.TicksApart, ← hp.heartbeatTick, ← hp.electionTick]
  exact h.apart

/-- **A draw puts the timeout between the election tick and twice it.** -/
theorem Timed.timely {c : NodeCall} (h : Timed r c r') (hp : r.Paced cfg) (hdraws : r.Draws c)
    (hdraw : c.draw.Uniform) (hapart : cfg.TicksApart) (hfit : cfg.DrawsFit) : r'.Timely := by
  have hp' : r'.Paced cfg := h.paced hp
  have hle := random_le hdraw hfit
  have hlow := Nat.mod_le cfg.electionTick.toNat (2 ^ 32)
  have hlt := cfg.electionTick.toNat_lt
  rw [RaftConfig.DrawsFit] at hfit
  -- the tick's low half is below `2^31`, so the sum stays in the word
  have hsum : r'.randomElectionTick.toNat
      = (random c.draw cfg.electionTick).toNat + cfg.electionTick.toNat := by
    rw [h.drawn hdraws, hp.electionTick, UInt64.toNat_add, Nat.mod_eq_of_lt]
    omega
  refine ⟨?_, ?_, ?_⟩
  · rwa [hp'.heartbeatTick, hp'.electionTick]
  · rw [hp'.electionTick, hsum]
    exact Nat.le_add_left _ _
  · rw [hp'.electionTick, hsum]
    omega

/-- **A constructed node** runs on the configuration's ticks, and has drawn nothing. -/
theorem construct_paced (h : construct unwritten cfg st = .ok r) :
    r.Paced cfg ∧ r.randomElectionTick = 0 := by
  obtain ⟨-, rfl⟩ := construct_eq_ok.mp h
  rw [loadState]
  split <;> exact ⟨⟨rfl, rfl⟩, rfl⟩

theorem Paced.perform {c : NodeCall} (hp : r.Paced cfg) (h : r.perform c = some r') :
    r'.Paced cfg := by
  obtain rfl := Option.some.inj h
  exact (call_timed r c).paced hp

theorem Paced.callAll (hp : r.Paced cfg) (cs : List NodeCall) : (r.callAll cs).Paced cfg := by
  have hall : Along Raft.perform (fun _ _ => True) r cs := along_of_all (fun _ _ => trivial) r cs
  exact final?_inv (fun _ _ _ hp _ h => hp.perform h) hp hall (final?_total call r cs)

/-- A timely node stays timely: a call draws anew, or keeps the timeout. -/
theorem Timely.call (h : r.Timely) (hp : r.Paced cfg) (hfit : cfg.DrawsFit) {c : NodeCall}
    (hdraw : c.draw.Uniform) : (r.call c).Timely := by
  have ht := call_timed r c
  by_cases hdraws : r.Draws c
  · exact ht.timely hp hdraws hdraw (h.ticksApart hp) hfit
  · have hkept := ht.kept hdraws
    exact ⟨by rw [ht.heartbeatTick, ht.electionTick]; exact h.apart,
      by rw [ht.electionTick, hkept]; exact h.least, by rw [ht.electionTick, hkept]; exact h.most⟩

/-- A bound is right when the call draws nothing, or the configuration's draws fit. -/
theorem boundsRight_iff (hp : r.Paced cfg) {c : NodeCall} :
    r.BoundsRight c ↔ (r.Draws c → cfg.DrawsFit) := by
  rw [BoundsRight, hp.electionTick, Word64.toInt_nonneg_iff, RaftConfig.DrawsFit]

theorem Timely.keepsTime (h : r.Timely) (hp : r.Paced cfg) (hfit : cfg.DrawsFit)
    {cs : List NodeCall} (hdraw : ∀ c ∈ cs, c.draw.Uniform) : r.KeepsTime cs := by
  have hstep : ∀ r c r', (r.Paced cfg ∧ r.Timely) → c.draw.Uniform → perform r c = some r' →
      r'.Paced cfg ∧ r'.Timely := by
    rintro r c r' ⟨hp, h⟩ hdraw hcall
    refine ⟨hp.perform hcall, ?_⟩
    obtain rfl := Option.some.inj hcall
    exact h.call hp hfit hdraw
  have hall : Along perform (fun _ c => c.draw.Uniform) r cs := along_of_forall hdraw
  exact ⟨fun t ht => (always_of_inv hstep ⟨hp, h⟩ hall t ht).2,
    along_of_inv hstep (fun _ c hI _ => (boundsRight_iff hI.1).mpr fun _ => hfit) ⟨hp, h⟩ hall⟩

/-- **No node is timely when it is constructed**: its timeout is 0, its heartbeat tick is not. -/
theorem not_timely_of_construct (h : construct unwritten cfg st = .ok r) : ¬r.Timely := by
  obtain ⟨hp, hzero⟩ := construct_paced h
  have hsane := (cfg.validate_eq_none_iff.mp (construct_eq_ok.mp h).1.validate_eq_none).1
  intro htimely
  refine hsane.heartbeat_ne (Word64.eq_of_toNat ?_)
  have hapart := htimely.apart
  have hleast := htimely.least
  rw [hzero] at hleast
  rw [hp.heartbeatTick] at hapart
  simp only [UInt64.toNat_zero] at hleast ⊢
  omega

/-- **When a node keeps time**: never from its construction on, whatever is called; from any draw
on, when its ticks are apart as natural numbers and its bound is not negative. -/
theorem keepsTime_iff (h : construct unwritten cfg st = .ok r) :
    (∀ cs, ¬r.KeepsTime cs) ∧
      ∀ (before : List NodeCall) (c : NodeCall) (after : List NodeCall),
        (r.callAll before).Draws c → (∀ d ∈ c :: after, d.draw.Uniform) →
        ((r.callAll before).BoundsRight c ∧ ((r.callAll before).call c).KeepsTime after ↔
          cfg.TicksApart ∧ cfg.DrawsFit) := by
  refine ⟨fun cs hkeeps => ?_, fun before c after hdraws hdraw => ?_⟩
  · exact not_timely_of_construct h (hkeeps.1 r (mem_visited_self r cs))
  have hp : (r.callAll before).Paced cfg := (construct_paced h).1.callAll before
  generalize r.callAll before = s at hdraws hp ⊢
  have ht := call_timed s c
  have hp' : (s.call c).Paced cfg := ht.paced hp
  constructor
  · rintro ⟨hbound, hkeeps⟩
    have htimely := hkeeps.1 _ (mem_visited_self _ after)
    exact ⟨htimely.ticksApart hp', (boundsRight_iff hp).mp hbound hdraws⟩
  · rintro ⟨hapart, hfit⟩
    obtain ⟨hc, hafter⟩ := List.forall_mem_cons.mp hdraw
    have htimely := ht.timely hp hdraws hc hapart hfit
    exact ⟨(boundsRight_iff hp).mpr fun _ => hfit, htimely.keepsTime hp' hfit hafter⟩

/-- **At the least ticks a node does not start in time**, and is in time once it follows. -/
theorem keepsTime_least : ∃ r, construct .zeros (.least 1) {} = .ok r ∧
    (∀ cs, ¬r.KeepsTime cs) ∧ r.BoundsRight (.becomeFollower (fun high => high) 1 2) ∧
      (r.becomeFollower (fun high => high) 1 2).KeepsTime [] := by
  have h := keepsTime_iff (rfl : construct .zeros (.least 1) {} = .ok _)
  have hdraw : Draw.Uniform fun high => high := fun high hhigh => ⟨hhigh, le_rfl⟩
  refine ⟨_, rfl, h.1, (h.2 [] (.becomeFollower (fun high => high) 1 2) [] trivial ?_).mpr ?_⟩
  · exact List.forall_mem_singleton.mpr hdraw
  · decide

/-- **Each of the rules is broken**: a node starts with its timeout at 0; an election tick of
`2^31` is passed as a negative bound; and ten times a heartbeat tick of `2^63` wraps to 0. -/
theorem not_keepsTime :
    (¬∀ (unwritten : Unwritten) (cfg : RaftConfig) (st : MemoryStorage) (r : Raft)
      (cs : List NodeCall), construct unwritten cfg st = .ok r → (∀ c ∈ cs, c.draw.Uniform) →
        r.KeepsTime cs) ∧
    (¬∀ (unwritten : Unwritten) (cfg : RaftConfig) (st : MemoryStorage) (r : Raft) (c : NodeCall),
      construct unwritten cfg st = .ok r → c.draw.Uniform → r.BoundsRight c) ∧
    ¬∀ (unwritten : Unwritten) (cfg : RaftConfig) (st : MemoryStorage) (r : Raft),
      construct unwritten cfg st = .ok r → 10 * r.heartbeatTick.toNat ≤ r.electionTick.toNat := by
  have hdraw : Draw.Uniform fun high => high := fun high hhigh => ⟨hhigh, le_rfl⟩
  refine ⟨fun hall => ?_, fun hall => ?_, fun hall => ?_⟩
  · have h := hall .zeros (.least 1) {} _ [] rfl (List.forall_mem_nil _)
    exact absurd (h.1 _ (mem_visited_self _ _)).least (by decide)
  · have h := hall .zeros { RaftConfig.least 1 with electionTick := 2 ^ 31 } {} _
      (.becomeFollower (fun high => high) 1 2) rfl hdraw trivial
    exact absurd h (by decide)
  · have h := hall .zeros
      { RaftConfig.least 1 with heartbeatTick := 2 ^ 63, electionTick := 0 } {} _ rfl
    exact absurd h (by decide)

end Raft

end RaftCore
