import RaftCore.Node.Reset

/-!
# Node/Construction — which configurations a node is built from, and what it starts as

The constructor is to admit exactly the valid configurations (`Valid`, over the natural numbers) and
to install the membership, the storage's or else the configuration's (`Installed`).  It does
neither: `Validate` leaves without a value when every check passes, its product of ticks wraps, the
initial state goes to a local variable, and the members are computed and dropped.  So a construction
is right exactly when it is refused for a reason, or leaves nothing to install
(`constructsRight_iff`).
-/

namespace RaftCore

/-- No member in either role. -/
def ConfState.Empty (cs : ConfState) : Prop := cs.peers = [] ∧ cs.learners = []

instance (cs : ConfState) : Decidable cs.Empty := inferInstanceAs (Decidable (_ ∧ _))

namespace RaftConfig

/-- The members the configuration names. -/
def confState (cfg : RaftConfig) : ConfState := ⟨cfg.peers, cfg.learners⟩

/-- An election takes at least ten heartbeats, whatever their number. -/
def TicksApart (cfg : RaftConfig) : Prop := 10 * cfg.heartbeatTick.toNat ≤ cfg.electionTick.toNat

instance (cfg : RaftConfig) : Decidable cfg.TicksApart := inferInstanceAs (Decidable (_ ≤ _))

/-- The checks besides the one on the ticks. -/
structure Sane (cfg : RaftConfig) : Prop where
  id_ne : cfg.id ≠ 0
  heartbeat_ne : cfg.heartbeatTick ≠ 0
  limits_ne : cfg.maxSizePerMsg ≠ 0 ∧ cfg.maxInflightMsgs ≠ 0
  lease : cfg.readonlyOption = .readOnlyLease → cfg.checkQuorum

/-- `Validate` falls through exactly when every check passes, the one on the ticks as it wraps. -/
theorem validate_eq_none_iff (cfg : RaftConfig) :
    cfg.validate = none ↔ cfg.Sane ∧ 10 * cfg.heartbeatTick ≤ cfg.electionTick := by
  rw [validate, ← UInt64.not_lt]
  split_ifs with hid hbeat hticks hlimits hlease
  · exact iff_of_false nofun fun h => h.1.id_ne hid
  · exact iff_of_false nofun fun h => h.1.heartbeat_ne hbeat
  · exact iff_of_false nofun fun h => h.2 hticks
  · exact iff_of_false nofun fun h => hlimits.elim h.1.limits_ne.1 h.1.limits_ne.2
  · exact iff_of_false nofun fun h => hlease.2 (h.1.lease hlease.1)
  · refine iff_of_true rfl ⟨⟨hid, hbeat, not_or.mp hlimits, fun hopt => ?_⟩, hticks⟩
    exact not_not.mp fun hq => hlease ⟨hopt, hq⟩

/-- Any other answer is a refusal. -/
theorem validate_of_ne_none {cfg : RaftConfig} (h : cfg.validate ≠ none) :
    cfg.validate = some false := by
  rw [validate] at h ⊢
  split_ifs at h ⊢ <;> first | rfl | exact absurd rfl h

/-- **Ticks that are far enough apart pass the check**: the product does not wrap below them. -/
theorem TicksApart.le {cfg : RaftConfig} (h : cfg.TicksApart) :
    10 * cfg.heartbeatTick ≤ cfg.electionTick := by
  have hlt := cfg.electionTick.toNat_lt
  rw [TicksApart] at h
  rw [UInt64.le_iff_toNat_le, UInt64.toNat_mul]
  exact (Nat.mod_le _ _).trans h

end RaftConfig

namespace Raft

variable {unwritten : Unwritten} {cfg : RaftConfig} {st : MemoryStorage} {r : Raft}

/-- The storage and the configuration do not both name members. -/
def NamedOnce (cfg : RaftConfig) (st : MemoryStorage) : Prop :=
  st.getConfState.Empty ∨ cfg.confState.Empty

instance (cfg : RaftConfig) (st : MemoryStorage) : Decidable (NamedOnce cfg st) :=
  inferInstanceAs (Decidable (_ ∨ _))

/-- **A configuration a node may be built from**, over a storage. -/
def Valid (cfg : RaftConfig) (st : MemoryStorage) : Prop :=
  cfg.Sane ∧ cfg.TicksApart ∧ NamedOnce cfg st

/-- The members a node is to have. -/
def membership (cfg : RaftConfig) (st : MemoryStorage) : ConfState :=
  if st.getConfState.Empty then cfg.confState else st.getConfState

/-- **A follower with exactly these members**, each to be sent what comes after the log. -/
structure Installed (cs : ConfState) (r : Raft) : Prop where
  follower : r.curState = .stateFollower
  peers : ∀ k, k ∈ r.peers ↔ k ∈ cs.peers
  learners : ∀ k, k ∈ r.learners ↔ k ∈ cs.learners
  fresh : ∀ nodeId p, r.IsMember nodeId p →
    p.match' < p.next ∧ p.next = r.raftlog.lastIndex + 1

/-- **Construction admits exactly the valid configurations, and installs the membership.** -/
def ConstructsRight (unwritten : Unwritten) (cfg : RaftConfig) (st : MemoryStorage) : Prop :=
  ((∃ r, construct unwritten cfg st = .ok r) ↔ Valid cfg st) ∧
    ∀ r, construct unwritten cfg st = .ok r → Installed (membership cfg st) r

/-- The construction is refused by a check, or has nothing to install and finds what it reads. -/
def NothingToInstall (unwritten : Unwritten) (cfg : RaftConfig) (st : MemoryStorage) : Prop :=
  if unwritten.validated then
    cfg.TicksApart ∧ unwritten.curState = .stateFollower ∧ (membership cfg st).Empty
  else ¬cfg.TicksApart

/-- The constructor returns exactly on what it admits. -/
theorem construct_returns_iff :
    (∃ r, construct unwritten cfg st = .ok r) ↔ Admits unwritten cfg st :=
  ⟨fun ⟨_, h⟩ => (construct_eq_ok.mp h).1, fun h => ⟨_, construct_eq_ok.mpr ⟨h, rfl⟩⟩⟩

/-- A configuration that a check refuses is not admitted. -/
theorem Admits.validate_eq_none (h : Admits unwritten cfg st) : cfg.validate = none := by
  by_contra hne
  rw [Admits, RaftConfig.validate_of_ne_none hne] at h
  exact Bool.false_ne_true h.1

/-- A configuration that a check refuses is not valid. -/
theorem Valid.validate_eq_none (h : Valid cfg st) : cfg.validate = none :=
  cfg.validate_eq_none_iff.mpr ⟨h.1, h.2.1.le⟩

/-- **A node starts without members**, in whatever state its memory held. -/
theorem construct_members (h : construct unwritten cfg st = .ok r) :
    r.curState = unwritten.curState ∧ r.peers = ∅ ∧ r.learners = ∅ := by
  obtain ⟨-, rfl⟩ := construct_eq_ok.mp h
  rw [loadState]
  split <;> exact ⟨rfl, rfl, rfl⟩

/-- What a node without members has installed. -/
theorem installed_iff (h : construct unwritten cfg st = .ok r) {cs : ConfState} :
    Installed cs r ↔ unwritten.curState = .stateFollower ∧ cs.Empty := by
  obtain ⟨hstate, hpeers, hlearners⟩ := construct_members h
  constructor
  · intro hin
    refine ⟨hstate ▸ hin.follower, List.eq_nil_iff_forall_not_mem.mpr fun k hk => ?_,
      List.eq_nil_iff_forall_not_mem.mpr fun k hk => ?_⟩
    · have hmem := (hin.peers k).mpr hk
      rw [hpeers] at hmem
      exact Std.ExtTreeMap.not_mem_empty hmem
    · have hmem := (hin.learners k).mpr hk
      rw [hlearners] at hmem
      exact Std.ExtTreeMap.not_mem_empty hmem
  · rintro ⟨hfollower, hnopeers, hnolearners⟩
    refine ⟨hstate.trans hfollower, fun k => ?_, fun k => ?_, fun nodeId p hp => ?_⟩
    · rw [hpeers, hnopeers]
      exact iff_of_false Std.ExtTreeMap.not_mem_empty List.not_mem_nil
    · rw [hlearners, hnolearners]
      exact iff_of_false Std.ExtTreeMap.not_mem_empty List.not_mem_nil
    · rw [IsMember, hpeers, hlearners] at hp
      exact absurd hp (by simp)

/-- Past the checks, a construction over members named twice is refused, and rightly. -/
theorem constructsRight_of_refused (h : ¬Admits unwritten cfg st) :
    ConstructsRight unwritten cfg st ↔ ¬Valid cfg st := by
  rw [ConstructsRight, construct_returns_iff, iff_false_left h]
  exact and_iff_left fun r hr => absurd (construct_eq_ok.mp hr).1 h

/-- A construction that is not refused is right when it should not be, and installs everything. -/
theorem constructsRight_of_admits (h : Admits unwritten cfg st) :
    ConstructsRight unwritten cfg st ↔
      Valid cfg st ∧ unwritten.curState = .stateFollower ∧ (membership cfg st).Empty := by
  rw [ConstructsRight, construct_returns_iff, iff_true_left h]
  refine and_congr_right fun _ => ⟨fun hin => ?_, fun hin r hr => (installed_iff hr).mpr hin⟩
  obtain ⟨r, hr⟩ := construct_returns_iff.mpr h
  exact (installed_iff hr).mp (hin r hr)

/-- **When a construction is right.** -/
theorem constructsRight_iff (unwritten : Unwritten) (cfg : RaftConfig) (st : MemoryStorage) :
    ConstructsRight unwritten cfg st ↔
      cfg.validate = some false ∨ ¬NamedOnce cfg st ∨ NothingToInstall unwritten cfg st := by
  by_cases hfall : cfg.validate = none
  swap
  · -- a check refuses, and what it refuses is not valid
    have hrefused : ¬Admits unwritten cfg st := fun h => hfall h.validate_eq_none
    exact iff_of_true ((constructsRight_of_refused hrefused).mpr fun h => hfall h.validate_eq_none)
      (Or.inl (RaftConfig.validate_of_ne_none hfall))
  have hadmits : Admits unwritten cfg st ↔ unwritten.validated ∧ NamedOnce cfg st := by
    rw [Admits, hfall]
    exact Iff.rfl
  have hvalid : Valid cfg st ↔ cfg.TicksApart ∧ NamedOnce cfg st :=
    and_iff_right (cfg.validate_eq_none_iff.mp hfall).1
  rw [hfall, or_iff_right (by simp)]
  by_cases hnamed : NamedOnce cfg st
  swap
  · exact iff_of_true ((constructsRight_of_refused fun h => hnamed (hadmits.mp h).2).mpr
      fun h => hnamed (hvalid.mp h).2) (Or.inl hnamed)
  rw [or_iff_right (not_not_intro hnamed), NothingToInstall]
  by_cases hread : unwritten.validated
  · rw [constructsRight_of_admits (hadmits.mpr ⟨hread, hnamed⟩), if_pos hread, hvalid,
      and_iff_left hnamed]
  · rw [constructsRight_of_refused fun h => hread (hadmits.mp h).1, if_neg hread, hvalid,
      and_iff_left hnamed]

/-- **A node that was named a peer starts without it**, whatever the memory held. -/
theorem not_constructsRight_peer : ¬∀ (unwritten : Unwritten) (cfg : RaftConfig)
    (st : MemoryStorage), ConstructsRight unwritten cfg st := by
  intro hall
  have hright := hall .zeros { RaftConfig.least 1 with peers := [1, 2] } {}
  have hmem := (hright.2 _ rfl).peers 2
  exact Std.ExtTreeMap.not_mem_empty (hmem.mpr (by decide))

end Raft

end RaftCore
