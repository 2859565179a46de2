import RaftCore.Node.Leader
import RaftCore.Node.Reset

/-!
# Node/Convergence — what a node makes of all that it hears

Once a node has followed a leader, nothing before that is left of it: following on is the same as
never having followed in between (`becomeFollower_becomeFollower`).  So a run of deliveries, of any
messages in any order, does what the one message of a leader with the highest term would have done
alone, or nothing but move a vote (`deliverAll_collapsed`).

Messages may therefore come in any order, and more than once: the node ends the same, but for the
timeout it draws (`deliverAll_congr`).  And nodes that heard the same leaders agree in the end
(`converge`).
-/

namespace RaftCore

open Runs

namespace Raft

variable {r : Raft} {ds ds' : List Delivery}

/-- A member that is reset twice was reset once. -/
theorem raftReset_raftReset (p : Progress) (nodeId id lastIndex : UInt64) :
    (p.raftReset nodeId id lastIndex).raftReset nodeId id lastIndex
      = p.raftReset nodeId id lastIndex := rfl

/-- **Nothing is left of a leader that was followed in between**, nor of the vote. -/
theorem becomeFollower_becomeFollower (r : Raft) (draw draw' : Draw) {term term' : UInt64}
    (leader leader' : UInt64) (h : r.curTerm ≠ term') (h' : term ≠ term') :
    (r.becomeFollower draw term leader).becomeFollower draw' term' leader'
      = r.becomeFollower draw' term' leader' := by
  by_cases hterm : r.curTerm = term
  · simp [becomeFollower, reset, hterm, h', raftReset_raftReset]
  · simp [becomeFollower, reset, hterm, h, h', raftReset_raftReset]

theorem becomeFollower_voteFor (r : Raft) (vote : UInt64) (draw : Draw) {term : UInt64}
    (leader : UInt64) (h : r.curTerm ≠ term) :
    ({ r with voteFor := vote } : Raft).becomeFollower draw term leader
      = r.becomeFollower draw term leader := by
  simp [becomeFollower, reset, h]

theorem deliverAll_concat (r : Raft) (ds : List Delivery) (d : Delivery) :
    r.deliverAll (ds ++ [d]) = (r.deliverAll ds).stepMessage d.draw d.msg :=
  List.foldl_concat ..

/-- **What a run of deliveries amounts to.** -/
inductive Collapsed (r : Raft) (ds : List Delivery) : Raft → Prop
  | followed {d : Delivery} (hd : d ∈ ds) (htype : d.msg.type.FromLeader)
    (hterm : r.curTerm < d.msg.term)
    (hmost : ∀ d' ∈ ds, d'.msg.type.FromLeader → d'.msg.term ≤ d.msg.term) :
    Collapsed r ds (r.becomeFollower d.draw d.msg.term d.msg.from')
  | stayed {vote : UInt64} (hleader : ∀ d ∈ ds, d.msg.type.FromLeader → d.msg.term ≤ r.curTerm)
    (hvote : vote = r.voteFor ∨ r.voteFor ≠ 0 ∧ ∃ d ∈ ds, d.msg.type.AsksVote ∧
      r.curTerm < d.msg.term ∧ vote = d.msg.from') : Collapsed r ds { r with voteFor := vote }

/-- A further delivery keeps a run collapsed. -/
theorem Collapsed.step {s : Raft} (h : Collapsed r ds s) (d : Delivery) :
    Collapsed r (ds ++ [d]) (s.stepMessage d.draw d.msg) := by
  have hlast : d ∈ ds ++ [d] := List.mem_append_right _ (List.mem_singleton_self d)
  have hall : ∀ {p : Delivery → Prop}, (∀ d' ∈ ds, p d') → p d → ∀ d' ∈ ds ++ [d], p d' := by
    intro p hds hd d' hd'
    rcases List.mem_append.mp hd' with hd' | hd'
    · exact hds d' hd'
    · exact List.mem_singleton.mp hd' ▸ hd
  have hstep := stepMessage_stepped s d.draw d.msg
  generalize s.stepMessage d.draw d.msg = s' at hstep ⊢
  cases h with
  | @followed d₀ hd₀ htype₀ hterm₀ hmost =>
    have hcur : (r.becomeFollower d₀.draw d₀.msg.term d₀.msg.from').curTerm = d₀.msg.term :=
      reset_curTerm r d₀.draw d₀.msg.term
    cases hstep with
    | followed hterm htype =>
      -- the new leader is above the one before, and that one above the node
      rw [hcur] at hterm
      rw [becomeFollower_becomeFollower r _ _ _ _ (UInt64.ne_of_lt (UInt64.lt_trans hterm₀ hterm))
        (UInt64.ne_of_lt hterm)]
      exact .followed hlast htype (UInt64.lt_trans hterm₀ hterm) (hall
        (fun d' hd' hfrom => UInt64.le_of_lt (UInt64.lt_of_le_of_lt (hmost d' hd' hfrom) hterm))
        fun _ => UInt64.le_refl _)
    | voteMoved _ _ hvote =>
      exact absurd (reset_voteFor_of_ne (UInt64.ne_of_lt hterm₀) d₀.draw) hvote
    | ignored hleader =>
      rw [hcur] at hleader
      exact .followed (List.mem_append_left _ hd₀) htype₀ hterm₀
        (hall hmost fun hfrom => UInt64.not_lt.mp fun hlt => hleader hlt hfrom)
  | @stayed vote hbelow hvote =>
    have hvote' : vote = r.voteFor ∨ r.voteFor ≠ 0 ∧ ∃ d' ∈ ds ++ [d], d'.msg.type.AsksVote ∧
        r.curTerm < d'.msg.term ∧ vote = d'.msg.from' := by
      rcases hvote with heq | ⟨hne, d', hd', hasks⟩
      · exact .inl heq
      · exact .inr ⟨hne, d', List.mem_append_left _ hd', hasks⟩
    cases hstep with
    | followed hterm htype =>
      rw [becomeFollower_voteFor r vote _ _ (UInt64.ne_of_lt hterm)]
      exact .followed hlast htype hterm (hall
        (fun d' hd' hfrom => UInt64.le_of_lt (UInt64.lt_of_le_of_lt (hbelow d' hd' hfrom) hterm))
        fun _ => UInt64.le_refl _)
    | voteMoved hterm htype hne =>
      refine .stayed (hall hbelow fun hfrom => absurd hfrom htype.not_fromLeader)
        (.inr ⟨?_, d, hlast, htype, hterm, rfl⟩)
      rcases hvote with rfl | ⟨hne', -⟩
      · exact hne
      · exact hne'
    | ignored hleader =>
      exact .stayed (hall hbelow fun hfrom => UInt64.not_lt.mp fun hlt => hleader hlt hfrom) hvote'

/-- **A run of deliveries does what one of them would have done**, or moves a vote. -/
theorem deliverAll_collapsed (r : Raft) (ds : List Delivery) :
    Collapsed r ds (r.deliverAll ds) := by
  induction ds using List.reverseRecOn with
  | nil => exact .stayed (fun d hd => absurd hd List.not_mem_nil) (.inl rfl)
  | append_singleton ds d ih =>
    rw [deliverAll_concat]
    exact ih.step d

/-- One of the messages is a leader's, above the node's term. -/
def HearsLeader (r : Raft) (ds : List Delivery) : Prop :=
  ∃ d ∈ ds, d.msg.type.FromLeader ∧ r.curTerm < d.msg.term

instance (r : Raft) (ds : List Delivery) : Decidable (r.HearsLeader ds) :=
  inferInstanceAs (Decidable (∃ d ∈ ds, _ ∧ _ < _))

theorem Collapsed.follows {s : Raft} (h : Collapsed r ds s) (hears : r.HearsLeader ds) :
    ∃ d ∈ ds, d.msg.type.FromLeader ∧
      (∀ d' ∈ ds, d'.msg.type.FromLeader → d'.msg.term ≤ d.msg.term) ∧
      s = r.becomeFollower d.draw d.msg.term d.msg.from' := by
  cases h with
  | followed hd htype _ hmost => exact ⟨_, hd, htype, hmost, rfl⟩
  | stayed hleader _ =>
    obtain ⟨d, hd, htype, hterm⟩ := hears
    exact absurd hterm (UInt64.not_lt.mpr (hleader d hd htype))

/-- **One message's work**: a node that hears a leader above its term ends as if it had heard only
one of the highest term. -/
theorem deliverAll_follows (h : r.HearsLeader ds) : ∃ d ∈ ds, d.msg.type.FromLeader ∧
    (∀ d' ∈ ds, d'.msg.type.FromLeader → d'.msg.term ≤ d.msg.term) ∧
    r.deliverAll ds = r.becomeFollower d.draw d.msg.term d.msg.from' :=
  (r.deliverAll_collapsed ds).follows h

/-- A node that hears of two leaders, the later one first. -/
theorem deliverAll_follows_late :
    let r := ((initial .zeros (.least 1) {}).loadState {}).2
    let ds : List Delivery := [⟨fun _ => 0, { type := .msgSnap, from' := 3, term := 4 }⟩,
      ⟨fun _ => 1, { type := .msgApp, from' := 2, term := 2 }⟩]
    ∃ d ∈ ds, d.msg.type.FromLeader ∧
      (∀ d' ∈ ds, d'.msg.type.FromLeader → d'.msg.term ≤ d.msg.term) ∧
      r.deliverAll ds = r.becomeFollower d.draw d.msg.term d.msg.from' :=
  deliverAll_follows (by decide)

/-- The node, but for the timeout it drew. -/
def forgetDraw (r : Raft) : Raft := { r with randomElectionTick := 0 }

theorem forgetDraw_becomeFollower (r : Raft) (draw draw' : Draw) (term leader : UInt64) :
    (r.becomeFollower draw term leader).forgetDraw
      = (r.becomeFollower draw' term leader).forgetDraw := by
  by_cases h : r.curTerm = term <;> simp [forgetDraw, becomeFollower, reset, h]

/-- A message of this leader, in this term, was delivered. -/
def HeardOf (ds : List Delivery) (term leader : UInt64) : Prop :=
  ∃ d ∈ ds, d.msg.type.FromLeader ∧ d.msg.term = term ∧ d.msg.from' = leader

/-- The same leaders were heard of, in the same terms. -/
def SameLeaders (ds ds' : List Delivery) : Prop :=
  ∀ term leader, HeardOf ds term leader ↔ HeardOf ds' term leader

theorem SameLeaders.symm (h : SameLeaders ds ds') : SameLeaders ds' ds :=
  fun term leader => (h term leader).symm

theorem SameLeaders.hearsLeader (h : SameLeaders ds ds') (hears : r.HearsLeader ds) :
    r.HearsLeader ds' := by
  obtain ⟨d, hd, hfrom, hterm⟩ := hears
  obtain ⟨d', hd', hfrom', hterm', -⟩ := (h _ _).mp ⟨d, hd, hfrom, rfl, rfl⟩
  exact ⟨d', hd', hfrom', hterm' ▸ hterm⟩

/-- **The highest term and its leader** are the same in either run. -/
theorem SameLeaders.highest (h : SameLeaders ds ds') (hone : Nodes.OneLeaderPerTerm ds)
    {d d' : Delivery} (hd : d ∈ ds) (hfrom : d.msg.type.FromLeader)
    (hmost : ∀ e ∈ ds, e.msg.type.FromLeader → e.msg.term ≤ d.msg.term)
    (hd' : d' ∈ ds') (hfrom' : d'.msg.type.FromLeader)
    (hmost' : ∀ e ∈ ds', e.msg.type.FromLeader → e.msg.term ≤ d'.msg.term) :
    d.msg.term = d'.msg.term ∧ d.msg.from' = d'.msg.from' := by
  obtain ⟨e, he, hefrom, heterm, heleader⟩ := (h _ _).mpr ⟨d', hd', hfrom', rfl, rfl⟩
  obtain ⟨e', he', hefrom', heterm', -⟩ := (h _ _).mp ⟨d, hd, hfrom, rfl, rfl⟩
  have hterm : d.msg.term = d'.msg.term :=
    UInt64.le_antisymm (heterm' ▸ hmost' e' he' hefrom') (heterm ▸ hmost e he hefrom)
  exact ⟨hterm, (hone d hd e he hfrom hefrom (hterm.trans heterm.symm)).trans heleader⟩

/-- **Order and number make no difference**: having heard of the same leaders, with whatever came
between them, a node is the same, but for its timeout. -/
theorem deliverAll_congr (hone : Nodes.OneLeaderPerTerm ds) (hsame : SameLeaders ds ds')
    (h : r.HearsLeader ds ∨ r.voteFor = 0) :
    (r.deliverAll ds).forgetDraw = (r.deliverAll ds').forgetDraw := by
  by_cases hears : r.HearsLeader ds
  · obtain ⟨d, hd, hfrom, hmost, heq⟩ := (r.deliverAll_collapsed ds).follows hears
    obtain ⟨d', hd', hfrom', hmost', heq'⟩ :=
      (r.deliverAll_collapsed ds').follows (hsame.hearsLeader hears)
    obtain ⟨hterm, hleader⟩ := hsame.highest hone hd hfrom hmost hd' hfrom' hmost'
    rw [heq, heq', hterm, hleader]
    exact r.forgetDraw_becomeFollower _ _ _ _
  · have hvote : r.voteFor = 0 := h.resolve_left hears
    have hstay : ∀ ds, ¬r.HearsLeader ds → r.deliverAll ds = r := by
      intro ds hears
      have hcollapsed := r.deliverAll_collapsed ds
      generalize r.deliverAll ds = s at hcollapsed ⊢
      cases hcollapsed with
      | followed hd htype hterm _ => exact absurd ⟨_, hd, htype, hterm⟩ hears
      | stayed _ hmoved =>
        rcases hmoved with rfl | ⟨hne, -⟩
        · rfl
        · exact absurd hvote hne
    rw [hstay ds hears, hstay ds' fun hears' => hears (hsame.symm.hearsLeader hears')]

/-- The same two messages, either way round and once more. -/
theorem deliverAll_congr_late :
    let r := ((initial .zeros (.least 1) {}).loadState {}).2
    let early : Delivery := ⟨fun _ => 1, { type := .msgApp, from' := 2, term := 2 }⟩
    let late : Delivery := ⟨fun _ => 0, { type := .msgSnap, from' := 3, term := 4 }⟩
    (r.deliverAll [late, early]).forgetDraw = (r.deliverAll [early, late, early]).forgetDraw := by
  refine deliverAll_congr (by decide) (fun term leader => ?_) (.inr rfl)
  simp [HeardOf]
  tauto

end Raft

/-! ## Any number of nodes -/

namespace Nodes

variable {ι : Type} [DecidableEq ι]

/-- What was delivered to a node. -/
def inbox (a : ι) (events : List (ι × Delivery)) : List Delivery :=
  (events.filter fun e => e.1 = a).map Prod.snd

/-- Each node ends where its own deliveries lead it. -/
theorem final?_deliverTo (nodes : Nodes ι) (events : List (ι × Delivery)) :
    final? deliverTo nodes events = some fun a => (nodes a).deliverAll (inbox a events) := by
  induction events generalizing nodes with
  | nil => rfl
  | cons e events ih =>
    obtain ⟨b, d⟩ := e
    rw [final?_cons, deliverTo, Raft.deliver, Option.map_some, Option.bind_some, ih]
    refine congrArg some (funext fun a => ?_)
    rcases eq_or_ne b a with rfl | hother
    · rw [Function.update_self, inbox, inbox, List.filter_cons_of_pos (by simp), List.map_cons]
      rfl
    · rw [Function.update_of_ne hother.symm, inbox, inbox,
        List.filter_cons_of_neg (by simpa using hother)]

/-- **Nodes that heard the same leaders agree**, in the term, the leader, and that they follow it
and have cast no vote — however the network ordered or repeated what it delivered to each. -/
theorem converge {nodes nodes' : Nodes ι} {events : List (ι × Delivery)} {a b : ι}
    (hone : OneLeaderPerTerm (events.map Prod.snd))
    (hsame : Raft.SameLeaders (inbox a events) (inbox b events))
    (ha : (nodes a).HearsLeader (inbox a events)) (hb : (nodes b).HearsLeader (inbox b events))
    (hrun : final? deliverTo nodes events = some nodes') :
    (nodes' a).curTerm = (nodes' b).curTerm ∧ (nodes' a).leader = (nodes' b).leader ∧
      ∀ c ∈ [a, b], (nodes' c).curState = .stateFollower ∧ (nodes' c).voteFor = 0 := by
  obtain rfl := Option.some.inj ((final?_deliverTo nodes events).symm.trans hrun)
  have hinbox : OneLeaderPerTerm (inbox a events) :=
    have hsub : inbox a events ⊆ events.map Prod.snd := (List.filter_sublist.map Prod.snd).subset
    fun d hd e he => hone d (hsub hd) e (hsub he)
  obtain ⟨d, hd, hfrom, hmost, heq⟩ := (Raft.deliverAll_collapsed _ _).follows ha
  obtain ⟨d', hd', hfrom', hmost', heq'⟩ := (Raft.deliverAll_collapsed _ _).follows hb
  obtain ⟨hterm, hleader⟩ := hsame.highest hinbox hd hfrom hmost hd' hfrom' hmost'
  have hclean : ∀ {r : Raft} {ds : List Delivery} {d : Delivery}, r.HearsLeader ds →
      (∀ e ∈ ds, e.msg.type.FromLeader → e.msg.term ≤ d.msg.term) →
      (r.becomeFollower d.draw d.msg.term d.msg.from').curState = .stateFollower ∧
        (r.becomeFollower d.draw d.msg.term d.msg.from').voteFor = 0 := by
    rintro r ds d ⟨e, he, hefrom, heterm⟩ hmost
    have hlt := UInt64.lt_of_lt_of_le heterm (hmost e he hefrom)
    exact ⟨rfl, Raft.reset_voteFor_of_ne (UInt64.ne_of_lt hlt) d.draw⟩
  dsimp only
  rw [heq, heq']
  refine ⟨?_, hleader, ?_⟩
  · exact (Raft.reset_curTerm _ d.draw _).trans
      (hterm.trans (Raft.reset_curTerm _ d'.draw _).symm)
  · intro c hc
    rcases List.mem_pair.mp hc with rfl | rfl
    · rw [heq]
      exact hclean ha hmost
    · rw [heq']
      exact hclean hb hmost'

/-- Two nodes that hear of leaders 2 and 3, in either order. -/
theorem converge_late : ∃ nodes', final? deliverTo
      (fun a : Bool => ((Raft.initial .zeros (.least (if a then 1 else 2)) {}).loadState {}).2)
      [(true, ⟨fun _ => 0, { type := .msgApp, from' := 2, term := 2 }⟩),
        (false, ⟨fun _ => 0, { type := .msgSnap, from' := 3, term := 4 }⟩),
        (true, ⟨fun _ => 0, { type := .msgHeartbeat, from' := 3, term := 4 }⟩),
        (false, ⟨fun _ => 0, { type := .msgApp, from' := 2, term := 2 }⟩)] = some nodes' ∧
    (nodes' true).curTerm = (nodes' false).curTerm ∧
    (nodes' true).leader = (nodes' false).leader ∧
    ∀ c ∈ [true, false], (nodes' c).curState = .stateFollower ∧ (nodes' c).voteFor = 0 := by
  refine Exists.imp (fun nodes' hrun => ⟨hrun,
    converge (a := true) (b := false) ?_ (fun term leader => ?_) ?_ ?_ hrun⟩)
    ⟨_, final?_deliverTo _ _⟩
  · decide
  · simp [Raft.HeardOf, inbox, MessageType.FromLeader]
    tauto
  · decide
  · decide

end Nodes

end RaftCore
