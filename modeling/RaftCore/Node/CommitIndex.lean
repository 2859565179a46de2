import RaftCore.Log.Splice
import RaftCore.Model.Raft

/-!
# Node/CommitIndex — the commit mark between the applied mark and the end of the log

A node's commit mark is written when it is built, by `LoadState` and by `Append`.  `LoadState`
refuses a mark below the current one and has no upper bound; `Append` takes the smaller of the
call's mark and the batch's end, whatever the current one is.  So the marks stay ordered, and the
commit mark rises, exactly along the runs that ask for nothing else (`marks_iff`):

    every hard state, the storage's first, commits at or before the end of the log,
    every matching append that returns commits at or after the current mark.

The log need not be contiguous for this: what an import leaves ends with the batch, wherever it cuts
(`Appended.lastIndex_eq`).
-/

namespace RaftCore

open Window Runs

/-! ## What an append leaves at the end of the log -/

/-- What an import leaves ends with the rest of the batch. -/
theorem VolatileState.append_suffix {v v' : VolatileState} {entries : List Entry} {offset : UInt64}
    (h : v.append entries offset = .ok v') (hoff : ¬UInt64.ofNat entries.length ≤ offset) :
    ∃ kept, v'.entries = kept ++ entries.drop offset.toNat := by
  rw [append, if_neg hoff] at h
  obtain ⟨first, -, h⟩ := Outcome.bind_eq_ok.mp h
  dsimp only at h
  split at h
  · obtain rfl := Except.ok.inj h
    exact ⟨v.entries, rfl⟩
  split at h
  · obtain rfl := Except.ok.inj h
    exact ⟨[], rfl⟩
  obtain ⟨last, -, h⟩ := Outcome.bind_eq_ok.mp h
  split at h
  · cases h
  obtain ⟨kept, -, h⟩ := Outcome.bind_eq_ok.mp h
  obtain rfl := Except.ok.inj h
  exact ⟨kept, rfl⟩

namespace RaftLog

variable {log log' : RaftLog} {c : AppendCall} {b : Bool} {conflict : UInt64} {head : Entry}

/-- The conflict is 0 or the index of an entry of the batch. -/
theorem findConflict_mem {ents : List Entry} (h : log.findConflict ents = .ok conflict) :
    conflict = 0 ∨ ∃ ent ∈ ents, ent.index = conflict := by
  induction ents with
  | nil => exact Or.inl (Except.ok.inj h).symm
  | cons ent ents ih =>
    obtain ⟨held, -, h⟩ := Outcome.bind_eq_ok.mp h
    cases held with
    | false => exact Or.inr ⟨ent, List.mem_cons_self .., Except.ok.inj h⟩
    | true =>
      refine (ih h).imp id ?_
      rintro ⟨ent', hmem, hidx⟩
      exact ⟨ent', List.mem_cons_of_mem _ hmem, hidx⟩

/-- The commit mark is below the batch's end, when an append gets past its first assertion. -/
theorem Conflict.commit_lt (h : Conflict log .debug c conflict head) (hnum : c.Numbered) :
    log.commit.toNat < c.lastIndex.toNat + c.ents.length := by
  have habove := UInt64.lt_iff_toNat_lt.mp (h.above rfl)
  rcases findConflict_mem h.found with rfl | ⟨ent, hmem, rfl⟩
  · simp at habove
  · have hlt : ent.num < _ := (hnum.mem hmem).2
    rw [Entry.num] at hlt
    omega

/-- **A matching append that returns lowers the mark exactly when its call's mark is lower.** -/
theorem Conflict.commit_le_iff (h : Conflict log .debug c conflict head) (hnum : c.Numbered) :
    log.commit ≤ c.newCommit ↔ log.commit ≤ c.commit := by
  have hlt := h.commit_lt hnum
  rw [UInt64.le_iff_toNat_le, UInt64.le_iff_toNat_le, hnum.toNat_newCommit h.ents_ne]
  omega

/-- **An import leaves the last index of its batch**, wherever it cuts. -/
theorem Conflict.lastIndex_eq (h : Conflict log .debug c conflict head) (hnum : c.Numbered)
    (hoff : ¬UInt64.ofNat c.ents.length ≤ importOffset head conflict) {v' : VolatileState}
    (hv : log.volatileState.append c.ents (importOffset head conflict) = .ok v') :
    ({ log with volatileState := v', commit := c.newCommit } : RaftLog).lastIndex.toNat
      = c.lastIndex.toNat + c.ents.length := by
  obtain ⟨kept, hkept⟩ := VolatileState.append_suffix hv hoff
  have hlen : (importOffset head conflict).toNat < c.ents.length := by
    rw [UInt64.le_iff_toNat_le, UInt64.toNat_ofNat'] at hoff
    have hmod := Nat.mod_le c.ents.length (2 ^ 64)
    omega
  have hlast : v'.entries.getLast? = some (c.ents.getLast h.ents_ne) := by
    rw [hkept, List.getLast?_append_of_ne_nil _ (by simpa using hlen), List.getLast?_drop,
      if_neg (by omega), List.getLast?_eq_some_getLast h.ents_ne]
  have hend := hnum.getLast h.ents_ne
  rw [lastIndex, VolatileState.lastIndex, hlast]
  change (c.ents.getLast h.ents_ne).num = _
  omega

/-- **What an append that returns does to the marks**: it keeps them ordered and does not lower the
commit mark exactly when a matching call's mark is in range. -/
theorem Appended.marks_kept_iff (h : Appended log .debug c b log') (hnum : c.Numbered)
    (hlow : log.applied ≤ log.commit) (hhigh : log.commit ≤ log.lastIndex) :
    log.commit ≤ log'.commit ∧ log'.applied ≤ log'.commit ∧ log'.commit ≤ log'.lastIndex ↔
      (log.matchAt c.lastIndex c.lastTerm = .ok true →
        log.commit ≤ c.commit ∧ log.CommitCovered c) := by
  cases h with
  | rejected hmatch =>
    refine iff_of_true ⟨UInt64.le_refl _, hlow, hhigh⟩ fun htrue => ?_
    rw [hmatch] at htrue
    cases htrue
  | dropped hc hoff =>
    rw [CommitCovered, ← hc.commit_le_iff hnum]
    simp only [hc.matched, drops_of_dropped hc hoff, true_implies]
    exact and_congr_right fun hle => and_iff_right (UInt64.le_trans hlow hle)
  | imported hc hoff habove hv =>
    have hlast := hc.lastIndex_eq hnum hoff hv
    have hle : c.newCommit.toNat ≤ c.lastIndex.toNat + c.ents.length := by
      rw [hnum.toNat_newCommit hc.ents_ne]
      exact min_le_right _ _
    rw [CommitCovered, ← hc.commit_le_iff hnum]
    simp only [hc.matched, drops_of_not_le hc hoff, Bool.false_eq_true, false_implies,
      true_implies, and_true]
    refine ⟨fun h => h.1, fun h => ⟨h, UInt64.le_trans hlow h, ?_⟩⟩
    rw [UInt64.le_iff_toNat_le, hlast]
    exact hle

end RaftLog

/-! ## The node -/

/-- What writes a node's commit mark after its construction. -/
inductive CommitOp where
  | loadState (hs : HardState)
  | append (c : AppendCall)

namespace Raft

variable {r r' : Raft} {op : CommitOp}

def commitStep (r : Raft) : CommitOp → Option Raft
  | .loadState hs => some (r.loadState hs).2
  | .append c => (r.raftlog.next c).map fun log => { r with raftlog := log }

/-- **Applied at or before committed, committed at or before the end.** -/
def MarksOrdered (r : Raft) : Prop :=
  r.raftlog.applied ≤ r.raftlog.commit ∧ r.raftlog.commit ≤ r.raftlog.lastIndex

/-- The step does not lower the commit mark. -/
def CommitRises (r : Raft) (op : CommitOp) : Prop :=
  ∀ r', r.commitStep op = some r' → r.raftlog.commit ≤ r'.raftlog.commit

/-- The step, if it is taken, asks for a mark in range: a hard state for none past the log, a
matching append for none below the current mark, and, where its batch is dropped, for none past the
log. -/
def CommitInRange (r : Raft) (op : CommitOp) : Prop :=
  (r.commitStep op).isSome → match op with
    | .loadState hs => hs.commit ≤ r.raftlog.lastIndex
    | .append c => r.raftlog.matchAt c.lastIndex c.lastTerm = .ok true →
        r.raftlog.commit ≤ c.commit ∧ r.raftlog.CommitCovered c

instance (r : Raft) : ∀ op, Decidable (r.CommitInRange op)
  | .loadState _ => inferInstanceAs (Decidable (_ → _ ≤ _))
  | .append _ => inferInstanceAs (Decidable (_ → (_ = _) → _ ∧ _))

/-- `LoadState` orders the marks exactly when it is not asked for a mark past the log. -/
theorem marksOrdered_loadState_iff (happ : r.raftlog.applied ≤ r.raftlog.commit)
    (hcommit : r.raftlog.commit ≤ r.raftlog.lastIndex) (hs : HardState) :
    (r.loadState hs).2.MarksOrdered ↔ hs.commit ≤ r.raftlog.lastIndex := by
  rw [loadState]
  by_cases hlow : hs.commit < r.raftlog.commit
  · rw [if_pos hlow]
    exact iff_of_true ⟨happ, hcommit⟩ (UInt64.le_trans (UInt64.le_of_lt hlow) hcommit)
  · rw [if_neg hlow]
    exact and_iff_right (UInt64.le_trans happ (UInt64.not_lt.mp hlow))

theorem commit_le_loadState (r : Raft) (hs : HardState) :
    r.raftlog.commit ≤ (r.loadState hs).2.raftlog.commit := by
  rw [loadState]
  by_cases hlow : hs.commit < r.raftlog.commit
  · rw [if_pos hlow]
    exact UInt64.le_refl _
  · rw [if_neg hlow]
    exact UInt64.not_lt.mp hlow

/-- **One step**, from ordered marks. -/
theorem commitStep_iff (h : r.MarksOrdered) (hnum : ∀ c, op = .append c → c.Numbered) :
    (r.CommitRises op ∧ ∀ r', r.commitStep op = some r' → r'.MarksOrdered) ↔
      r.CommitInRange op := by
  cases op with
  | loadState hs =>
    have hiff := marksOrdered_loadState_iff h.1 h.2 hs
    simp only [CommitRises, CommitInRange, commitStep, Option.some.injEq, forall_eq',
      Option.isSome_some, true_implies, hiff, commit_le_loadState, true_and]
  | append c =>
    simp only [CommitRises, CommitInRange, commitStep, Option.isSome_map]
    cases hn : r.raftlog.next c with
    | none => simp
    | some log =>
      obtain ⟨b, happ⟩ := RaftLog.next_eq_some.mp hn
      simpa [MarksOrdered] using happ.marks_kept_iff (hnum c rfl) h.1 h.2

/-- A node built over a storage has ordered marks exactly when the storage's hard state does not
commit past its snapshot point. -/
theorem marksOrdered_construct_iff {unwritten : Unwritten} {cfg : RaftConfig} {st : MemoryStorage}
    (h : construct unwritten cfg st = .ok r) :
    r.MarksOrdered ↔ st.getHardState.commit ≤ st.lastIndex := by
  obtain ⟨-, rfl⟩ := construct_eq_ok.mp h
  refine marksOrdered_loadState_iff (UInt64.le_refl _) ?_ st.getHardState
  change st.firstIndex - 1 ≤ st.lastIndex
  rw [st.firstIndex_sub_one, st.lastIndex_eq]
  exact UInt64.le_refl _

/-- **When the commit mark rises and stays in range**, along any run of a constructed node. -/
theorem marks_iff {unwritten : Unwritten} {cfg : RaftConfig} {st : MemoryStorage}
    (h : construct unwritten cfg st = .ok r) {ops : List CommitOp}
    (hnum : ∀ op ∈ ops, ∀ c, op = .append c → c.Numbered) :
    (Along commitStep CommitRises r ops ∧ Always commitStep MarksOrdered r ops) ↔
      st.getHardState.commit ≤ st.lastIndex ∧ Along commitStep CommitInRange r ops := by
  rw [always_iff, marksOrdered_construct_iff h, and_left_comm, ← along_and]
  refine and_congr_right fun hst => (along_congr (P := CommitInRange) (I := MarksOrdered)
    (A := fun op => ∀ c, op = .append c → c.Numbered) (fun r op r' _ hq hs => hq.2 r' hs)
    (fun r op hr hop => (commitStep_iff hr hop).symm)
    ((marksOrdered_construct_iff h).mpr hst) hnum).symm

/-- Two batches and a hard state, each moving the mark up. -/
theorem marks_rising : ∃ r, construct .zeros (.least 1) {} = .ok r ∧
    Along commitStep CommitRises r [.append ⟨0, 0, 1, [⟨1, 1, .entryNormal, []⟩,
      ⟨2, 1, .entryNormal, []⟩]⟩, .loadState ⟨1, 0, 2⟩,
      .append ⟨2, 1, 3, [⟨3, 1, .entryNormal, []⟩]⟩] ∧
    Always commitStep MarksOrdered r [.append ⟨0, 0, 1, [⟨1, 1, .entryNormal, []⟩,
      ⟨2, 1, .entryNormal, []⟩]⟩, .loadState ⟨1, 0, 2⟩,
      .append ⟨2, 1, 3, [⟨3, 1, .entryNormal, []⟩]⟩] := by
  have hnode : construct .zeros (.least 1) {} = .ok _ := rfl
  refine ⟨_, hnode, (marks_iff hnode ?_).mpr ⟨by decide, by decide⟩⟩
  simp only [List.forall_mem_cons, List.not_mem_nil, false_implies, implies_true, and_true,
    CommitOp.append.injEq, reduceCtorEq, forall_eq', true_and]
  exact ⟨by decide, by decide⟩

/-- **A delayed append takes the mark back**: two committed entries, and a third sent before. -/
theorem not_marks_delayed_append : ¬∀ (unwritten : Unwritten) (cfg : RaftConfig)
    (st : MemoryStorage) (r : Raft) (ops : List CommitOp),
    construct unwritten cfg st = .ok r → (∀ op ∈ ops, ∀ c, op = .append c → c.Numbered) →
      Along commitStep CommitRises r ops ∧ Always commitStep MarksOrdered r ops := by
  intro hall
  have hrun := hall .zeros (.least 1) {} _
    [.append ⟨0, 0, 2, [⟨1, 1, .entryNormal, []⟩, ⟨2, 1, .entryNormal, []⟩]⟩,
      .append ⟨2, 1, 0, [⟨3, 1, .entryNormal, []⟩]⟩] rfl (by
      simp only [List.forall_mem_cons, List.not_mem_nil, false_implies, implies_true, and_true,
        CommitOp.append.injEq, forall_eq']
      exact ⟨by decide, by decide⟩)
  have hle : (2 : UInt64) ≤ 0 := (hrun.1.2 _ rfl).1 _ rfl
  exact absurd hle (by decide)

end Raft

end RaftCore
