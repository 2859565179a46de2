import RaftCore.Log.Committed

/-!
# Log/Legitimate — which legitimate appends return

A legitimate append is a batch numbered from `last_index + 1` that contradicts no committed entry.
It can end in `false`; past its `Match` it returns exactly when it brings an entry the log does not
have and starts above the commit mark (`legitimate_returns_iff`).  Heartbeats, exact
retransmissions and batches that overlap the committed prefix fail an assertion: "no conflict" is
the index 0, which is never above the mark, and the second assertion compares the head of the batch,
not the entry its import begins with.
-/

namespace RaftCore

open Window Runs

namespace RaftLog

variable {log log' : RaftLog} {c : AppendCall} {b : Bool}

/-- **No entry of the batch contradicts the log at or below the commit mark.** -/
def Legitimate (log : RaftLog) (c : AppendCall) : Prop :=
  (c.ents = [] ∨ c.WellNumbered) ∧ ∀ ent ∈ c.ents, ent.index ≤ log.commit →
    ∀ term, log.termOf ent.index = .ok (some term) → term = ent.term

/-- Some entry of the batch is not in the log. -/
def BringsNews (log : RaftLog) (c : AppendCall) : Prop :=
  ∃ ent ∈ c.ents, log.matchAt ent.index ent.term = .ok false

/-- The batch starts above the commit mark, and its import at or before the end of the log. -/
def StartsInside (log : RaftLog) (c : AppendCall) : Prop :=
  log.commit ≤ c.lastIndex ∧ ∀ p ∈ log.imports c, p.2.num ≤ log.lastIndex.toNat + 1

/-- **When a legitimate append returns.** -/
def Returns (log : RaftLog) (c : AppendCall) : Prop :=
  log.matchAt c.lastIndex c.lastTerm = .ok false ∨
    log.BringsNews c ∧ (log.drops c = true ∨ log.StartsInside c)

theorem matchAt_false_iff (ha : log.Aligned) (ent : Entry) :
    log.matchAt ent.index ent.term = .ok false ↔ ¬log.HoldsAt ent.num ent.term := by
  rw [ha.matchAt_eq]
  simp [Entry.num]

/-- The import of a returning append leaves no gap. -/
theorem Appended.returns (h : log.CommitInv) (hnum : c.Numbered)
    (happ : Appended log .debug c b log') : log.Returns c := by
  have hnews : ∀ {conflict head}, Conflict log .debug c conflict head → log.BringsNews c := by
    intro conflict head hc
    obtain ⟨k, ent, hk, -, hnot, -⟩ := hc.position h.aligned hnum
    exact ⟨ent, List.mem_of_getElem? hk, (matchAt_false_iff h.aligned ent).mpr hnot⟩
  cases happ with
  | rejected hmatch => exact Or.inl hmatch
  | dropped hc hoff => exact Or.inr ⟨hnews hc, Or.inl (drops_of_dropped hc hoff)⟩
  | @imported conflict head hc hoff habove v' hv =>
    have hlen : c.ents.length < 2 ^ 64 := by have := hnum.end_le hc.ents_ne; omega
    obtain ⟨first, hfirst, hbase, -⟩ := hc.exists_first h.aligned hnum hoff
    have hend := h.aligned.endIndex_volatile (by have := first.num_lt; omega)
    have h64 := h.aligned.endIndex_le
    refine Or.inr ⟨hnews hc, Or.inr ⟨?_, fun p hp => ?_⟩⟩
    · have hlt := UInt64.lt_iff_toNat_lt.mp (habove rfl)
      have hhead := hc.head_num hnum
      rw [Entry.num] at hhead
      rw [UInt64.le_iff_toNat_le]
      omega
    · obtain rfl : (conflict, first) = p :=
        Option.some.inj ((imports_of_imported hc (habove rfl) hfirst).symm.trans hp)
      rw [h.aligned.lastIndex_eq, ← hend]
      exact (VolatileState.append_returns_iff h.aligned.contiguous hlen hfirst (by omega)).mp
        ⟨v', hv⟩

/-- **A legitimate batch with news, past its match, conflicts above the commit mark.** -/
theorem BringsNews.conflict (h : log.CommitInv) (hlegit : log.Legitimate c)
    (hmatch : log.matchAt c.lastIndex c.lastTerm = .ok true) (hnews : log.BringsNews c) :
    ∃ conflict head, Conflict log .debug c conflict head := by
  obtain ⟨ent, hmem, hent⟩ := hnews
  have hnum : c.Numbered := (hlegit.1.resolve_left (List.ne_nil_of_mem hmem)).numbered
  have hnot := (matchAt_false_iff h.aligned ent).mp hent
  rcases h.aligned.findConflict_cases c.ents with ⟨hall, -⟩ | ⟨k, ent₁, hk, hnot₁, -, hfound⟩
  · exact absurd (hall ent hmem) hnot
  have hlen := (List.getElem?_eq_some_iff.mp hk).1
  refine ⟨ent₁.index, c.ents[0], hmatch, hfound, fun _ => ?_, List.getElem?_eq_getElem (by omega)⟩
  by_contra hcommit
  -- an index at or below the mark is in the log, so the entry would be there with its term
  rw [UInt64.not_lt] at hcommit
  have hle := UInt64.le_iff_toNat_le.mp hcommit
  have hbase := (h.aligned.matchAt_eq_true.mp hmatch).lt_end.1
  have hidx : ent₁.num = c.lastIndex.toNat + 1 + k := hnum.getElem? hk
  have hlt := h.lt_end
  rw [endIndex] at hlt
  rw [Entry.num] at hidx
  have hsome : (lookup log.base log.cells ent₁.index.toNat).isSome :=
    lookup_isSome.mpr ⟨by omega, by omega⟩
  obtain ⟨cell, hcell⟩ := Option.isSome_iff_exists.mp hsome
  have hterm : log.termOf ent₁.index = .ok (some cell.term) := by
    rw [h.aligned.termOf_eq, hcell]
    rfl
  refine hnot₁ ?_
  rw [HoldsAt, Entry.num, hcell]
  exact congrArg some (hlegit.2 ent₁ (List.mem_of_getElem? hk) hcommit _ hterm)

/-- **A legitimate batch with news returns**, past its match, when it is dropped or starts
inside. -/
theorem BringsNews.returns (h : log.CommitInv) (hlegit : log.Legitimate c)
    (hmatch : log.matchAt c.lastIndex c.lastTerm = .ok true) (hnews : log.BringsNews c)
    (hin : log.drops c = true ∨ log.StartsInside c) :
    ∃ b log', log.appendCall .debug c = .ok (b, log') := by
  obtain ⟨conflict, head, hc⟩ := hnews.conflict h hlegit hmatch
  have hnum : c.Numbered := (hlegit.1.resolve_left hc.ents_ne).numbered
  have hlen : c.ents.length < 2 ^ 64 := by have := hnum.end_le hc.ents_ne; omega
  by_cases hoff : UInt64.ofNat c.ents.length ≤ importOffset head conflict
  · exact ⟨true, _, appendCall_eq_ok.mpr (.dropped hc hoff)⟩
  -- not dropped, so the batch starts above the mark and its import inside the log
  have hinside : log.StartsInside c := hin.resolve_left (by simp [drops_of_not_le hc hoff])
  obtain ⟨first, hfirst, hbase, -⟩ := hc.exists_first h.aligned hnum hoff
  have hhead := hc.head_num hnum
  have habove : log.commit < head.index := by
    have hle := UInt64.le_iff_toNat_le.mp hinside.1
    rw [UInt64.lt_iff_toNat_lt]
    rw [Entry.num] at hhead
    omega
  have hend := h.aligned.endIndex_volatile (by have := first.num_lt; omega)
  have h64 := h.aligned.endIndex_le
  have hle := hinside.2 _ (imports_of_imported hc habove hfirst)
  rw [h.aligned.lastIndex_eq, ← hend] at hle
  obtain ⟨v', hv⟩ := (VolatileState.append_returns_iff h.aligned.contiguous hlen hfirst
    (by omega)).mpr hle
  exact ⟨true, _, appendCall_eq_ok.mpr (.imported hc hoff (fun _ => habove) hv)⟩

/-- **One legitimate append to a log whose history spliced right.** -/
theorem CommitInv.returns_iff (h : log.CommitInv) (hlegit : log.Legitimate c) :
    (∃ b log', log.appendCall .debug c = .ok (b, log')) ↔ log.Returns c := by
  constructor
  · rintro ⟨b, log', hok⟩
    have happ := appendCall_eq_ok.mp hok
    rcases hlegit.1 with hnil | hnum
    · cases happ with
      | rejected hmatch => exact Or.inl hmatch
      | dropped hc => exact absurd hnil hc.ents_ne
      | imported hc => exact absurd hnil hc.ents_ne
    · exact happ.returns h hnum.numbered
  · rintro (hfalse | ⟨hnews, hin⟩)
    · exact ⟨false, log, appendCall_eq_ok.mpr (.rejected hfalse)⟩
    by_cases hholds : log.HoldsAt c.lastIndex.toNat c.lastTerm
    · exact hnews.returns h hlegit (h.aligned.matchAt_eq_true.mpr hholds) hin
    · exact ⟨false, log, appendCall_eq_ok.mpr (.rejected (by simp [h.aligned.matchAt_eq, hholds]))⟩

/-- **When a legitimate append returns**, at every state that appends reach whose imports land right
and whose dropped batches move no mark past the log. -/
theorem legitimate_returns_iff (st : MemoryStorage) {calls : List AppendCall}
    (hnum : ∀ c ∈ calls, c.Numbered)
    (hsound : Along next (fun log c => log.SplicesRight c ∧ log.CommitCovered c)
      (ofStorage st) calls)
    (hreach : final? next (ofStorage st) calls = some log) (hlegit : log.Legitimate c) :
    (∃ b log', log.appendCall .debug c = .ok (b, log')) ↔ log.Returns c := by
  have hq : Along next (fun log c => c.Numbered ∧ log.SplicesRight c ∧ log.CommitCovered c)
      (ofStorage st) calls := along_and.mpr ⟨along_of_forall hnum, hsound⟩
  refine (final?_inv (I := CommitInv) (fun log c log' h hq hs => ?_) (commitInv_ofStorage st) hq
    hreach).returns_iff hlegit
  obtain ⟨b, happ⟩ := next_eq_some.mp hs
  exact (happ.commitInv h hq.1 hq.2.1 hq.2.2).1

/-- Three entries, and a fourth after them. -/
theorem append_returns_extension : ∃ b log',
    (RaftLog.mk {} ⟨none, [⟨1, 1, .entryNormal, []⟩, ⟨2, 1, .entryNormal, []⟩,
      ⟨3, 1, .entryNormal, []⟩], 1⟩ 2 0).appendCall .debug
        ⟨3, 1, 3, [⟨4, 1, .entryNormal, []⟩]⟩ = .ok (b, log') := by
  have hreach : final? next (ofStorage {}) [⟨0, 0, 2, [⟨1, 1, .entryNormal, []⟩,
      ⟨2, 1, .entryNormal, []⟩, ⟨3, 1, .entryNormal, []⟩]⟩]
    = some ⟨{}, ⟨none, [⟨1, 1, .entryNormal, []⟩, ⟨2, 1, .entryNormal, []⟩,
      ⟨3, 1, .entryNormal, []⟩], 1⟩, 2, 0⟩ := rfl
  refine (legitimate_returns_iff {} ?_ (by decide) hreach ?_).mpr ?_
  · simp only [List.forall_mem_cons, List.not_mem_nil, false_implies, implies_true, and_true]
    decide
  · refine ⟨Or.inr ⟨by decide, by decide⟩, ?_⟩
    simp only [List.forall_mem_cons, List.not_mem_nil, false_implies, implies_true, and_true]
    exact fun hle => absurd hle (by decide)
  · exact Or.inr ⟨⟨_, List.mem_singleton_self _, rfl⟩, Or.inr ⟨by decide, by decide⟩⟩

/-- **A heartbeat ends the run**: "no conflict" is the index 0, which is never above the mark. -/
theorem not_append_returns_heartbeat : ¬∀ (st : MemoryStorage) (calls : List AppendCall)
    (log : RaftLog) (c : AppendCall), (∀ c ∈ calls, c.WellNumbered) →
      final? next (ofStorage st) calls = some log → log.Legitimate c →
        ∃ b log', log.appendCall .debug c = .ok (b, log') := by
  intro hall
  obtain ⟨b, log', hok⟩ := hall {} [] _ ⟨0, 0, 0, []⟩ (by simp) rfl ⟨Or.inl rfl, by simp⟩
  have hfault : (.error (.assertion "conflict_index > m_commit") : Outcome (Bool × RaftLog))
    = .ok (b, log') := hok
  cases hfault

end RaftLog

end RaftCore
