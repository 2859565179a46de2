import RaftCore.Log.Splice

/-!
# Log/Committed — committed entries survive appends

Along a run of appends over a fresh log the invariant is that the log is aligned and the commit mark
stays within it (`CommitInv`).  An import starts above the mark — that is what the two assertions
check — so a splice leaves everything up to the mark alone.

The code cuts the held entries at the wrong place unless the import lands right, and it moves the
mark without importing anything when the import position is lost in the passage through `int`; runs
that do neither keep every committed entry (`keepsCommitted_along`).
-/

namespace RaftCore

open Window Runs

/-- The batch is numbered from `last_index + 1`, and no index reaches `2^64 - 1`. -/
structure AppendCall.WellNumbered (c : AppendCall) : Prop where
  numbered : c.Numbered
  bound : c.lastIndex.toNat + c.ents.length < 2 ^ 64 - 1

namespace RaftLog

variable {log log' : RaftLog} {c : AppendCall} {b : Bool}

/-- **Every index up to the commit mark keeps its term and its entry.** -/
def KeepsCommitted (log log' : RaftLog) : Prop :=
  ∀ i : UInt64, log.firstIndex - 1 ≤ i → i ≤ log.commit →
    ∃ ent term, log.termOf i = .ok (some term) ∧ log'.termOf i = .ok (some term) ∧
      log.entryAt i = some ent ∧ log'.entryAt i = some ent

/-- The log is aligned, and the commit mark is not past it. -/
structure CommitInv (log : RaftLog) : Prop where
  aligned : log.Aligned
  lt_end : log.commit.toNat < log.endIndex

theorem commitInv_ofStorage (st : MemoryStorage) : (ofStorage st).CommitInv := by
  have hcommit : (ofStorage st).commit = st.front.index := st.firstIndex_sub_one
  refine ⟨aligned_ofStorage st, ?_⟩
  rw [hcommit, endIndex]
  exact Nat.lt_add_of_pos_right (by simp [cells])

/-- Logs that agree on the cells up to the commit mark keep what is committed. -/
theorem keepsCommitted_of_lookup (h : log.CommitInv) (h' : log'.Aligned) (hb : log'.base = log.base)
    (hcells : ∀ i ≤ log.commit.toNat, lookup log.base log'.cells i = lookup log.base log.cells i) :
    log.KeepsCommitted log' := by
  intro i hlo hhi
  rw [UInt64.le_iff_toNat_le, h.aligned.firstIndex_sub_one] at hlo
  rw [UInt64.le_iff_toNat_le] at hhi
  have hlt := h.lt_end
  rw [endIndex] at hlt
  have hsome : (lookup log.base log.cells i.toNat).isSome := lookup_isSome.mpr ⟨hlo, by omega⟩
  obtain ⟨ent, hent⟩ := Option.isSome_iff_exists.mp hsome
  have hent' : lookup log'.base log'.cells i.toNat = some ent := by rw [hb, hcells _ hhi, hent]
  refine ⟨ent, ent.term, ?_, ?_, ?_, ?_⟩
  · rw [h.aligned.termOf_eq, hent]
    rfl
  · rw [h'.termOf_eq, hent']
    rfl
  · rw [h.aligned.entryAt_eq, hent]
  · rw [h'.entryAt_eq, hent']

/-- **One append**, when the import lands right and a dropped batch moves no mark past the log. -/
theorem Appended.commitInv (h : log.CommitInv) (happ : Appended log .debug c b log')
    (hnum : c.Numbered) (hr : log.SplicesRight c) (hcov : log.CommitCovered c) :
    log'.CommitInv ∧ log.KeepsCommitted log' := by
  cases happ with
  | rejected hmatch => exact ⟨h, keepsCommitted_of_lookup h h.aligned rfl fun i _ => rfl⟩
  | dropped hc hoff =>
    have hle : c.newCommit ≤ log.lastIndex := hcov (drops_of_dropped hc hoff)
    have hlast := h.aligned.lastIndex_eq
    have ha : ({ log with commit := c.newCommit } : RaftLog).Aligned :=
      ⟨h.aligned.no_snapshot, h.aligned.offset_eq, h.aligned.numbered⟩
    refine ⟨⟨ha, ?_⟩, keepsCommitted_of_lookup h ha rfl fun i _ => rfl⟩
    change c.newCommit.toNat < log.endIndex
    rw [UInt64.le_iff_toNat_le] at hle
    omega
  | @imported conflict head hc hoff habove v' hv =>
    obtain ⟨first, hfirst, hbase, hhf⟩ := hc.exists_first h.aligned hnum hoff
    have hmem := imports_of_imported hc (habove rfl) hfirst
    obtain ⟨ha, hcells, hle⟩ := h.aligned.imported hnum hc hfirst (hr _ hmem) hv
    -- the import starts above the commit mark, by the second assertion
    have hhead : log.commit.toNat < head.num := UInt64.lt_iff_toNat_lt.mp (habove rfl)
    have hend : ({ log with volatileState := v', commit := c.newCommit } : RaftLog).endIndex
        = c.lastIndex.toNat + 1 + c.ents.length :=
      endIndex_of_imported hnum hfirst hbase.le hle rfl hcells
    refine ⟨⟨ha, ?_⟩, keepsCommitted_of_lookup h ha rfl fun i hi => ?_⟩
    · rw [hend]
      change c.newCommit.toNat < _
      rw [hnum.toNat_newCommit hc.ents_ne]
      omega
    · rw [hcells]
      exact lookup_splice_of_lt _ _ (by omega) (by rw [endIndex] at hle; exact hle)

/-- **No committed entry is lost along a run** whose imports land right and whose dropped batches
move no mark past the log. -/
theorem keepsCommitted_along (st : MemoryStorage) {calls : List AppendCall}
    (hnum : ∀ c ∈ calls, c.Numbered)
    (hsound : Along next (fun log c => log.SplicesRight c ∧ log.CommitCovered c)
      (ofStorage st) calls) :
    Along next (fun log c => ∀ log', log.next c = some log' → log.KeepsCommitted log')
      (ofStorage st) calls := by
  have hq : Along next (fun log c => c.Numbered ∧ log.SplicesRight c ∧ log.CommitCovered c)
      (ofStorage st) calls := along_and.mpr ⟨along_of_forall hnum, hsound⟩
  refine along_of_inv (I := CommitInv) (fun log c log' h hq hs => ?_) (fun log c h hq log' hs => ?_)
    (commitInv_ofStorage st) hq
  · obtain ⟨b, happ⟩ := next_eq_some.mp hs
    exact (happ.commitInv h hq.1 hq.2.1 hq.2.2).1
  · obtain ⟨b, happ⟩ := next_eq_some.mp hs
    exact (happ.commitInv h hq.1 hq.2.1 hq.2.2).2

/-- Four entries, the commit mark at the second; the third is overwritten at the middle. -/
theorem keepsCommitted_middle_cut :
    Along next (fun log c => ∀ log', log.next c = some log' → log.KeepsCommitted log')
      (ofStorage {}) [⟨0, 0, 2, [⟨1, 1, .entryNormal, []⟩, ⟨2, 1, .entryNormal, []⟩,
        ⟨3, 1, .entryNormal, []⟩, ⟨4, 1, .entryNormal, []⟩, ⟨5, 1, .entryNormal, []⟩]⟩,
      ⟨2, 1, 3, [⟨3, 2, .entryNormal, []⟩]⟩] := by
  refine keepsCommitted_along {} ?_ (by decide)
  simp only [List.forall_mem_cons, List.not_mem_nil, false_implies, implies_true, and_true]
  exact ⟨by decide, by decide⟩

/-- **Committed entries can be lost**: three committed entries, and an import at the fourth. -/
theorem not_keepsCommitted_last_cut : ¬∀ (st : MemoryStorage) (calls : List AppendCall),
    (∀ c ∈ calls, c.WellNumbered) →
      Along next (fun log c => ∀ log', log.next c = some log' → log.KeepsCommitted log')
        (ofStorage st) calls := by
  intro hall
  have hrun := hall {} [⟨0, 0, 3, [⟨1, 1, .entryNormal, []⟩, ⟨2, 1, .entryNormal, []⟩,
      ⟨3, 1, .entryNormal, []⟩, ⟨4, 1, .entryNormal, []⟩]⟩,
    ⟨3, 1, 3, [⟨4, 2, .entryNormal, []⟩]⟩] (by
      simp only [List.forall_mem_cons, List.not_mem_nil, false_implies, implies_true, and_true]
      exact ⟨⟨by decide, by decide⟩, ⟨by decide, by decide⟩⟩)
  obtain ⟨ent, term, -, hterm, -, -⟩ := (hrun.2 _ rfl).1 _ rfl 1 (by decide) (by decide)
  have hnone : (.ok none : Outcome (Option UInt64)) = .ok (some term) := hterm
  cases hnone

end RaftLog

end RaftCore
