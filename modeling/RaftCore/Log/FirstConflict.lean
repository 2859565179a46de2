import RaftCore.Log.Aligned

/-!
# Log/FirstConflict — the first entry of a batch that the log does not have

A log is `Stacked` when its volatile entries are numbered from the index after the storage; that
index may have wrapped, and then they start over at 0.  What such a log stores is read off its
entries, the volatile layer above the storage (`stored`), and `TermOf` reads nothing else.

For a batch that continues a matching index, `FindConflict` answers 0 when the log has every entry,
and else the least number of an entry it does not have.  That number is at most one past the log
(`findConflict_first`): so an import from there on leaves no gap.
-/

namespace RaftCore

open Window

namespace RaftLog

variable {log : RaftLog} {lastIndex lastTerm : UInt64} {ents : List Entry}

/-- **The volatile entries are numbered from the index after the storage.** -/
structure Stacked (log : RaftLog) : Prop where
  no_snapshot : log.volatileState.snapshot = none
  offset_eq : log.volatileState.offset = log.storage.lastIndex + 1
  contiguous : log.volatileState.Contiguous

/-- The first entry with the index, in the volatile layer and then in the storage. -/
def stored (log : RaftLog) (index : UInt64) : Option Entry :=
  (log.volatileState.entries ++ log.storage.entries).find? fun ent => ent.index = index

/-- **The log has the entry**: what it stores at the entry's index has the entry's term. -/
def Has (log : RaftLog) (ent : Entry) : Prop :=
  (log.stored ent.index).map Entry.term = some ent.term

instance (log : RaftLog) : DecidablePred log.Has := fun _ => inferInstanceAs (Decidable (_ = _))

theorem Has.isSome {ent : Entry} (h : log.Has ent) : (log.stored ent.index).isSome := by
  rw [← Option.isSome_map (f := Entry.term), h]
  rfl

namespace Stacked

/-! ## What is stored -/

theorem stored_eq (h : log.Stacked) (index : UInt64) : log.stored index =
    (lookup log.volatileState.offset.toNat log.volatileState.entries index.toNat).or
      (if index = log.storage.front.index then some log.storage.front else none) := by
  have hvolatile : log.volatileState.entries.find? (fun ent => ent.index = index)
      = lookup log.volatileState.offset.toNat log.volatileState.entries index.toNat := by
    rw [← Numbered.find?_eq_lookup h.contiguous]
    exact congrArg (List.find? · _) (funext fun ent => decide_eq_decide.mpr UInt64.toNat_inj.symm)
  rw [stored, List.find?_append, hvolatile, log.storage.entries_eq_front, List.find?_singleton]
  exact congrArg (Option.or _) (if_congr (decide_eq_true_iff.trans eq_comm) rfl rfl)

/-- **A term is the term of what is stored.** -/
theorem termOf_eq (h : log.Stacked) (index : UInt64) :
    log.termOf index = .ok ((log.stored index).map Entry.term) := by
  rw [termOf_of_contiguous h.contiguous h.no_snapshot, h.stored_eq]

theorem matchAt_eq (h : log.Stacked) (ent : Entry) :
    log.matchAt ent.index ent.term = .ok (decide (log.Has ent)) :=
  matchAt_of_termOf (h.termOf_eq ent.index) ent.term

/-- **Nothing is stored past the last index**, but at the last word there is. -/
theorem le_lastIndex (h : log.Stacked) {index : UInt64} (hs : (log.stored index).isSome)
    (hlt : index.toNat + 1 < 2 ^ 64) : index.toNat ≤ log.lastIndex.toNat := by
  rw [h.stored_eq, Option.isSome_or, Bool.or_eq_true, lookup_isSome] at hs
  rcases eq_or_ne log.volatileState.entries [] with hnil | hne
  · have hlast : log.lastIndex = log.storage.front.index := by
      rw [RaftLog.lastIndex, VolatileState.lastIndex_of_nil hnil, h.no_snapshot]
      exact log.storage.lastIndex_eq
    rw [hnil, List.length_nil] at hs
    rcases hs with hin | hpoint
    · omega
    · rw [hlast, (Option.isSome_ite.mp hpoint)]
  · have hlast := h.contiguous.getLast hne
    rw [VolatileState.endIndex] at hlast
    rw [RaftLog.lastIndex, VolatileState.lastIndex_of_ne hne]
    rcases hs with hin | hpoint
    · change index.toNat ≤ (log.volatileState.entries.getLast hne).index.toNat
      omega
    · -- the snapshot point is not the last word, so the volatile entries come after it
      have hoff : log.volatileState.offset.toNat = index.toNat + 1 := by
        rw [h.offset_eq, log.storage.lastIndex_eq, ← Option.isSome_ite.mp hpoint]
        exact Word64.toNat_succ hlt
      change index.toNat ≤ (log.volatileState.entries.getLast hne).index.toNat
      omega

theorem stored_of_matchAt (h : log.Stacked) (hmatch : log.matchAt lastIndex lastTerm = .ok true) :
    (log.stored lastIndex).isSome := by
  have hdec := (h.matchAt_eq { index := lastIndex, term := lastTerm }).symm.trans hmatch
  exact (of_decide_eq_true (Except.ok.inj hdec)).isSome

/-- **Before an entry the log does not have there is one it has**, so it is at most one past the
log. -/
theorem num_le (h : log.Stacked) (hmatch : log.matchAt lastIndex lastTerm = .ok true)
    (hnum : Numbered Entry.num (lastIndex.toNat + 1) ents) {k : ℕ} {ent : Entry}
    (hk : ents[k]? = some ent)
    (hbelow : ∀ j < k, ∀ ent' : Entry, ents[j]? = some ent' → log.Has ent') :
    ent.num ≤ log.lastIndex.toNat + 1 := by
  have hent : ent.num = lastIndex.toNat + 1 + k := hnum.getElem? hk
  have hlt := ent.num_lt
  have hbefore : lastIndex.toNat + k ≤ log.lastIndex.toNat := by
    refine hnum.holds_before (P := (· ≤ log.lastIndex.toNat)) hk ?_ fun j hj ent' hent' => ?_
    · exact h.le_lastIndex (h.stored_of_matchAt hmatch) (by omega)
    · have hnum' : ent'.num = lastIndex.toNat + 1 + j := hnum.getElem? hent'
      refine h.le_lastIndex (hbelow j hj ent' hent').isSome ?_
      change ent'.num + 1 < 2 ^ 64
      omega
  omega

end Stacked

/-! ## The first conflict -/

/-- **`FindConflict` finds the first entry the log does not have**: 0 when there is none, else the
least number of one, past `last_index` and at most one past the log. -/
def FindsFirst (log : RaftLog) (lastIndex : UInt64) (ents : List Entry) : Prop :=
  ∃ r, log.findConflict ents = .ok r ∧ (r = 0 ↔ ∀ ent ∈ ents, log.Has ent) ∧
    (r ≠ 0 → IsLeast {n | ∃ ent ∈ ents, ¬log.Has ent ∧ ent.num = n} r.toNat ∧
      lastIndex.toNat < r.toNat ∧ r.toNat ≤ log.lastIndex.toNat + 1 ∧
        ∀ ent ∈ ents, ent.num < r.toNat → log.Has ent)

/-- **For a batch that continues a matching index, the first conflict is found.** -/
theorem findConflict_first (h : log.Stacked) (hmatch : log.matchAt lastIndex lastTerm = .ok true)
    (hnum : Numbered Entry.num (lastIndex.toNat + 1) ents) : log.FindsFirst lastIndex ents := by
  rcases findConflict_cases_of h.matchAt_eq ents with
    ⟨hall, hzero⟩ | ⟨k, ent, hk, hnot, hbelow, hfound⟩
  · exact ⟨0, hzero, iff_of_true rfl hall, fun hne => absurd rfl hne⟩
  have hent : ent.num = lastIndex.toNat + 1 + k := hnum.getElem? hk
  have hmem : ent ∈ ents := List.mem_of_getElem? hk
  have hlower : ∀ ent' ∈ ents, ¬log.Has ent' → ent.num ≤ ent'.num := by
    intro ent' hmem' hnot'
    obtain ⟨j, hj⟩ := List.mem_iff_getElem?.mp hmem'
    have hent' : ent'.num = lastIndex.toNat + 1 + j := hnum.getElem? hj
    have hkj : k ≤ j := not_lt.mp fun hlt => hnot' (hbelow j hlt ent' hj)
    omega
  have hpos : ent.index ≠ 0 := fun hzero => by
    rw [Entry.num, hzero, UInt64.toNat_zero] at hent
    omega
  refine ⟨ent.index, hfound, iff_of_false hpos fun hall => hnot (hall ent hmem), fun _ => ?_⟩
  refine ⟨⟨⟨ent, hmem, hnot, rfl⟩, ?_⟩, ?_, h.num_le hmatch hnum hk hbelow, ?_⟩
  · rintro n ⟨ent', hmem', hnot', rfl⟩
    exact hlower ent' hmem' hnot'
  · change lastIndex.toNat < ent.num
    omega
  · intro ent' hmem' hlt
    by_contra hnot'
    exact absurd hlt (not_lt.mpr (hlower ent' hmem' hnot'))

/-- **…one past the log**, when the batch repeats the last entry and goes on. -/
theorem findConflict_first_past_end :
    FindsFirst ⟨{}, ⟨none, [⟨1, 1, .entryNormal, []⟩, ⟨2, 1, .entryNormal, []⟩], 1⟩, 0, 0⟩ 1
      [⟨2, 1, .entryNormal, []⟩, ⟨3, 2, .entryNormal, []⟩] :=
  findConflict_first ⟨rfl, rfl, by decide⟩ (rfl : matchAt _ 1 1 = .ok true) (by decide)

end RaftLog

end RaftCore
