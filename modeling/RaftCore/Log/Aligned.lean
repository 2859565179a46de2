import RaftCore.Log.Append
import RaftCore.Volatile.Contiguous

/-!
# Log/Aligned — a log over its storage as one window

A log is `Aligned` when its volatile entries continue the storage's snapshot point without a gap
and no snapshot is being installed; a freshly built log is.  Then the two layers read as one window
of `cells`, the snapshot point first:

    TermOf(i)   =  the term of the cell numbered i          (`termOf_eq`)
    LastIndex() =  the number of the last cell              (`lastIndex_eq`)

and `FindConflict` is the first entry of a batch whose cell is missing or has another term
(`findConflict_cases`).
-/

namespace RaftCore

open Window

/-- The entry `TermOf` reads at an index, in a deque whose ends are read off its elements. -/
def VolatileState.entryAt (v : VolatileState) (index : UInt64) : Option Entry :=
  if h : v.entries = [] then none
  else
    if (v.entries.head h).index ≤ index ∧ index ≤ (v.entries.getLast h).index then
      v.entries[(index - (v.entries.head h).index).toNat]?
    else none

namespace RaftLog

variable {log log' : RaftLog}

/-- The entry stored at an index: the volatile one, else the storage's. -/
def entryAt (log : RaftLog) (index : UInt64) : Option Entry :=
  (log.volatileState.entryAt index).or
    (if index = log.storage.front.index then some log.storage.front else none)

/-- The index of the snapshot point. -/
def base (log : RaftLog) : ℕ := log.storage.front.num

/-- The snapshot point followed by the volatile entries. -/
def cells (log : RaftLog) : List Entry := log.storage.front :: log.volatileState.entries

/-- The index after the log. -/
def endIndex (log : RaftLog) : ℕ := log.base + log.cells.length

/-- With no snapshot held, a term is a volatile entry's, else the snapshot point's. -/
theorem termOf_of_contiguous (h : log.volatileState.Contiguous)
    (hsnap : log.volatileState.snapshot = none) (index : UInt64) : log.termOf index = .ok
      (((lookup log.volatileState.offset.toNat log.volatileState.entries index.toNat).or
        (if index = log.storage.front.index then some log.storage.front else none)).map
          Entry.term) := by
  rw [termOf, VolatileState.termOf_eq h, VolatileState.snapshotTerm, hsnap, Option.or_none]
  cases lookup log.volatileState.offset.toNat log.volatileState.entries index.toNat with
  | some ent => rfl
  | none =>
    simp only [Outcome.ok_bind, Option.map_none, Option.none_or, MemoryStorage.termOf_eq]
    split <;> rfl

/-- **The volatile entries continue the storage.** -/
structure Aligned (log : RaftLog) : Prop where
  no_snapshot : log.volatileState.snapshot = none
  offset_eq : log.volatileState.offset = log.storage.front.index + 1
  numbered : Numbered Entry.num log.base log.cells

theorem aligned_ofStorage (st : MemoryStorage) : (ofStorage st).Aligned where
  no_snapshot := rfl
  offset_eq := congrArg (· + 1) st.lastIndex_eq
  numbered := ⟨rfl, trivial⟩

namespace Aligned

theorem follows (h : log.Aligned) : log.volatileState.Follows log.storage.front :=
  ⟨h.offset_eq, h.numbered.2⟩

theorem endIndex_le (h : log.Aligned) : log.endIndex ≤ 2 ^ 64 :=
  length_lt_of_numbered h.numbered log.storage.front.num_lt

theorem offset_toNat (h : log.Aligned) (hb : log.base + 1 < 2 ^ 64) :
    log.volatileState.offset.toNat = log.base + 1 := h.follows.offset_toNat hb

theorem offset_toNat_of_ne (h : log.Aligned) (hne : log.volatileState.entries ≠ []) :
    log.volatileState.offset.toNat = log.base + 1 := h.follows.offset_toNat_of_ne hne

theorem contiguous (h : log.Aligned) : log.volatileState.Contiguous := h.follows.contiguous

theorem volatile_lookup (h : log.Aligned) (i : ℕ) :
    lookup log.volatileState.offset.toNat log.volatileState.entries i
      = lookup (log.base + 1) log.volatileState.entries i := h.follows.lookup_eq i

/-- A cell is the snapshot point or a volatile entry. -/
theorem lookup_cells (log : RaftLog) (i : ℕ) : lookup log.base log.cells i =
    (lookup (log.base + 1) log.volatileState.entries i).or
      (if i = log.base then some log.storage.front else none) := by
  rw [cells, lookup_cons]
  by_cases hi : i = log.base
  · rw [if_pos hi, if_pos hi, lookup_of_lt _ (by omega), Option.none_or]
  · rw [if_neg hi, if_neg hi, Option.or_none]

theorem eq_front_iff (log : RaftLog) (index : UInt64) :
    index = log.storage.front.index ↔ index.toNat = log.base := UInt64.toNat_inj.symm

/-- **A term is the term of the cell numbered by the index.** -/
theorem termOf_eq (h : log.Aligned) (index : UInt64) :
    log.termOf index = .ok ((lookup log.base log.cells index.toNat).map Entry.term) := by
  rw [termOf_of_contiguous h.contiguous h.no_snapshot, h.volatile_lookup, lookup_cells,
    if_congr (eq_front_iff log index) rfl rfl]

theorem entryAt_eq (h : log.Aligned) (index : UInt64) :
    log.entryAt index = lookup log.base log.cells index.toNat := by
  rw [entryAt, lookup_cells, if_congr (eq_front_iff log index) rfl rfl]
  refine congrArg (Option.or · _) ?_
  rw [← h.volatile_lookup, VolatileState.entryAt]
  by_cases hnil : log.volatileState.entries = []
  · rw [dif_pos hnil, hnil, lookup_nil]
  rw [dif_neg hnil]
  have hfirst := h.contiguous.head hnil
  have hlast := h.contiguous.getLast hnil
  rw [VolatileState.endIndex] at hlast
  by_cases hin : (log.volatileState.entries.head hnil).index ≤ index ∧
      index ≤ (log.volatileState.entries.getLast hnil).index
  · rw [if_pos hin, UInt64.toNat_sub_of_le _ _ hin.1, hfirst, lookup_of_le]
    rw [← hfirst]
    exact UInt64.le_iff_toNat_le.mp hin.1
  · rw [if_neg hin]
    refine (Option.not_isSome_iff_eq_none.mp fun hsome => hin ?_).symm
    have hwin := lookup_isSome.mp hsome
    rw [UInt64.le_iff_toNat_le, UInt64.le_iff_toNat_le, hfirst]
    omega

/-- **The last index is the number of the last cell.** -/
theorem lastIndex_eq (h : log.Aligned) : log.lastIndex.toNat + 1 = log.endIndex := by
  rw [endIndex, cells, List.length_cons]
  rcases eq_or_ne log.volatileState.entries [] with hnil | hne
  · rw [lastIndex, VolatileState.lastIndex_of_nil hnil, h.no_snapshot, hnil]
    exact congrArg (UInt64.toNat · + 1) log.storage.lastIndex_eq
  · rw [lastIndex, VolatileState.lastIndex_of_ne hne]
    have hlast := h.contiguous.getLast hne
    rw [VolatileState.endIndex, h.offset_toNat_of_ne hne] at hlast
    simp only
    omega

theorem firstIndex_eq (h : log.Aligned) : log.firstIndex = log.storage.firstIndex := by
  rw [firstIndex, VolatileState.firstUnstableIndex, h.no_snapshot]
  rfl

theorem firstIndex_sub_one (h : log.Aligned) : (log.firstIndex - 1).toNat = log.base := by
  rw [h.firstIndex_eq, MemoryStorage.firstIndex_sub_one]
  rfl

end Aligned

/-! ## Matching and the first conflict -/

/-- The cell numbered `i` has this term. -/
def HoldsAt (log : RaftLog) (i : ℕ) (term : UInt64) : Prop :=
  (lookup log.base log.cells i).map Entry.term = some term

instance (log : RaftLog) (i : ℕ) (term : UInt64) : Decidable (log.HoldsAt i term) :=
  inferInstanceAs (Decidable (_ = _))

theorem HoldsAt.lt_end {i : ℕ} {term : UInt64} (h : log.HoldsAt i term) :
    log.base ≤ i ∧ i < log.endIndex := by
  obtain ⟨ent, hent, -⟩ := Option.map_eq_some_iff.mp h
  exact lookup_eq_some hent

/-- An index matches when the term read there is the one asked for. -/
theorem matchAt_of_termOf {index : UInt64} {t : Option UInt64} (h : log.termOf index = .ok t)
    (term : UInt64) : log.matchAt index term = .ok (decide (t = some term)) := by
  rw [matchAt, h]
  cases t with
  | none => rfl
  | some t => simp only [Outcome.ok_bind, Option.some.injEq, eq_comm]

theorem Aligned.matchAt_eq (h : log.Aligned) (index term : UInt64) :
    log.matchAt index term = .ok (decide (log.HoldsAt index.toNat term)) :=
  matchAt_of_termOf (h.termOf_eq index) term

theorem Aligned.matchAt_eq_true (h : log.Aligned) {index term : UInt64} :
    log.matchAt index term = .ok true ↔ log.HoldsAt index.toNat term := by
  rw [h.matchAt_eq]
  simp

/-- **`FindConflict` stops at the first entry that does not match**, whatever a match means. -/
theorem findConflict_cases_of {P : Entry → Prop} [DecidablePred P]
    (h : ∀ ent, log.matchAt ent.index ent.term = .ok (decide (P ent))) (ents : List Entry) :
    ((∀ ent ∈ ents, P ent) ∧ log.findConflict ents = .ok 0) ∨
      ∃ (k : ℕ) (ent : Entry), ents[k]? = some ent ∧ ¬P ent ∧
        (∀ j < k, ∀ ent' : Entry, ents[j]? = some ent' → P ent') ∧
        log.findConflict ents = .ok ent.index := by
  induction ents with
  | nil => exact Or.inl ⟨by simp, rfl⟩
  | cons ent ents ih =>
    rw [findConflict, h]
    simp only [Outcome.ok_bind, decide_eq_true_eq]
    by_cases hhold : P ent
    swap
    · rw [if_neg hhold]
      exact Or.inr ⟨0, ent, rfl, hhold, fun j hj => absurd hj (by omega), rfl⟩
    rw [if_pos hhold]
    rcases ih with ⟨hall, hzero⟩ | ⟨k, ent₁, hk, hnot, hbelow, hfound⟩
    · exact Or.inl ⟨List.forall_mem_cons.mpr ⟨hhold, hall⟩, hzero⟩
    · refine Or.inr ⟨k + 1, ent₁, by simpa using hk, hnot, fun j hj ent' hent' => ?_, hfound⟩
      cases j with
      | zero =>
        obtain rfl : ent = ent' := by simpa using hent'
        exact hhold
      | succ j => exact hbelow j (by omega) ent' (by simpa using hent')

/-- **`FindConflict` stops at the first entry whose cell is missing or has another term.** -/
theorem Aligned.findConflict_cases (h : log.Aligned) (ents : List Entry) :
    ((∀ ent ∈ ents, log.HoldsAt ent.num ent.term) ∧ log.findConflict ents = .ok 0) ∨
      ∃ (k : ℕ) (ent : Entry), ents[k]? = some ent ∧ ¬log.HoldsAt ent.num ent.term ∧
        (∀ j < k, ∀ ent' : Entry, ents[j]? = some ent' → log.HoldsAt ent'.num ent'.term) ∧
        log.findConflict ents = .ok ent.index :=
  findConflict_cases_of (fun ent => h.matchAt_eq ent.index ent.term) ents

end RaftLog

end RaftCore
