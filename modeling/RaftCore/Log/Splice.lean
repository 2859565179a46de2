import RaftCore.Log.Aligned

/-!
# Log/Splice — an append to an aligned log

On an aligned log a matching batch numbered from `last_index + 1` meets its first conflict at or
before the end of the log, so an import that starts there and lands right is a splice of the cells:

    cells'  =  what is numbered below the import  ++  the rest of the batch     (`Aligned.imported`)

`imports` says, from the state before, with which entry an append reaches the volatile state;
`drops` says when the position of that entry is lost on the way.
-/

namespace RaftCore

open Window

/-- The batch is numbered from `last_index + 1` on. -/
def AppendCall.Numbered (c : AppendCall) : Prop :=
  Window.Numbered Entry.num (c.lastIndex.toNat + 1) c.ents

instance (c : AppendCall) : Decidable c.Numbered := inferInstanceAs (Decidable (Window.Numbered ..))

theorem AppendCall.Numbered.end_le {c : AppendCall} (h : c.Numbered) (hne : c.ents ≠ []) :
    c.lastIndex.toNat + c.ents.length < 2 ^ 64 := by
  have hlast := h.getLast hne
  have hlt := (c.ents.getLast hne).num_lt
  omega

theorem AppendCall.Numbered.toNat_newCommit {c : AppendCall} (h : c.Numbered) (hne : c.ents ≠ []) :
    c.newCommit.toNat = min c.commit.toNat (c.lastIndex.toNat + c.ents.length) := by
  rw [newCommit, Word64.toNat_stdMin, Word64.toNat_add_ofNat (h.end_le hne)]

namespace RaftLog

variable {log log' : RaftLog} {c : AppendCall} {b : Bool} {conflict : UInt64} {head : Entry}

/-- The conflict and the first imported entry, when an append gets as far as the volatile state. -/
def imports (log : RaftLog) (c : AppendCall) : Option (UInt64 × Entry) :=
  match log.matchAt c.lastIndex c.lastTerm, log.findConflict c.ents, c.ents with
  | .ok true, .ok conflict, head :: _ =>
    if log.commit < conflict ∧ log.commit < head.index then
      c.ents[(importOffset head conflict).toNat]?.map (conflict, ·)
    else none
  | _, _, _ => none

/-- The append reaches its end, and its position has grown past the batch on the way. -/
def drops (log : RaftLog) (c : AppendCall) : Bool :=
  match log.matchAt c.lastIndex c.lastTerm, log.findConflict c.ents, c.ents with
  | .ok true, .ok conflict, head :: _ =>
    decide (log.commit < conflict ∧ UInt64.ofNat c.ents.length ≤ importOffset head conflict)
  | _, _, _ => false

/-- **The import lands right**, if the append gets to it. -/
def SplicesRight (log : RaftLog) (c : AppendCall) : Prop :=
  ∀ p ∈ log.imports c, log.volatileState.LandsRight p.2.num

instance (log : RaftLog) (c : AppendCall) : Decidable (log.SplicesRight c) :=
  inferInstanceAs (Decidable (∀ p ∈ log.imports c, log.volatileState.LandsRight p.2.num))

/-- **A dropped batch does not carry the commit past the log.** -/
def CommitCovered (log : RaftLog) (c : AppendCall) : Prop :=
  log.drops c → c.newCommit ≤ log.lastIndex

instance (log : RaftLog) (c : AppendCall) : Decidable (log.CommitCovered c) :=
  inferInstanceAs (Decidable (_ → _))

theorem ents_eq_cons (h : c.ents[0]? = some head) : ∃ rest, c.ents = head :: rest := by
  cases hents : c.ents with
  | nil => rw [hents] at h; cases h
  | cons e rest =>
    rw [hents] at h
    exact ⟨rest, by rw [Option.some.inj h]⟩

theorem imports_of_imported (h : Conflict log .debug c conflict head)
    (habove : log.commit < head.index) {first : Entry}
    (hfirst : c.ents[(importOffset head conflict).toNat]? = some first) :
    log.imports c = some (conflict, first) := by
  obtain ⟨rest, hents⟩ := ents_eq_cons h.head
  rw [imports, h.matched, h.found, hents]
  simp only [h.above rfl, habove, and_self, if_true]
  rw [← hents, hfirst]
  rfl

theorem drops_of_dropped (h : Conflict log .debug c conflict head)
    (hoff : UInt64.ofNat c.ents.length ≤ importOffset head conflict) : log.drops c = true := by
  obtain ⟨rest, hents⟩ := ents_eq_cons h.head
  rw [drops, h.matched, h.found, hents]
  rw [hents] at hoff
  exact decide_eq_true ⟨h.above rfl, hoff⟩

theorem drops_of_not_le (h : Conflict log .debug c conflict head)
    (hoff : ¬UInt64.ofNat c.ents.length ≤ importOffset head conflict) : log.drops c = false := by
  obtain ⟨rest, hents⟩ := ents_eq_cons h.head
  rw [drops, h.matched, h.found, hents]
  rw [hents] at hoff
  exact decide_eq_false fun hdrop => hoff hdrop.2

/-! ## The conflict -/

theorem Conflict.head_num (h : Conflict log .debug c conflict head) (hnum : c.Numbered) :
    head.num = c.lastIndex.toNat + 1 := hnum.getElem? h.head

theorem Conflict.ents_ne (h : Conflict log .debug c conflict head) : c.ents ≠ [] := by
  obtain ⟨rest, hents⟩ := ents_eq_cons h.head
  simp [hents]

/-- **Where the conflict is**: the first missing entry of the batch, at or before the log's end. -/
theorem Conflict.position (h : Conflict log .debug c conflict head) (ha : log.Aligned)
    (hnum : c.Numbered) : ∃ (k : ℕ) (ent : Entry), c.ents[k]? = some ent ∧ conflict = ent.index ∧
      ¬log.HoldsAt ent.num ent.term ∧
      (∀ j < k, ∀ ent' : Entry, c.ents[j]? = some ent' → log.HoldsAt ent'.num ent'.term) ∧
      (conflict - head.index).toNat = k ∧ conflict.toNat ≤ log.endIndex := by
  have hmatch : log.HoldsAt c.lastIndex.toNat c.lastTerm := ha.matchAt_eq_true.mp h.matched
  rcases ha.findConflict_cases c.ents with ⟨-, hzero⟩ | ⟨k, ent, hk, hnot, hbelow, hfound⟩
  · -- the assertion rules out "no conflict"
    obtain rfl : conflict = 0 := Except.ok.inj (h.found.symm.trans hzero)
    have hlt := UInt64.lt_iff_toNat_lt.mp (h.above rfl)
    simp at hlt
  · obtain rfl : conflict = ent.index := Except.ok.inj (h.found.symm.trans hfound)
    have hent : ent.num = c.lastIndex.toNat + 1 + k := hnum.getElem? hk
    have hhead := h.head_num hnum
    have hle : head.index ≤ ent.index := UInt64.le_iff_toNat_le.mpr (by
      change head.num ≤ ent.num
      omega)
    refine ⟨k, ent, hk, rfl, hnot, hbelow, ?_, ?_⟩
    · rw [UInt64.toNat_sub_of_le _ _ hle]
      change ent.num - head.num = k
      omega
    · -- the entry before the conflict is in the log
      have hend : c.lastIndex.toNat + k < log.endIndex :=
        hnum.holds_before (P := (· < log.endIndex)) hk hmatch.lt_end.2
          fun j hj ent' hent' => (hbelow j hj ent' hent').lt_end.2
      change ent.num ≤ log.endIndex
      omega

/-! ## The import -/

/-- An import that is not dropped starts with an entry of the batch, past the snapshot point. -/
theorem Conflict.exists_first (h : Conflict log .debug c conflict head) (ha : log.Aligned)
    (hnum : c.Numbered) (hoff : ¬UInt64.ofNat c.ents.length ≤ importOffset head conflict) :
    ∃ first, c.ents[(importOffset head conflict).toNat]? = some first ∧ log.base < first.num ∧
      head.num ≤ first.num := by
  have hlen : c.ents.length < 2 ^ 64 := by
    have hend := hnum.end_le h.ents_ne
    omega
  rw [UInt64.le_iff_toNat_le, Word64.toNat_ofNat_of_lt hlen, not_le] at hoff
  refine ⟨_, List.getElem?_eq_getElem hoff, ?_, ?_⟩ <;>
    rw [show (c.ents[(importOffset head conflict).toNat]).num = _ from hnum.getElem hoff]
  · have hbase := (ha.matchAt_eq_true.mp h.matched).lt_end.1
    omega
  · rw [h.head_num hnum]
    omega

/-- The volatile splice, read on the cells. -/
theorem cons_splice (log : RaftLog) {first : ℕ} (hfirst : log.base < first) (ys : List Entry) :
    log.storage.front :: splice (log.base + 1) log.volatileState.entries first ys
      = splice log.base log.cells first ys := by
  rw [splice, splice, cells, show first - log.base = first - (log.base + 1) + 1 by omega,
    List.take_succ_cons, List.cons_append]

/-- Past a match, the volatile part of an aligned log starts right after the snapshot point. -/
theorem Aligned.endIndex_volatile (ha : log.Aligned) (hb : log.base + 1 < 2 ^ 64) :
    log.volatileState.endIndex = log.endIndex := by
  rw [VolatileState.endIndex, endIndex, cells, ha.offset_toNat hb, List.length_cons]
  omega

/-- **An import that lands right splices the cells and keeps the log aligned.** -/
theorem Aligned.imported (ha : log.Aligned) (hnum : c.Numbered)
    (h : Conflict log .debug c conflict head) {first : Entry}
    (hfirst : c.ents[(importOffset head conflict).toNat]? = some first)
    (hr : log.volatileState.LandsRight first.num) {v' : VolatileState}
    (hv : log.volatileState.append c.ents (importOffset head conflict) = .ok v') :
    ({ log with volatileState := v', commit := c.newCommit } : RaftLog).Aligned ∧
      ({ log with volatileState := v', commit := c.newCommit } : RaftLog).cells
        = splice log.base log.cells first.num (c.ents.drop (importOffset head conflict).toNat) ∧
      first.num ≤ log.endIndex := by
  have hbase := (ha.matchAt_eq_true.mp h.matched).lt_end.1
  have hk := (List.getElem?_eq_some_iff.mp hfirst).1
  have hidx : first.num = c.lastIndex.toNat + 1 + (importOffset head conflict).toNat :=
    hnum.getElem? hfirst
  have hoff : log.volatileState.offset.toNat = log.base + 1 :=
    ha.offset_toNat (by have := first.num_lt; omega)
  have hend := ha.endIndex_volatile (by have := first.num_lt; omega)
  have hle : first.num ≤ log.endIndex := hend ▸ hr.le_endIndex
  have h64 := ha.endIndex_le
  have hspliced := VolatileState.append_of_landsRight ha.contiguous
    (by have := hnum.end_le h.ents_ne; omega) hfirst (by omega) hr
  have hmin : Word64.stdMin log.volatileState.offset first.index = log.volatileState.offset :=
    Word64.stdMin_of_le (by
      change _ ≤ first.num
      omega)
  rw [hoff, hmin] at hspliced
  obtain rfl := Except.ok.inj (hv.symm.trans hspliced)
  have hcells : ∀ commit, ({ log with
      volatileState := { log.volatileState with
        entries := splice (log.base + 1) log.volatileState.entries first.num
          (c.ents.drop (importOffset head conflict).toNat) }
      commit := commit } : RaftLog).cells
        = splice log.base log.cells first.num (c.ents.drop (importOffset head conflict).toNat) :=
    fun commit => cons_splice log (by omega) _
  refine ⟨⟨ha.no_snapshot, ha.offset_eq, ?_⟩, hcells _, hle⟩
  rw [hcells]
  refine ha.numbered.splice (by omega) hle ?_
  rw [hidx]
  exact Window.Numbered.drop hnum hk.le

/-- **The log after an import ends with the batch.** -/
theorem endIndex_of_imported (hnum : c.Numbered) {first : Entry} {off : ℕ}
    (hfirst : c.ents[off]? = some first) (hbase : log.base ≤ first.num)
    (hle : first.num ≤ log.endIndex) (hstore : log'.storage = log.storage)
    (hcells : log'.cells = splice log.base log.cells first.num (c.ents.drop off)) :
    log'.endIndex = c.lastIndex.toNat + 1 + c.ents.length := by
  have hidx : first.num = c.lastIndex.toNat + 1 + off := hnum.getElem? hfirst
  have hk := (List.getElem?_eq_some_iff.mp hfirst).1
  have hb : log'.base = log.base := congrArg (fun st : MemoryStorage => st.front.num) hstore
  rw [endIndex] at hle
  rw [endIndex, hcells, hb, splice, List.length_append, List.length_take, List.length_drop,
    Nat.min_eq_left (by omega)]
  omega

end RaftLog

end RaftCore
