import RaftCore.Log.Splice

/-!
# Log/Redelivery — an append the log already has, without assertions

A batch that is wholly in the log has no conflict, and `FindConflict` says so with 0.  With
assertions compiled out the 0 goes on: `0 - ents[0].m_index`, cut to 32 bits, is compared with the
size of the batch.  The batch is dropped — and nothing is moved — unless one of its first `2^31`
indexes is a multiple of `2^32` (`importOffset_zero_eq_iff`).  There the entries from that index on
are imported again: what the log held after the batch is gone, and the cut may keep the wrong number
of entries before it.

    nothing is moved   ↔   no index of the batch is such a multiple, or the import from it ends
                           where the log ends and the log reads again what it read    (`redelivery`)
-/

namespace RaftCore

open Window

/-- One of the first `2^31` entries of the batch, at a multiple of `2^32`. -/
def AppendCall.CrossesAt (c : AppendCall) (ent : Entry) : Prop :=
  ∃ k < 2 ^ 31, c.ents[k]? = some ent ∧ ent.num % 2 ^ 32 = 0

/-- **Where "no conflict" points to**, as a position in the batch. -/
theorem importOffset_zero_eq_iff {head : Entry} (hpos : 0 < head.num) {k : ℕ}
    (hk : head.num + k < 2 ^ 64) :
    (importOffset head 0).toNat = k ↔ k < 2 ^ 31 ∧ (head.num + k) % 2 ^ 32 = 0 := by
  have hneg : (0 - head.index).toNat = 2 ^ 64 - head.num := by
    rw [UInt64.toNat_sub, UInt64.toNat_zero]
    change (2 ^ 64 - head.num + 0) % 2 ^ 64 = _
    omega
  rw [importOffset, Word64.toNat_ofInt_toInt, hneg]
  by_cases hlow : (2 ^ 64 - head.num) % 2 ^ 32 < 2 ^ 31
  · rw [if_pos hlow]
    omega
  · rw [if_neg hlow]
    omega

namespace RaftLog

variable {log : RaftLog} {c : AppendCall} {head ent : Entry} {k : ℕ}

/-- **The append brings nothing new**: its predecessor matches, and so does every entry of its
batch. -/
structure Redelivered (log : RaftLog) (c : AppendCall) : Prop where
  nonempty : c.ents ≠ []
  numbered : c.Numbered
  matched : log.matchAt c.lastIndex c.lastTerm = .ok true
  held : ∀ ent ∈ c.ents, log.matchAt ent.index ent.term = .ok true

/-- **The append succeeds and moves nothing**, assertions compiled out. -/
def Unmoved (log : RaftLog) (c : AppendCall) : Prop :=
  ∃ log', log.appendCall .ndebug c = .ok (true, log') ∧ log'.lastIndex = log.lastIndex ∧
    ∀ i, log'.termOf i = log.termOf i

/-- The term an aligned log reads at an index. -/
def termAt (log : RaftLog) (i : ℕ) : Option UInt64 := (lookup log.base log.cells i).map Entry.term

/-- How many entries an import from `first` keeps. -/
def kept (log : RaftLog) (first : ℕ) : ℕ :=
  if first = log.base + 1 then 0 else log.endIndex - 1 - first

/-- **The log reads from where the cut ends as it reads from `first` on.** -/
def Rereads (log : RaftLog) (first : ℕ) : Prop :=
  ∀ j, log.base + 1 + log.kept first + j < log.endIndex →
    log.termAt (first + j) = log.termAt (log.base + 1 + log.kept first + j)

/-! ## The batch that is dropped -/

theorem findConflict_of_held {ents : List Entry}
    (h : ∀ ent ∈ ents, log.matchAt ent.index ent.term = .ok true) :
    log.findConflict ents = .ok 0 := by
  induction ents with
  | nil => rfl
  | cons ent ents ih =>
    obtain ⟨hent, hrest⟩ := List.forall_mem_cons.mp h
    rw [findConflict, hent]
    exact ih hrest

namespace Redelivered

theorem length_lt (h : log.Redelivered c) : c.ents.length < 2 ^ 64 := by
  have hend := h.numbered.end_le h.nonempty
  omega

theorem exists_head (h : log.Redelivered c) : ∃ head, c.ents[0]? = some head :=
  ⟨_, List.getElem?_eq_getElem (List.length_pos_iff.mpr h.nonempty)⟩

theorem head_num (h : log.Redelivered c) (hhead : c.ents[0]? = some head) :
    head.num = c.lastIndex.toNat + 1 := h.numbered.getElem? hhead

/-- The entry "no conflict" points to is one that crosses. -/
theorem crossesAt_iff (h : log.Redelivered c) (hhead : c.ents[0]? = some head) (ent : Entry) :
    c.CrossesAt ent ↔ c.ents[(importOffset head 0).toNat]? = some ent := by
  have hnum := h.head_num hhead
  have hend := h.numbered.end_le h.nonempty
  have hiff : ∀ k, c.ents[k]? = some ent →
      ((importOffset head 0).toNat = k ↔ k < 2 ^ 31 ∧ ent.num % 2 ^ 32 = 0) := by
    intro k hk
    have hent : ent.num = c.lastIndex.toNat + 1 + k := h.numbered.getElem? hk
    have hlt := (List.getElem?_eq_some_iff.mp hk).1
    rw [hent, ← hnum]
    exact importOffset_zero_eq_iff (by omega) (by omega)
  constructor
  · rintro ⟨k, hk, hent, hmod⟩
    rwa [(hiff k hent).mpr ⟨hk, hmod⟩]
  · intro hent
    obtain ⟨hk, hmod⟩ := (hiff _ hent).mp rfl
    exact ⟨_, hk, hent, hmod⟩

/-- **What the append does**: it drops the batch, or imports from the entry that crosses on. -/
theorem appendCall_eq (h : log.Redelivered c) (hhead : c.ents[0]? = some head) :
    log.appendCall .ndebug c =
      match c.ents[(importOffset head 0).toNat]? with
      | none => .ok (true, { log with commit := c.newCommit })
      | some _ => (log.volatileState.append c.ents (importOffset head 0)).map fun v =>
          (true, { log with volatileState := v, commit := c.newCommit }) := by
  have hget : Deque.get c.ents 0 = .ok head := Deque.get_eq_ok.mpr hhead
  have hsize : UInt64.ofNat c.ents.length ≤ importOffset head 0 ↔
      c.ents[(importOffset head 0).toNat]? = none := by
    rw [UInt64.le_iff_toNat_le, Word64.toNat_ofNat_of_lt h.length_lt, List.getElem?_eq_none_iff]
  have hoff : Word64.ofInt (Word64.toInt (0 - head.index)) = importOffset head 0 := rfl
  simp only [appendCall, append, h.matched, findConflict_of_held h.held, Outcome.ok_bind, if_true,
    Build.assert, hget, appendToVolatileState, hoff]
  cases hent : c.ents[(importOffset head 0).toNat]? with
  | none =>
    rw [if_pos (hsize.mpr hent)]
    rfl
  | some ent =>
    rw [if_neg (mt hsize.mp (by simp [hent]))]
    change (log.volatileState.append c.ents (importOffset head 0) >>= _) >>= _ = _
    cases log.volatileState.append c.ents (importOffset head 0) <;> rfl

theorem unmoved_of_not_crosses (h : log.Redelivered c) (hc : ∀ ent, ¬c.CrossesAt ent) :
    log.Unmoved c := by
  obtain ⟨head, hhead⟩ := h.exists_head
  have hnone : c.ents[(importOffset head 0).toNat]? = none :=
    Option.eq_none_iff_forall_ne_some.mpr fun ent hent =>
      hc ent ((h.crossesAt_iff hhead ent).mpr hent)
  refine ⟨{ log with commit := c.newCommit }, ?_, rfl, fun _ => rfl⟩
  rw [h.appendCall_eq hhead, hnone]

/-! ## The batch that is imported again -/

theorem window (h : log.Redelivered c) (ha : log.Aligned) (hk : c.ents[k]? = some ent) :
    ent.num = c.lastIndex.toNat + 1 + k ∧ log.base + 1 ≤ ent.num ∧ ent.num < log.endIndex := by
  have hnum : ent.num = c.lastIndex.toNat + 1 + k := h.numbered.getElem? hk
  have hheld := (ha.matchAt_eq_true.mp (h.held ent (List.mem_of_getElem? hk))).lt_end
  have hlast := (ha.matchAt_eq_true.mp h.matched).lt_end
  refine ⟨hnum, ?_, hheld.2⟩
  omega

/-- **The import keeps `kept` entries** and puts the rest of the batch after them. -/
theorem volatile_append (h : log.Redelivered c) (ha : log.Aligned) {offset : UInt64}
    (hent : c.ents[offset.toNat]? = some ent) :
    log.volatileState.append c.ents offset = .ok { log.volatileState with
      entries := log.volatileState.entries.take (log.kept ent.num)
        ++ c.ents.drop offset.toNat } := by
  obtain ⟨-, hlow, hhigh⟩ := h.window ha hent
  have hne : log.volatileState.entries ≠ [] := fun hnil => by
    rw [endIndex, cells, hnil, List.length_singleton] at hhigh
    omega
  have hoff := ha.offset_toNat_of_ne hne
  have hend : log.volatileState.endIndex = log.endIndex := by
    rw [VolatileState.endIndex, hoff, endIndex, cells, List.length_cons]
    omega
  have hle := ha.endIndex_le
  rw [VolatileState.append_eq ha.contiguous h.length_lt hent (by omega), hend, if_neg (by omega),
    hoff, kept]
  by_cases hfirst : ent.num = log.base + 1
  · have hindex : ent.index = log.volatileState.offset :=
      Word64.eq_of_toNat (show ent.num = _ by rw [hoff, hfirst])
    rw [if_pos hfirst.le, if_pos hfirst, hindex, List.take_zero, List.nil_append]
  · rw [if_neg (by omega), if_neg hne, if_neg (by omega), if_neg hfirst]

/-- The rest of the batch reads as the log does, when it ends where the log ends. -/
theorem drop_map_term (h : log.Redelivered c) (ha : log.Aligned) (hk : c.ents[k]? = some ent)
    (hend : c.lastIndex.toNat + c.ents.length + 1 = log.endIndex) (j : ℕ) :
    (c.ents.drop k)[j]?.map Entry.term = log.termAt (ent.num + j) := by
  obtain ⟨hnum, hlow, -⟩ := h.window ha hk
  rw [List.getElem?_drop]
  cases hj : c.ents[k + j]? with
  | some ent' =>
    obtain ⟨hnum', -, -⟩ := h.window ha hj
    have hheld : log.HoldsAt ent'.num ent'.term :=
      ha.matchAt_eq_true.mp (h.held ent' (List.mem_of_getElem? hj))
    rw [show ent.num + j = ent'.num by omega]
    exact hheld.symm
  | none =>
    have hout := List.getElem?_eq_none_iff.mp hj
    have hlookup : lookup log.base log.cells (ent.num + j) = none := by
      rw [lookup_of_le _ (by omega), List.getElem?_eq_none_iff]
      rw [endIndex] at hend
      omega
    rw [termAt, hlookup]

end Redelivered

/-! ## A log whose ends are known -/

theorem termAt_eq_some (log : RaftLog) {i : ℕ} (hlow : log.base ≤ i)
    (hhigh : i < log.endIndex) : ∃ term, log.termAt i = some term := by
  have hin : (lookup log.base log.cells i).isSome := lookup_isSome.mpr ⟨hlow, hhigh⟩
  obtain ⟨ent, hent⟩ := Option.isSome_iff_exists.mp hin
  exact ⟨ent.term, by rw [termAt, hent]; rfl⟩

theorem termAt_entries (log : RaftLog) (j : ℕ) :
    log.termAt (log.base + 1 + j) = log.volatileState.entries[j]?.map Entry.term := by
  rw [termAt, lookup, if_pos (by omega), show log.base + 1 + j - log.base = j + 1 by omega, cells,
    List.getElem?_cons_succ]

/-- **`TermOf` of entries with these ends**, whatever lies between. -/
theorem termOf_of_ends {log : RaftLog} {first last : Entry}
    (hsnap : log.volatileState.snapshot = none)
    (hfirst : log.volatileState.entries.head? = some first)
    (hlast : log.volatileState.entries.getLast? = some last) (i : UInt64) :
    log.termOf i = if first.index ≤ i ∧ i ≤ last.index then
        (Deque.get log.volatileState.entries (i - first.index)).map fun ent => some ent.term
      else .ok (log.storage.termOf i) := by
  have hne : log.volatileState.entries ≠ [] := fun hnil => by simp [hnil] at hfirst
  have hfront : Deque.front log.volatileState.entries = .ok first := by rw [Deque.front, hfirst]
  rw [termOf, VolatileState.termOf, if_neg hne, hfront, Deque.back_eq_ok.mpr hlast,
    VolatileState.snapshotTerm, hsnap]
  simp only [Outcome.ok_bind]
  split
  · cases Deque.get log.volatileState.entries (i - first.index) <;> rfl
  · rfl

/-- Away from the entries the storage answers. -/
theorem storage_termOf (log : RaftLog) {i : UInt64}
    (hout : ¬(log.base + 1 ≤ i.toNat ∧ i.toNat < log.endIndex)) :
    log.storage.termOf i = log.termAt i.toNat := by
  have hnone : lookup (log.base + 1) log.volatileState.entries i.toNat = none :=
    Option.not_isSome_iff_eq_none.mp fun hin => hout (by
      have hwin := lookup_isSome.mp hin
      rw [endIndex, cells, List.length_cons]
      omega)
  rw [MemoryStorage.termOf_eq, termAt, Aligned.lookup_cells, hnone,
    if_congr (Aligned.eq_front_iff log i) rfl rfl]
  by_cases hi : i.toNat = log.base <;> simp [hi]

/-- **Entries between the ends of the log read as the log does exactly when each reads as its own
index.** -/
theorem Aligned.termOf_eq_iff (ha : log.Aligned) {log' : RaftLog} {first last : Entry}
    (hstorage : log'.storage = log.storage) (hsnap : log'.volatileState.snapshot = none)
    (hfirst : log'.volatileState.entries.head? = some first)
    (hlast : log'.volatileState.entries.getLast? = some last) (hf : first.num = log.base + 1)
    (hl : last.num + 1 = log.endIndex) :
    (∀ i, log'.termOf i = log.termOf i) ↔ ∀ j, log.base + 1 + j < log.endIndex →
      log'.volatileState.entries[j]?.map Entry.term = log.termAt (log.base + 1 + j) := by
  have hle := ha.endIndex_le
  have hin : ∀ i : UInt64, first.index ≤ i ∧ i ≤ last.index ↔
      log.base + 1 ≤ i.toNat ∧ i.toNat < log.endIndex := by
    intro i
    rw [UInt64.le_iff_toNat_le, UInt64.le_iff_toNat_le, ← Entry.num, ← Entry.num]
    omega
  have hget : ∀ {i : UInt64} {term : UInt64}, first.index ≤ i →
      (((Deque.get log'.volatileState.entries (i - first.index)).map fun ent => some ent.term)
          = .ok (some term) ↔
        log'.volatileState.entries[i.toNat - (log.base + 1)]?.map Entry.term = some term) := by
    intro i term hi
    rw [Outcome.map_eq_ok, Option.map_eq_some_iff, ← hf, Entry.num,
      ← UInt64.toNat_sub_of_le _ _ hi]
    simp only [Deque.get_eq_ok, Option.some.injEq]
  constructor
  · intro hall j hj
    obtain ⟨term, hterm⟩ := log.termAt_eq_some (by omega : log.base ≤ log.base + 1 + j) hj
    have hj64 : (UInt64.ofNat (log.base + 1 + j)).toNat = log.base + 1 + j :=
      Word64.toNat_ofNat_of_lt (by omega)
    have hwin := (hin (UInt64.ofNat (log.base + 1 + j))).mpr (by omega)
    have hread := hall (UInt64.ofNat (log.base + 1 + j))
    rw [termOf_of_ends hsnap hfirst hlast, if_pos hwin, ha.termOf_eq, hj64, ← termAt, hterm,
      hget hwin.1, hj64, Nat.add_sub_cancel_left] at hread
    rw [hread, hterm]
  · intro hall i
    rw [termOf_of_ends hsnap hfirst hlast, ha.termOf_eq, ← termAt]
    by_cases hwin : first.index ≤ i ∧ i ≤ last.index
    · obtain ⟨hlow, hhigh⟩ := (hin i).mp hwin
      obtain ⟨term, hterm⟩ := log.termAt_eq_some (by omega : log.base ≤ i.toNat) hhigh
      have hread := hall (i.toNat - (log.base + 1)) (by omega)
      rw [Nat.add_sub_cancel' hlow, hterm] at hread
      rw [if_pos hwin, hterm, hget hwin.1, hread]
    · rw [if_neg hwin, hstorage, storage_termOf log fun hc => hwin ((hin i).mpr hc)]

/-- The last of several entries is not read again in the first one's place. -/
theorem not_rereads_last (log : RaftLog) {first : ℕ} (hkept : log.kept first = 0)
    (hlow : log.base + 1 < first) (hlast : first + 1 = log.endIndex) : ¬log.Rereads first := by
  intro hall
  have hread := hall (log.endIndex - (log.base + 2)) (by omega)
  obtain ⟨term, hterm⟩ := log.termAt_eq_some (by omega : log.base ≤ log.endIndex - 1) (by omega)
  rw [hkept, show log.base + 1 + 0 + (log.endIndex - (log.base + 2)) = log.endIndex - 1 by omega,
    hterm] at hread
  obtain ⟨ent, hent, -⟩ := Option.map_eq_some_iff.mp hread
  have hin := lookup_eq_some hent
  rw [endIndex] at *
  omega

/-! ## The log after the import -/

/-- The log after the batch is imported again from its entry `ent` at position `k` on. -/
def reimported (log : RaftLog) (c : AppendCall) (ent : Entry) (k : ℕ) : RaftLog :=
  { log with
    volatileState := { log.volatileState with
      entries := log.volatileState.entries.take (log.kept ent.num) ++ c.ents.drop k }
    commit := c.newCommit }

/-- The entries kept, then the batch from `ent` on. -/
theorem reimported_entries (log : RaftLog) (c : AppendCall) (ent : Entry) (k : ℕ) :
    (log.reimported c ent k).volatileState.entries
      = log.volatileState.entries.take (log.kept ent.num) ++ c.ents.drop k := rfl

namespace Redelivered

theorem kept_le (h : log.Redelivered c) (ha : log.Aligned) (hk : c.ents[k]? = some ent) :
    log.kept ent.num ≤ log.volatileState.entries.length := by
  obtain ⟨-, hlow, hhigh⟩ := h.window ha hk
  rw [kept, endIndex, cells, List.length_cons] at *
  split <;> omega

/-- The last entry is the last of the batch. -/
theorem reimported_getLast? (h : log.Redelivered c) (hk : c.ents[k]? = some ent) :
    ∃ last, (log.reimported c ent k).volatileState.entries.getLast? = some last ∧
      last.num = c.lastIndex.toNat + c.ents.length := by
  have hlt := (List.getElem?_eq_some_iff.mp hk).1
  have hlast := h.numbered.getLast h.nonempty
  refine ⟨c.ents.getLast h.nonempty, ?_, by omega⟩
  rw [reimported_entries, List.getLast?_append, List.getLast?_drop, if_neg (by omega),
    List.getLast?_eq_some_getLast h.nonempty]
  rfl

/-- Before the cut the log reads as it did, and after it as it did from `ent` on. -/
theorem reimported_map_term (h : log.Redelivered c) (ha : log.Aligned)
    (hk : c.ents[k]? = some ent) (hend : c.lastIndex.toNat + c.ents.length + 1 = log.endIndex)
    (j : ℕ) : (log.reimported c ent k).volatileState.entries[j]?.map Entry.term =
      if j < log.kept ent.num then log.termAt (log.base + 1 + j)
      else log.termAt (ent.num + (j - log.kept ent.num)) := by
  have hlen : (log.volatileState.entries.take (log.kept ent.num)).length = log.kept ent.num := by
    rw [List.length_take, Nat.min_eq_left (h.kept_le ha hk)]
  rw [reimported_entries]
  split
  · rename_i hj
    rw [List.getElem?_append_left (by omega), List.getElem?_take_of_lt hj, termAt_entries]
  · rename_i hj
    rw [List.getElem?_append_right (by omega), hlen, h.drop_map_term ha hk hend]

/-- The first entry is still the log's first, unless the cut leaves none before a later `ent`. -/
theorem reimported_head? (h : log.Redelivered c) (ha : log.Aligned) (hk : c.ents[k]? = some ent)
    (hfirst : ent.num = log.base + 1 ∨ 0 < log.kept ent.num) :
    ∃ first, (log.reimported c ent k).volatileState.entries.head? = some first ∧
      first.num = log.base + 1 := by
  rw [reimported_entries]
  rcases Nat.eq_zero_or_pos (log.kept ent.num) with hzero | hpos
  · rw [hzero, List.take_zero, List.nil_append, List.head?_drop, hk]
    exact ⟨ent, rfl, hfirst.resolve_right (by omega)⟩
  · have hle := h.kept_le ha hk
    have hne : log.volatileState.entries ≠ [] := List.length_pos_iff.mp (by omega)
    refine ⟨log.volatileState.entries.head hne, ?_, ?_⟩
    · rw [List.head?_append, List.head?_take, if_neg (by omega), List.head?_eq_some_head hne]
      rfl
    · have hhead := ha.contiguous.head hne
      rwa [ha.offset_toNat_of_ne hne] at hhead

/-- With a first entry left, the log reads the same exactly when it reads again what it read. -/
theorem reimported_termOf_iff_of_first (h : log.Redelivered c) (ha : log.Aligned)
    (hk : c.ents[k]? = some ent) (hend : c.lastIndex.toNat + c.ents.length + 1 = log.endIndex)
    (hfirst : ent.num = log.base + 1 ∨ 0 < log.kept ent.num) :
    (∀ i, (log.reimported c ent k).termOf i = log.termOf i) ↔ log.Rereads ent.num := by
  obtain ⟨-, hlow, hhigh⟩ := h.window ha hk
  obtain ⟨last, hlast, hlastnum⟩ := h.reimported_getLast? hk
  obtain ⟨first, hhead, hfirstnum⟩ := h.reimported_head? ha hk hfirst
  have hsnap : (log.reimported c ent k).volatileState.snapshot = none := ha.no_snapshot
  have hstorage : (log.reimported c ent k).storage = log.storage := rfl
  rw [ha.termOf_eq_iff hstorage hsnap hhead hlast hfirstnum (by omega)]
  constructor
  · intro hall j hj
    have hread := hall (log.kept ent.num + j) (by omega)
    rw [h.reimported_map_term ha hk hend, if_neg (by omega), Nat.add_sub_cancel_left] at hread
    rw [hread, Nat.add_assoc (log.base + 1)]
  · intro hall j hj
    rw [h.reimported_map_term ha hk hend]
    split
    · rfl
    · have hread := hall (j - log.kept ent.num) (by omega)
      rw [hread]
      congr 1
      omega

/-- An import that leaves `ent` alone, the last of several entries, loses the first. -/
theorem reimported_termOf_ne (h : log.Redelivered c) (ha : log.Aligned)
    (hk : c.ents[k]? = some ent) (hend : c.lastIndex.toNat + c.ents.length + 1 = log.endIndex)
    (hkept : log.kept ent.num = 0) (hlow : log.base + 1 < ent.num) :
    ¬∀ i, (log.reimported c ent k).termOf i = log.termOf i := by
  intro hall
  have hle := ha.endIndex_le
  obtain ⟨-, -, hhigh⟩ := h.window ha hk
  obtain ⟨last, hlast, hlastnum⟩ := h.reimported_getLast? hk
  obtain ⟨term, hterm⟩ := log.termAt_eq_some (by omega : log.base ≤ log.base + 1) (by omega)
  have hone : (UInt64.ofNat (log.base + 1)).toNat = log.base + 1 :=
    Word64.toNat_ofNat_of_lt (by omega)
  have hhead : (log.reimported c ent k).volatileState.entries.head? = some ent := by
    rw [reimported_entries, hkept, List.take_zero, List.nil_append, List.head?_drop, hk]
  have hbelow : ¬(ent.index ≤ UInt64.ofNat (log.base + 1) ∧
      UInt64.ofNat (log.base + 1) ≤ last.index) := fun hc => by
    have hin := UInt64.le_iff_toNat_le.mp hc.1
    rw [hone, ← Entry.num] at hin
    omega
  have hnone : log.storage.termOf (UInt64.ofNat (log.base + 1)) = none := by
    rw [MemoryStorage.termOf_eq, if_neg]
    intro hc
    have := (Aligned.eq_front_iff log _).mp hc
    omega
  have hsnap : (log.reimported c ent k).volatileState.snapshot = none := ha.no_snapshot
  have hread := hall (UInt64.ofNat (log.base + 1))
  rw [termOf_of_ends hsnap hhead hlast, if_neg hbelow, ha.termOf_eq, hone, ← termAt, hterm]
    at hread
  exact Option.some_ne_none _ ((Except.ok.inj hread).symm.trans hnone)

/-- **The terms are as before exactly when the log reads again what it read.** -/
theorem reimported_termOf_iff (h : log.Redelivered c) (ha : log.Aligned)
    (hk : c.ents[k]? = some ent) (hend : c.lastIndex.toNat + c.ents.length + 1 = log.endIndex) :
    (∀ i, (log.reimported c ent k).termOf i = log.termOf i) ↔ log.Rereads ent.num := by
  by_cases hfirst : ent.num = log.base + 1 ∨ 0 < log.kept ent.num
  · exact h.reimported_termOf_iff_of_first ha hk hend hfirst
  -- `ent` is the last of several entries, and the import leaves it alone
  obtain ⟨hne, hzero⟩ := not_or.mp hfirst
  obtain ⟨-, hlow, hhigh⟩ := h.window ha hk
  have hkept : log.kept ent.num = 0 := Nat.eq_zero_of_not_pos hzero
  have hlast : ent.num + 1 = log.endIndex := by
    rw [kept, if_neg hne] at hkept
    omega
  exact iff_of_false (h.reimported_termOf_ne ha hk hend hkept (by omega))
    (log.not_rereads_last hkept (by omega) hlast)

/-- **An import again moves nothing exactly when it ends where the log ends and the log reads again
what it read.** -/
theorem unmoved_iff (h : log.Redelivered c) (ha : log.Aligned) (hc : c.CrossesAt ent) :
    log.Unmoved c ↔ c.lastIndex.toNat + c.ents.length + 1 = log.endIndex ∧
      log.Rereads ent.num := by
  obtain ⟨head, hhead⟩ := h.exists_head
  have hent := (h.crossesAt_iff hhead ent).mp hc
  have happ : log.appendCall .ndebug c
      = .ok (true, log.reimported c ent (importOffset head 0).toNat) := by
    rw [h.appendCall_eq hhead, hent, h.volatile_append ha hent]
    rfl
  obtain ⟨last, hlast, hlastnum⟩ := h.reimported_getLast? hent
  have hends : (log.reimported c ent (importOffset head 0).toNat).lastIndex = log.lastIndex ↔
      c.lastIndex.toNat + c.ents.length + 1 = log.endIndex := by
    have hlog := ha.lastIndex_eq
    rw [lastIndex, VolatileState.lastIndex, hlast, ← UInt64.toNat_inj, ← hlog, ← hlastnum]
    exact (Nat.add_left_inj).symm
  rw [Unmoved, happ, ← hends]
  constructor
  · rintro ⟨log', hlog', hlastIndex, hterms⟩
    obtain ⟨-, rfl⟩ := Prod.mk.inj (Except.ok.inj hlog')
    exact ⟨hlastIndex, (h.reimported_termOf_iff ha hent (hends.mp hlastIndex)).mp hterms⟩
  · rintro ⟨hlastIndex, hreads⟩
    exact ⟨_, rfl, hlastIndex,
      (h.reimported_termOf_iff ha hent (hends.mp hlastIndex)).mpr hreads⟩

end Redelivered

/-- **A redelivered append moves nothing while no index of its batch is a multiple of `2^32`** — and
on an aligned log, exactly when every such index is harmless to import from again. -/
theorem redelivery (h : log.Redelivered c) :
    ((∀ ent, ¬c.CrossesAt ent) → log.Unmoved c) ∧
      (log.Aligned → (log.Unmoved c ↔ ∀ ent, c.CrossesAt ent →
        c.lastIndex.toNat + c.ents.length + 1 = log.endIndex ∧ log.Rereads ent.num)) := by
  refine ⟨h.unmoved_of_not_crosses, fun ha => ⟨fun hun ent hc => (h.unmoved_iff ha hc).mp hun, ?_⟩⟩
  intro hall
  by_cases hcross : ∃ ent, c.CrossesAt ent
  · obtain ⟨ent, hc⟩ := hcross
    exact (h.unmoved_iff ha hc).mpr (hall ent hc)
  · exact h.unmoved_of_not_crosses (not_exists.mp hcross)

/-- The calls of a run without assertions. -/
def nextUnchecked (log : RaftLog) (c : AppendCall) : Option RaftLog :=
  ((log.appendCall .ndebug c).map Prod.snd).toOption

/-- Two entries past the snapshot point `2^32 - 1`: the second redelivered alone, and both
together. -/
theorem redelivery_past_word :
    Unmoved ⟨{ snapshot := some ⟨⟨⟨[], []⟩, 4294967295, 1⟩, []⟩ },
        ⟨none, [⟨4294967296, 1, .entryNormal, []⟩, ⟨4294967297, 1, .entryNormal, []⟩], 4294967296⟩,
        0, 0⟩ ⟨4294967296, 1, 0, [⟨4294967297, 1, .entryNormal, []⟩]⟩ ∧
      Unmoved ⟨{ snapshot := some ⟨⟨⟨[], []⟩, 4294967295, 1⟩, []⟩ },
        ⟨none, [⟨4294967296, 1, .entryNormal, []⟩, ⟨4294967297, 1, .entryNormal, []⟩], 4294967296⟩,
        0, 0⟩ ⟨4294967295, 1, 0,
          [⟨4294967296, 1, .entryNormal, []⟩, ⟨4294967297, 1, .entryNormal, []⟩]⟩ := by
  constructor
  · refine (redelivery ⟨by decide, by decide, rfl, by decide⟩).1 ?_
    rintro ent ⟨k, -, hent, hmod⟩
    obtain rfl : k = 0 := by
      have hlt := (List.getElem?_eq_some_iff.mp hent).1
      simpa using hlt
    obtain rfl := Option.some.inj hent
    exact absurd hmod (by decide)
  · refine ((redelivery ⟨by decide, by decide, rfl, by decide⟩).2
      ⟨rfl, by decide, by decide⟩).mpr ?_
    rintro ent ⟨k, -, hent, hmod⟩
    obtain rfl : k = 0 := by
      rcases k with _ | _ | k
      · rfl
      · obtain rfl := Option.some.inj hent
        exact absurd hmod (by decide)
      · cases hent
    obtain rfl := Option.some.inj hent
    exact ⟨by decide, fun j _ => rfl⟩

/-- **A redelivered batch can truncate the log**: over a snapshot at `2^32 - 1`, three entries are
appended and the first of them is delivered again. -/
theorem not_redelivery_at_word : ¬∀ (st : MemoryStorage) (calls : List AppendCall) (log : RaftLog)
    (c : AppendCall), Runs.final? nextUnchecked (ofStorage st) calls = some log →
      log.Redelivered c → log.Unmoved c := by
  intro hall
  have hreached : Runs.final? nextUnchecked
      (ofStorage { snapshot := some ⟨⟨⟨[], []⟩, 4294967295, 1⟩, []⟩ })
      [⟨4294967295, 1, 0, [⟨4294967296, 1, .entryNormal, []⟩, ⟨4294967297, 1, .entryNormal, []⟩,
        ⟨4294967298, 1, .entryNormal, []⟩]⟩]
      = some ⟨{ snapshot := some ⟨⟨⟨[], []⟩, 4294967295, 1⟩, []⟩ },
        ⟨none, [⟨4294967296, 1, .entryNormal, []⟩, ⟨4294967297, 1, .entryNormal, []⟩,
          ⟨4294967298, 1, .entryNormal, []⟩], 4294967296⟩, 0, 4294967295⟩ := by
    rw [Runs.final?_cons, Option.bind_eq_some_iff]
    refine ⟨_, Outcome.toOption_eq_some.mpr (Outcome.map_eq_ok.mpr ⟨(true, _), ?_, rfl⟩), rfl⟩
    rfl
  obtain ⟨log', happ, hlast, -⟩ := hall _ _ _
    ⟨4294967295, 1, 0, [⟨4294967296, 1, .entryNormal, []⟩]⟩ hreached
    ⟨by decide, by decide, rfl, by decide⟩
  obtain ⟨-, rfl⟩ := Prod.mk.inj (Except.ok.inj happ)
  exact absurd hlast (by decide)

end RaftLog

end RaftCore
