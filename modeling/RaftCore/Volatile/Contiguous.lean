import RaftCore.Volatile.Consecutive

/-!
# Volatile/Contiguous — the volatile operations on consecutively numbered entries

As long as the held entries carry the indexes `offset, offset + 1, …` and none of them wraps
(`Contiguous`), a position the code computes is the position of the index it stands for, and each
operation has one equation over the natural numbers:

* `termOf_eq` — a held index is answered by its entry, any other by the snapshot;
* `append_eq` — extend, replace, fault on an empty suffix, panic on a gap, or cut and extend.

The cut is where the code and a log part ways.  It keeps `endIndex - 1 - first` entries, and the
entries below `first` are `first - offset` many: the two agree when the import cuts the held
entries at their middle, and only then (`LandsRight`).
-/

namespace RaftCore

open Window

/-- The number an entry carries. -/
def Entry.num (ent : Entry) : ℕ := ent.index.toNat

theorem Entry.num_lt (ent : Entry) : ent.num < 2 ^ 64 := ent.index.toNat_lt

theorem length_lt_of_numbered {b : ℕ} {ents : List Entry} (h : Numbered Entry.num b ents)
    (hb : b < 2 ^ 64) : b + ents.length ≤ 2 ^ 64 := by
  rcases eq_or_ne ents [] with rfl | hne
  · exact hb.le
  · rw [← h.getLast hne]
    exact (ents.getLast hne).num_lt

namespace VolatileState

/-- **The held entries carry the indexes `offset, offset + 1, …`.** -/
def Contiguous (v : VolatileState) : Prop := Numbered Entry.num v.offset.toNat v.entries

instance (v : VolatileState) : Decidable v.Contiguous :=
  inferInstanceAs (Decidable (Numbered _ _ _))

/-- The index after the held entries. -/
def endIndex (v : VolatileState) : ℕ := v.offset.toNat + v.entries.length

theorem Contiguous.endIndex_le {v : VolatileState} (h : v.Contiguous) : v.endIndex ≤ 2 ^ 64 :=
  length_lt_of_numbered h v.offset.toNat_lt

theorem Contiguous.head {v : VolatileState} (h : v.Contiguous) (hne : v.entries ≠ []) :
    (v.entries.head hne).index.toNat = v.offset.toNat := by
  rw [List.head_eq_getElem]
  exact (Numbered.getElem h (List.length_pos_iff.mpr hne))

theorem Contiguous.getLast {v : VolatileState} (h : v.Contiguous) (hne : v.entries ≠ []) :
    (v.entries.getLast hne).index.toNat + 1 = v.endIndex := Numbered.getLast h hne

/-- The last index: the last held entry's, else the snapshot's. -/
theorem lastIndex_of_ne {v : VolatileState} (hne : v.entries ≠ []) :
    v.lastIndex = some (v.entries.getLast hne).index := by
  rw [lastIndex, List.getLast?_eq_some_getLast hne]

theorem lastIndex_of_nil {v : VolatileState} (h : v.entries = []) :
    v.lastIndex = v.snapshot.map fun s => s.snapshotMetadata.index := by
  rw [lastIndex, h, List.getLast?_nil]

/-- The snapshot that is held is cleared at its own index. -/
theorem clearSnapshot_held {v : VolatileState} {s : Snapshot} (h : v.snapshot = some s) :
    v.clearSnapshot s.snapshotMetadata.index = (true, { v with snapshot := none }) := by
  simp [clearSnapshot, h]

/-! ## Continuing a point -/

/-- **The held entries continue a point**: they are numbered from the index after it. -/
structure Follows (v : VolatileState) (point : Entry) : Prop where
  offset_eq : v.offset = point.index + 1
  numbered : Numbered Entry.num (point.num + 1) v.entries

namespace Follows

variable {v : VolatileState} {point : Entry}

theorem end_le (h : v.Follows point) : point.num + 1 + v.entries.length ≤ 2 ^ 64 := by
  have hcells : Numbered Entry.num point.num (point :: v.entries) := ⟨rfl, h.numbered⟩
  have hle := length_lt_of_numbered hcells point.num_lt
  rw [List.length_cons] at hle
  omega

/-- Unless the point is the last index there is, the entries start after it. -/
theorem offset_toNat (h : v.Follows point) (hb : point.num + 1 < 2 ^ 64) :
    v.offset.toNat = point.num + 1 := by
  rw [h.offset_eq]
  exact Word64.toNat_succ hb

theorem offset_toNat_of_ne (h : v.Follows point) (hne : v.entries ≠ []) :
    v.offset.toNat = point.num + 1 := by
  have hend := h.end_le
  have hpos := List.length_pos_iff.mpr hne
  exact h.offset_toNat (by omega)

theorem contiguous (h : v.Follows point) : v.Contiguous := by
  rcases eq_or_ne v.entries [] with hnil | hne
  · rw [Contiguous, hnil]
    trivial
  · rw [Contiguous, h.offset_toNat_of_ne hne]
    exact h.numbered

theorem lookup_eq (h : v.Follows point) (i : ℕ) :
    lookup v.offset.toNat v.entries i = lookup (point.num + 1) v.entries i := by
  rcases eq_or_ne v.entries [] with hnil | hne
  · rw [hnil, lookup_nil, lookup_nil]
  · rw [h.offset_toNat_of_ne hne]

theorem getLast (h : v.Follows point) (hne : v.entries ≠ []) :
    (v.entries.getLast hne).num = point.num + v.entries.length := by
  have hlast := h.numbered.getLast hne
  omega

end Follows

/-! ## `TermOf` -/

theorem Contiguous.consecutive {v : VolatileState} (h : v.Contiguous) : v.Consecutive :=
  Numbered.wrapping h

/-- The entry read at an index is the one that carries it. -/
theorem Contiguous.heldAt_eq {v : VolatileState} (h : v.Contiguous) (index : UInt64) :
    v.heldAt index = lookup v.offset.toNat v.entries index.toNat := by
  rcases eq_or_ne v.entries [] with hnil | hne
  · rw [heldAt_of_nil hnil, hnil, lookup_nil]
  have hlast := h.getLast hne
  have hcond : v.offset ≤ index ∧ index ≤ (v.entries.getLast hne).index ↔
      (lookup v.offset.toNat v.entries index.toNat).isSome := by
    rw [lookup_isSome, UInt64.le_iff_toNat_le, UInt64.le_iff_toNat_le]
    rw [endIndex] at hlast
    omega
  rw [heldAt_of_ne hne]
  by_cases hin : (lookup v.offset.toNat v.entries index.toNat).isSome
  · have hle := (hcond.mpr hin).1
    rw [if_pos (hcond.mpr hin), UInt64.toNat_sub_of_le _ _ hle,
      lookup_of_le _ (lookup_isSome.mp hin).1]
  · rw [if_neg (mt hcond.mp hin), Option.not_isSome_iff_eq_none.mp hin]

/-- **A held index is answered by its entry, any other by the snapshot.** -/
theorem termOf_eq {v : VolatileState} (h : v.Contiguous) (index : UInt64) :
    v.termOf index = .ok (((lookup v.offset.toNat v.entries index.toNat).map Entry.term).or
      (v.snapshotTerm index)) := by
  rw [h.consecutive.termOf_eq, h.heldAt_eq]

/-! ## `Append` -/

/-- **The five ways an append ends**, over the natural numbers. -/
theorem append_eq {v : VolatileState} (h : v.Contiguous) {entries : List Entry}
    {offset : UInt64} {ent : Entry} (hlen : entries.length < 2 ^ 64)
    (hent : entries[offset.toNat]? = some ent) (h0 : v.endIndex < 2 ^ 64 + ent.num) :
    v.append entries offset =
      if v.endIndex = ent.num then
        .ok { v with entries := v.entries ++ entries.drop offset.toNat }
      else if ent.num ≤ v.offset.toNat then
        .ok { v with entries := entries.drop offset.toNat, offset := ent.index }
      else if v.entries = [] then .error (.undefined "rbegin() of an empty deque")
      else if v.endIndex < ent.num then
        .error (.panic "gap between local entries and income entries")
      else .ok { v with
        entries := v.entries.take (v.endIndex - 1 - ent.num) ++ entries.drop offset.toNat } := by
  have hin : offset.toNat < entries.length := (List.getElem?_eq_some_iff.mp hent).1
  have hsize : ¬ UInt64.ofNat entries.length ≤ offset := by
    rw [UInt64.le_iff_toNat_le, Word64.toNat_ofNat_of_lt hlen]
    omega
  have hend : v.offset + UInt64.ofNat v.entries.length = ent.index ↔ v.endIndex = ent.num := by
    have h1 := h.endIndex_le
    have h2 := ent.num_lt
    rw [← UInt64.toNat_inj, UInt64.toNat_add, UInt64.toNat_ofNat', ← Entry.num]
    rw [endIndex] at *
    omega
  have hle : ent.index ≤ v.offset ↔ ent.num ≤ v.offset.toNat := UInt64.le_iff_toNat_le
  rw [h.consecutive.append_eq (firstImported_eq_some.mpr ⟨hsize, hent⟩)]
  simp only [hend, hle]
  by_cases hnil : v.entries = []
  · rw [if_pos hnil, hnil, List.getLast?_nil]
  have hlast := h.getLast hnil
  have hgap : (v.entries.getLast hnil).index < ent.index ↔ v.endIndex ≤ ent.num := by
    rw [UInt64.lt_iff_toNat_lt, ← hlast]
    exact Iff.rfl
  rw [if_neg hnil, List.getLast?_eq_some_getLast hnil]
  simp only [hgap]
  refine if_ctx_congr Iff.rfl (fun _ => rfl) fun hne => if_ctx_congr Iff.rfl (fun _ => rfl)
    fun hgt => if_ctx_congr (by omega) (fun _ => rfl) fun hngap => ?_
  have hle' : ent.index ≤ (v.entries.getLast hnil).index :=
    UInt64.not_lt.mp fun hlt => hngap (by have := hgap.mp hlt; omega)
  have hpre : ((v.entries.getLast hnil).index - ent.index).toNat = v.endIndex - 1 - ent.num := by
    rw [UInt64.toNat_sub_of_le _ _ hle', ← hlast]
    rfl
  rw [hpre]

/-- **An import returns exactly when it leaves no gap.** -/
theorem append_returns_iff {v : VolatileState} (h : v.Contiguous) {entries : List Entry}
    {offset : UInt64} {ent : Entry} (hlen : entries.length < 2 ^ 64)
    (hent : entries[offset.toNat]? = some ent) (h0 : v.endIndex < 2 ^ 64 + ent.num) :
    (∃ v', v.append entries offset = .ok v') ↔ ent.num ≤ v.endIndex := by
  have hoff : v.offset.toNat ≤ v.endIndex := Nat.le_add_right _ _
  rw [append_eq h hlen hent h0]
  by_cases hend : v.endIndex = ent.num
  · rw [if_pos hend]
    exact iff_of_true ⟨_, rfl⟩ hend.ge
  rw [if_neg hend]
  by_cases hle : ent.num ≤ v.offset.toNat
  · rw [if_pos hle]
    exact iff_of_true ⟨_, rfl⟩ (by omega)
  rw [if_neg hle]
  by_cases hnil : v.entries = []
  · rw [if_pos hnil]
    refine iff_of_false (by simp) fun hc => ?_
    rw [endIndex, hnil, List.length_nil] at hc
    omega
  rw [if_neg hnil]
  by_cases hgap : v.endIndex < ent.num
  · rw [if_pos hgap]
    exact iff_of_false (by simp) (by omega)
  · rw [if_neg hgap]
    exact iff_of_true ⟨_, rfl⟩ (by omega)

/-- Where an import may start for the cut to be right: at or before the held entries, right after
them, or at their middle. -/
def LandsRight (v : VolatileState) (first : ℕ) : Prop :=
  first ≤ v.offset.toNat ∨ first = v.endIndex ∨
    2 * first + 1 = 2 * v.offset.toNat + v.entries.length

instance (v : VolatileState) (first : ℕ) : Decidable (v.LandsRight first) :=
  inferInstanceAs (Decidable (_ ∨ _ ∨ _))

theorem LandsRight.le_endIndex {v : VolatileState} {first : ℕ} (h : v.LandsRight first) :
    first ≤ v.endIndex := by
  simp only [LandsRight, endIndex] at *
  omega

/-- **An import that lands right splices**: what is held below it, followed by the import. -/
theorem append_of_landsRight {v : VolatileState} (h : v.Contiguous) {entries : List Entry}
    {offset : UInt64} {ent : Entry} (hlen : entries.length < 2 ^ 64)
    (hent : entries[offset.toNat]? = some ent) (h0 : v.endIndex < 2 ^ 64 + ent.num)
    (hr : v.LandsRight ent.num) :
    v.append entries offset = .ok { v with
      entries := splice v.offset.toNat v.entries ent.num (entries.drop offset.toNat)
      offset := Word64.stdMin v.offset ent.index } := by
  have hle := hr.le_endIndex
  rw [append_eq h hlen hent h0]
  by_cases hend : v.endIndex = ent.num
  · have hmin : v.offset.toNat ≤ ent.num := by
      rw [← hend, endIndex]
      omega
    rw [if_pos hend, splice_end _ _ hend.le, Word64.stdMin_of_le hmin]
  rw [if_neg hend]
  by_cases hoff : ent.num ≤ v.offset.toNat
  · rw [if_pos hoff, splice_base _ _ hoff, Word64.stdMin_of_ge hoff]
  -- what is left of `LandsRight` is the middle
  have hmid : 2 * ent.num + 1 = 2 * v.offset.toNat + v.entries.length := by
    rcases hr with h1 | h1 | h1
    · exact absurd h1 hoff
    · exact absurd h1.symm hend
    · exact h1
  have hnil : v.entries ≠ [] := fun hnil => by
    rw [hnil, List.length_nil] at hmid
    omega
  have hmin : v.offset.toNat ≤ ent.num := by omega
  rw [if_neg hoff, if_neg hnil, if_neg (by omega), Word64.stdMin_of_le hmin, splice,
    show v.endIndex - 1 - ent.num = ent.num - v.offset.toNat by simp only [endIndex]; omega]

end VolatileState

end RaftCore
