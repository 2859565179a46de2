import RaftCore.Machinery.Window
import RaftCore.Model.VolatileState

/-!
# Volatile/Consecutive — the volatile operations on entries whose indexes run on

A position in the deque is computed by subtracting indexes.  As long as the held entries carry the
words `offset, offset + 1, …`, wrapped or not (`Consecutive`), a difference is a position inside it,
and each operation that reads the deque has one equation:

* `Consecutive.termOf_eq` — the entry held at the index answers, else the snapshot;
* `Consecutive.append_eq` — extend, replace, fault on an empty deque, panic on a gap, or cut and
  extend;
* `Consecutive.clearEntriesBefore_eq` — fault on an empty deque, remove a prefix, or do nothing.
-/

namespace RaftCore

open Window

/-- The first entry an import takes, when it takes any. -/
def firstImported (entries : List Entry) (offset : UInt64) : Option Entry :=
  if UInt64.ofNat entries.length ≤ offset then none else entries[offset.toNat]?

namespace VolatileState

/-- **The held entries carry the words `offset, offset + 1, …`.** -/
def Consecutive (v : VolatileState) : Prop := Wrapping Entry.index v.offset v.entries

/-- The entry read at an index between the ends of the deque. -/
def heldAt (v : VolatileState) (index : UInt64) : Option Entry :=
  if v.offset ≤ index ∧ ∃ last ∈ v.entries.getLast?, index ≤ last.index then
    v.entries[(index - v.offset).toNat]?
  else none

variable {v : VolatileState}

theorem heldAt_of_nil (hnil : v.entries = []) (index : UInt64) : v.heldAt index = none := by
  refine if_neg ?_
  rw [hnil]
  rintro ⟨-, last, hlast, -⟩
  cases hlast

theorem heldAt_of_ne (hne : v.entries ≠ []) (index : UInt64) : v.heldAt index =
    if v.offset ≤ index ∧ index ≤ (v.entries.getLast hne).index then
      v.entries[(index - v.offset).toNat]?
    else none := by
  simp only [heldAt, List.getLast?_eq_some_getLast hne, Option.mem_some_iff, exists_eq_left']

/-! ## Readings -/

theorem Consecutive.front (h : v.Consecutive) (hne : v.entries ≠ []) :
    ∃ ent, Deque.front v.entries = .ok ent ∧ ent.index = v.offset :=
  ⟨v.entries.head hne, by rw [Deque.front, List.head?_eq_some_head hne], Wrapping.head h hne⟩

/-- Between the ends there is an entry. -/
theorem Consecutive.heldAt_eq_some (h : v.Consecutive) (hne : v.entries ≠ []) {index : UInt64}
    (hin : v.offset ≤ index ∧ index ≤ (v.entries.getLast hne).index) :
    ∃ ent, v.heldAt index = some ent ∧ v.entries[(index - v.offset).toNat]? = some ent := by
  have hpos := Wrapping.sub_lt_length h hne hin.1 hin.2
  rw [heldAt_of_ne hne, if_pos hin]
  exact ⟨_, List.getElem?_eq_getElem hpos, List.getElem?_eq_getElem hpos⟩

/-- **The entry held at the index answers, else the snapshot.** -/
theorem Consecutive.termOf_eq (h : v.Consecutive) (index : UInt64) :
    v.termOf index = .ok (((v.heldAt index).map Entry.term).or (v.snapshotTerm index)) := by
  rw [termOf]
  by_cases hnil : v.entries = []
  · rw [if_pos hnil, heldAt_of_nil hnil]
    rfl
  obtain ⟨first, hfront, hfirst⟩ := h.front hnil
  rw [if_neg hnil, hfront, Deque.back_of_ne hnil]
  simp only [Outcome.ok_bind, hfirst]
  by_cases hin : v.offset ≤ index ∧ index ≤ (v.entries.getLast hnil).index
  · obtain ⟨ent, hheld, hget⟩ := h.heldAt_eq_some hnil hin
    rw [if_pos hin, hheld, Deque.get_eq_ok.mpr hget]
    rfl
  · rw [if_neg hin, heldAt_of_ne hnil, if_neg hin]
    rfl

/-! ## `Append` -/

theorem firstImported_eq_some {entries : List Entry} {offset : UInt64} {first : Entry} :
    firstImported entries offset = some first ↔
      ¬UInt64.ofNat entries.length ≤ offset ∧ entries[offset.toNat]? = some first := by
  rw [firstImported]
  split <;> simp [*]

theorem append_of_length_le {entries : List Entry} {offset : UInt64}
    (h : UInt64.ofNat entries.length ≤ offset) : v.append entries offset = .ok v := if_pos h

theorem append_of_not_imported {entries : List Entry} {offset : UInt64}
    (h : firstImported entries offset = none) : v.append entries offset = .ok v := by
  refine append_of_length_le ?_
  by_contra hlen
  have hlt := UInt64.lt_iff_toNat_lt.mp (UInt64.not_le.mp hlen)
  rw [UInt64.toNat_ofNat'] at hlt
  rw [firstImported, if_neg hlen, List.getElem?_eq_none_iff] at h
  have hmod := Nat.mod_le entries.length (2 ^ 64)
  omega

/-- **The five ways an import ends.** -/
theorem Consecutive.append_eq (h : v.Consecutive) {entries : List Entry} {offset : UInt64}
    {first : Entry} (hfirst : firstImported entries offset = some first) :
    v.append entries offset =
      if v.offset + UInt64.ofNat v.entries.length = first.index then
        .ok { v with entries := v.entries ++ entries.drop offset.toNat }
      else if first.index ≤ v.offset then
        .ok { v with entries := entries.drop offset.toNat, offset := first.index }
      else match v.entries.getLast? with
        | none => .error (.undefined "rbegin() of an empty deque")
        | some last =>
          if last.index < first.index then
            .error (.panic "gap between local entries and income entries")
          else .ok { v with
            entries := v.entries.take (last.index - first.index).toNat
              ++ entries.drop offset.toNat } := by
  obtain ⟨hlen, hget⟩ := firstImported_eq_some.mp hfirst
  rw [append, if_neg hlen, Deque.get_eq_ok.mpr hget]
  simp only [Outcome.ok_bind]
  refine if_ctx_congr Iff.rfl (fun _ => rfl) fun _ => if_ctx_congr Iff.rfl (fun _ => rfl)
    fun hlow => ?_
  by_cases hnil : v.entries = []
  · rw [hnil, List.getLast?_nil]
    rfl
  rw [Deque.back_of_ne hnil, List.getLast?_eq_some_getLast hnil]
  simp only [Outcome.ok_bind]
  refine if_ctx_congr Iff.rfl (fun _ => rfl) fun hgap => ?_
  -- the cut is above `offset`, so fewer entries are kept than the last one has before it
  have hle : first.index ≤ (v.entries.getLast hnil).index := UInt64.not_lt.mp hgap
  have hoff : v.offset ≤ first.index := UInt64.le_of_lt (UInt64.not_le.mp hlow)
  have hpos := Wrapping.sub_lt_length h hnil (UInt64.le_trans hoff hle) (UInt64.le_refl _)
  rw [UInt64.toNat_sub_of_le _ _ (UInt64.le_trans hoff hle)] at hpos
  rw [UInt64.le_iff_toNat_le] at hoff
  rw [Deque.eraseFrom_of_le (by rw [UInt64.toNat_sub_of_le _ _ hle]; omega)]
  rfl

/-! ## `ClearEntriesBefore` -/

/-- **The three ways an acknowledgement ends.** -/
theorem Consecutive.clearEntriesBefore_eq (h : v.Consecutive) (index term : UInt64) :
    v.clearEntriesBefore index term =
      if v.entries = [] ∧ v.snapshotTerm index = some term then
        .error (.undefined "begin() of an empty deque")
      else if (v.heldAt index).map Entry.term = some term then
        .ok (true, { v with
          entries := v.entries.drop (index - v.offset + 1).toNat, offset := index + 1 })
      else .ok (false, v) := by
  rw [clearEntriesBefore, h.termOf_eq]
  simp only [Outcome.ok_bind]
  by_cases hnil : v.entries = []
  · rw [heldAt_of_nil hnil, Option.map_none, Option.none_or, hnil]
    by_cases hterm : v.snapshotTerm index = some term
    · have hends : ([] : List Entry) = [] ∧ v.snapshotTerm index = some term := ⟨rfl, hterm⟩
      rw [if_neg (not_not.mpr hterm), if_pos hends]
      rfl
    · have hends : ¬(([] : List Entry) = [] ∧ v.snapshotTerm index = some term) :=
        fun hc => hterm hc.2
      rw [if_pos hterm, if_neg hends, if_neg nofun]
  have hends : ¬(v.entries = [] ∧ v.snapshotTerm index = some term) := fun hc => hnil hc.1
  obtain ⟨first, hfront, hfirst⟩ := h.front hnil
  rw [if_neg hends, hfront, Deque.back_of_ne hnil]
  simp only [Outcome.ok_bind, hfirst]
  by_cases hin : v.offset ≤ index ∧ index ≤ (v.entries.getLast hnil).index
  · obtain ⟨ent, hheld, hget⟩ := h.heldAt_eq_some hnil hin
    have hlt := (List.getElem?_eq_some_iff.mp hget).1
    have hmod : (index - v.offset + 1).toNat ≤ (index - v.offset).toNat + 1 := by
      rw [UInt64.toNat_add]
      exact Nat.mod_le _ _
    have hrange : ¬((v.entries.getLast hnil).index < index ∨ index < v.offset) :=
      not_or.mpr ⟨UInt64.not_lt.mpr hin.2, UInt64.not_lt.mpr hin.1⟩
    rw [hheld, if_neg hrange, Deque.eraseUpTo_of_le (by omega), Option.map_some, Option.some_or]
    exact ite_not _ _ _
  · have hrange : (v.entries.getLast hnil).index < index ∨ index < v.offset := by
      rw [← UInt64.not_le, ← UInt64.not_le]
      exact (not_and_or.mp hin).symm
    rw [heldAt_of_ne hnil, if_neg hin, if_pos hrange, ite_self]
    exact (if_neg nofun).symm

end VolatileState

end RaftCore
