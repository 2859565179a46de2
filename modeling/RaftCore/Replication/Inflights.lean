import RaftCore.Model.Progress

/-!
# Replication/Inflights — the window as a bounded queue

A window `Holds` a queue when its buffer is the queue and its count the queue's length.  Under that,
no operation reaches past the buffer, and each is the queue's own:

    Add            =   append, unless the queue has the window's size       (`add_eq`)
    Freeto(i)      =   drop while at most `i`                               (`freeto_eq`)
    FreeFirstOne   =   drop the first                                       (`freeFirstOne_eq`)
    Reset          =   the empty queue, in a window of size 0
-/

namespace RaftCore

namespace Inflights

variable {w : Inflights} {q : List UInt64}

/-- **The window holds a queue.** -/
structure Holds (w : Inflights) (q : List UInt64) : Prop where
  buffer_eq : w.buffer = q
  count_eq : w.count.toNat = q.length

theorem holds_ofSize (size : UInt32) : (ofSize size).Holds [] := ⟨rfl, rfl⟩

theorem holds_reset (w : Inflights) : w.reset.Holds [] := ⟨rfl, rfl⟩

theorem Holds.full_iff (h : w.Holds q) : w.full = true ↔ q.length = w.size.toNat := by
  rw [full, decide_eq_true_iff, ← UInt32.toNat_inj, h.count_eq, eq_comm]

/-- A window that is not over its size counts one more without wrapping. -/
theorem Holds.add_eq (h : w.Holds q) (hle : q.length ≤ w.size.toNat) (index : UInt64) :
    (q.length = w.size.toNat ∧ w.add index = (false, w)) ∨
      (q.length < w.size.toNat ∧ ∃ w', w.add index = (true, w') ∧ w'.size = w.size ∧
        w'.Holds (q ++ [index])) := by
  by_cases hfull : q.length = w.size.toNat
  · exact Or.inl ⟨hfull, if_pos (h.full_iff.mpr hfull)⟩
  · have hlt := w.size.toNat_lt
    refine Or.inr ⟨by omega, _, if_neg fun hf => hfull (h.full_iff.mp hf), rfl, ?_, ?_⟩
    · exact congrArg (· ++ [index]) h.buffer_eq
    · change (w.count + 1).toNat = _
      rw [UInt32.toNat_add, h.count_eq, UInt32.toNat_one, List.length_append, List.length_singleton]
      omega

/-- A count is positive exactly when there is something to count. -/
theorem count_pos_iff {count : UInt32} (h : count.toNat = q.length) : 0 < count ↔ q ≠ [] := by
  rw [UInt32.lt_iff_toNat_lt, h]
  exact List.length_pos_iff

theorem toNat_count_pred {count : UInt32} {n : ℕ} (h : count.toNat = n + 1) :
    (count - 1).toNat = n := by
  have hle : (1 : UInt32) ≤ count := by
    rw [UInt32.le_iff_toNat_le, h, UInt32.toNat_one]
    omega
  rw [UInt32.toNat_sub_of_le _ _ hle, h, UInt32.toNat_one]
  omega

/-- **The loop of `Freeto` stops**, at the first index above its argument. -/
theorem freetoLoop_eq (index : UInt64) {count : UInt32} (h : count.toNat = q.length) :
    ∃ count', freetoLoop index count q = .ok (count', q.dropWhile (· ≤ index)) ∧
      count'.toNat = (q.dropWhile (· ≤ index)).length := by
  induction q generalizing count with
  | nil =>
    exact ⟨count, if_neg fun hpos => (count_pos_iff h).mp hpos rfl, h⟩
  | cons first rest ih =>
    have hpos : 0 < count := (count_pos_iff h).mpr (List.cons_ne_nil _ _)
    by_cases hle : first ≤ index
    · rw [freetoLoop, if_pos ⟨hpos, hle⟩, List.dropWhile_cons_of_pos (by simpa using hle)]
      exact ih (toNat_count_pred h)
    · rw [freetoLoop, if_neg fun hc => hle hc.2, List.dropWhile_cons_of_neg (by simpa using hle)]
      exact ⟨count, rfl, h⟩

theorem Holds.freeto_eq (h : w.Holds q) (index : UInt64) :
    ∃ w', w.freeto index = .ok w' ∧ w'.size = w.size ∧ w'.Holds (q.dropWhile (· ≤ index)) := by
  obtain ⟨count, hloop, hcount⟩ := freetoLoop_eq index h.count_eq
  refine ⟨{ w with count := count, buffer := q.dropWhile (· ≤ index) }, ?_, rfl, rfl, hcount⟩
  rw [freeto, h.buffer_eq, hloop]
  rfl

theorem Holds.freeFirstOne_eq (h : w.Holds q) :
    ∃ w', w.freeFirstOne = .ok w' ∧ w'.size = w.size ∧ w'.Holds q.tail := by
  cases q with
  | nil =>
    exact ⟨w, if_neg fun hpos => (count_pos_iff h.count_eq).mp hpos rfl, rfl, h⟩
  | cons first rest =>
    have hpos : 0 < w.count := (count_pos_iff h.count_eq).mpr (List.cons_ne_nil _ _)
    refine ⟨{ w with buffer := rest, count := w.count - 1 }, ?_, rfl, rfl,
      toNat_count_pred h.count_eq⟩
    rw [freeFirstOne, if_pos hpos, h.buffer_eq]

end Inflights

end RaftCore
