import Mathlib.Tactic

/-!
# Machinery/Doubling — room by doubling

The loop that buffers and pools grow by: a size is doubled until it is enough, and where doubling
wraps around in 64 bits it is what was asked for instead (`grow`).  It is enough in any case
(`le_grow`), never less than it was (`next_le_grow`), and less than twice what was asked for, had it
to grow at all (`grow_lt`).
-/

namespace RaftCore

/-- The loop that doubles `next` until it is enough, or gives up doubling. -/
def grow (target next : ℕ) : ℕ :=
  if next < target then
    let tmp := next * 2 % 2 ^ 64
    if tmp ≤ next then target else grow target tmp
  else next
termination_by target - next

variable {target next : ℕ}

theorem grow_of_le (h : target ≤ next) : grow target next = next := by
  rw [grow, if_neg (not_lt.mpr h)]

/-- **It is enough.** -/
theorem le_grow : target ≤ grow target next := by
  induction next using grow.induct target with
  | case1 next hlt tmp hle =>
    rw [grow, if_pos hlt]
    exact (if_pos hle).ge
  | case2 next hlt tmp hgt ih =>
    rw [grow, if_pos hlt]
    exact ih.trans (if_neg hgt).ge
  | case3 next hge =>
    rw [grow, if_neg hge]
    exact not_lt.mp hge

/-- It does not shrink. -/
theorem next_le_grow : next ≤ grow target next := by
  induction next using grow.induct target with
  | case1 next hlt tmp hle =>
    rw [grow, if_pos hlt]
    exact hlt.le.trans (if_pos hle).ge
  | case2 next hlt tmp hgt ih =>
    rw [grow, if_pos hlt]
    exact (not_le.mp hgt).le.trans (ih.trans (if_neg hgt).ge)
  | case3 next hge => rw [grow, if_neg hge]

/-- **It is not much more than enough.** -/
theorem grow_lt (h : next < target) : grow target next < 2 * target := by
  induction next using grow.induct target with
  | case1 next hlt tmp hle =>
    rw [grow, if_pos hlt]
    exact (if_pos hle).trans_lt (by omega)
  | case2 next hlt tmp hgt ih =>
    rw [grow, if_pos hlt]
    refine (if_neg hgt).trans_lt ?_
    rcases Nat.lt_or_ge tmp target with htmp | htmp
    · exact ih htmp
    · have hwrap : tmp ≤ next * 2 := Nat.mod_le _ _
      rw [grow_of_le htmp]
      omega
  | case3 next hge => exact absurd h hge

/-- So it is what there was, or less than twice what was asked for. -/
theorem grow_le : grow target next ≤ max next (2 * target) := by
  rcases Nat.lt_or_ge next target with hlt | hge
  · exact (grow_lt hlt).le.trans (le_max_right _ _)
  · exact (grow_of_le hge).le.trans (le_max_left _ _)

end RaftCore
