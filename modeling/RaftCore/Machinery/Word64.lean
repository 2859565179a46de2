import Mathlib.Tactic

/-!
# Machinery/Word64 — machine words read as natural numbers

`uint64_t` is `UInt64`, and a statement about indexes is a statement about `toNat`.  Two facts
carry the reading:

* a sum or a difference that does not wrap is the sum or the difference of the readings;
* a `uint64_t` passed as an `int` and compared with a `size_t` comes back sign-extended
  (`toNat_ofInt_toInt`): the low 32 bits, moved to the top of the range when bit 31 is set.
-/

namespace RaftCore

namespace Word64

theorem toNat_succ {a : UInt64} (h : a.toNat + 1 < 2 ^ 64) : (a + 1).toNat = a.toNat + 1 := by
  rw [UInt64.toNat_add, UInt64.toNat_one]
  omega

theorem toNat_add_ofNat {a : UInt64} {n : ℕ} (h : a.toNat + n < 2 ^ 64) :
    (a + UInt64.ofNat n).toNat = a.toNat + n := by
  rw [UInt64.toNat_add, UInt64.toNat_ofNat']
  omega

theorem toNat_ofNat_of_lt {n : ℕ} (h : n < 2 ^ 64) : (UInt64.ofNat n).toNat = n := by
  rw [UInt64.toNat_ofNat']
  omega

/-- A word is the word of its own reading — the criterion an index is identified by. -/
theorem eq_of_toNat {a b : UInt64} (h : a.toNat = b.toNat) : a = b := UInt64.toNat_inj.mp h

theorem add_one_sub_one (a : UInt64) : a + 1 - 1 = a := by
  refine eq_of_toNat ?_
  have ha := a.toNat_lt
  rw [UInt64.toNat_sub, UInt64.toNat_add, UInt64.toNat_one]
  omega

/-! ## `std::min` and `std::max` -/

/-- `std::min`: the first argument unless the second is smaller. -/
def stdMin (a b : UInt64) : UInt64 := if b < a then b else a

/-- `std::max`: the first argument unless it is smaller. -/
def stdMax (a b : UInt64) : UInt64 := if a < b then b else a

@[simp] theorem toNat_stdMin (a b : UInt64) : (stdMin a b).toNat = min a.toNat b.toNat := by
  unfold stdMin
  split <;> rename_i h <;> rw [UInt64.lt_iff_toNat_lt] at h
  · exact (min_eq_right h.le).symm
  · exact (min_eq_left (not_lt.mp h)).symm

@[simp] theorem toNat_stdMax (a b : UInt64) : (stdMax a b).toNat = max a.toNat b.toNat := by
  unfold stdMax
  split <;> rename_i h <;> rw [UInt64.lt_iff_toNat_lt] at h
  · exact (max_eq_right h.le).symm
  · exact (max_eq_left (not_lt.mp h)).symm

theorem stdMin_of_le {a b : UInt64} (h : a.toNat ≤ b.toNat) : stdMin a b = a :=
  eq_of_toNat ((toNat_stdMin a b).trans (min_eq_left h))

theorem stdMin_of_ge {a b : UInt64} (h : b.toNat ≤ a.toNat) : stdMin a b = b :=
  eq_of_toNat ((toNat_stdMin a b).trans (min_eq_right h))

/-! ## The narrowing to `int`

`offset >= ents.size()` compares an `int` with a `size_t`: the argument was cut to 32 bits at the
call, and the comparison sign-extends it back to 64. -/

/-- A `uint64_t` argument bound to an `int` parameter. -/
def toInt (x : UInt64) : Int32 := x.toUInt32.toInt32

/-- An `int` used where a `uint64_t` or a `size_t` is expected. -/
def ofInt (i : Int32) : UInt64 := i.toInt64.toUInt64

/-- **The round trip through `int`**: the low 32 bits, sign-extended. -/
theorem toNat_ofInt_toInt (x : UInt64) :
    (ofInt (toInt x)).toNat
      = x.toNat % 2 ^ 32 + if x.toNat % 2 ^ 32 < 2 ^ 31 then 0 else 2 ^ 64 - 2 ^ 32 := by
  have hbv : (ofInt (toInt x)).toBitVec = x.toUInt32.toBitVec.signExtend 64 := rfl
  have hx : x.toUInt32.toBitVec.toNat = x.toNat % 2 ^ 32 := UInt64.toNat_toUInt32 x
  have hlt : x.toNat % 2 ^ 32 < 2 ^ 32 := Nat.mod_lt _ (by decide)
  rw [← UInt64.toNat_toBitVec, hbv, BitVec.toNat_signExtend, BitVec.msb_eq_decide,
    BitVec.toNat_setWidth, hx]
  by_cases h : x.toNat % 2 ^ 32 < 2 ^ 31
  · rw [if_pos h, if_neg (by simpa using h)]
    omega
  · rw [if_neg h, if_pos (by simpa using h)]
    omega

/-- **The `int` itself**: the low 32 bits, in two's complement. -/
theorem toInt_toInt (x : UInt64) : (toInt x).toInt =
    if x.toNat % 2 ^ 32 < 2 ^ 31 then ((x.toNat % 2 ^ 32 : ℕ) : ℤ)
    else (x.toNat % 2 ^ 32 : ℕ) - (2 ^ 32 : ℕ) := by
  have hbv : (toInt x).toInt = x.toUInt32.toBitVec.toInt := rfl
  have hx : x.toUInt32.toBitVec.toNat = x.toNat % 2 ^ 32 := UInt64.toNat_toUInt32 x
  rw [hbv, BitVec.toInt_eq_toNat_cond, hx]
  exact if_congr (by omega) rfl rfl

theorem toInt_nonneg_iff (x : UInt64) : 0 ≤ (toInt x).toInt ↔ x.toNat % 2 ^ 32 < 2 ^ 31 := by
  rw [toInt_toInt]
  split <;> omega

/-- An `int` that is not negative keeps its value. -/
theorem toNat_ofInt_of_nonneg {i : Int32} (h : 0 ≤ i.toInt) :
    ((ofInt i).toNat : ℤ) = i.toInt := by
  have hlt := i.toInt64.toBitVec.isLt
  have hwide : i.toInt64.toBitVec.toInt = i.toInt := Int32.toInt_toInt64 i
  have hword : (ofInt i).toNat = i.toInt64.toBitVec.toNat := rfl
  rw [BitVec.toInt_eq_toNat_cond] at hwide
  rw [hword]
  split at hwide <;> omega

end Word64

end RaftCore
