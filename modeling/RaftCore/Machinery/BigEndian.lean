import Mathlib.Tactic

/-!
# Machinery/BigEndian — numbers as bytes, the highest first

`store w n` writes the `w` lowest bytes of a number and `load` reads a number off any bytes.  What
fits in `w` bytes comes back (`load_store_of_lt`); `loadSigned` reads the same bytes in two's
complement, and what fits in them with its sign comes back as well (`loadSigned_store`).
-/

namespace RaftCore

namespace BigEndian

/-- The `w` lowest bytes of a number. -/
def store : ℕ → ℕ → List UInt8
  | 0, _ => []
  | w + 1, n => UInt8.ofNat (n / 256 ^ w) :: store w n

/-- The number some bytes spell after those already read. -/
def loadFrom (n : ℕ) (bytes : List UInt8) : ℕ := bytes.foldl (fun n b => n * 256 + b.toNat) n

/-- The number some bytes spell. -/
def load (bytes : List UInt8) : ℕ := loadFrom 0 bytes

/-- The number some bytes spell in two's complement. -/
def loadSigned (bytes : List UInt8) : ℤ :=
  if load bytes < 256 ^ bytes.length / 2 then load bytes
  else load bytes - (256 ^ bytes.length : ℕ)

@[simp] theorem length_store (w n : ℕ) : (store w n).length = w := by
  induction w with
  | zero => rfl
  | succ w ih => rw [store, List.length_cons, ih]

theorem loadFrom_store (m w n : ℕ) : loadFrom m (store w n) = m * 256 ^ w + n % 256 ^ w := by
  induction w generalizing m with
  | zero => simp [store, loadFrom, Nat.mod_one]
  | succ w ih =>
    have hbyte : (UInt8.ofNat (n / 256 ^ w)).toNat = n / 256 ^ w % 256 := UInt8.toNat_ofNat'
    have hmod : n % 256 ^ (w + 1) = n % 256 ^ w + 256 ^ w * (n / 256 ^ w % 256) := by
      rw [pow_succ, Nat.mod_mul]
    calc loadFrom m (store (w + 1) n)
        = loadFrom (m * 256 + n / 256 ^ w % 256) (store w n) := by rw [← hbyte]; rfl
      _ = (m * 256 + n / 256 ^ w % 256) * 256 ^ w + n % 256 ^ w := ih _
      _ = m * 256 ^ (w + 1) + n % 256 ^ (w + 1) := by rw [hmod]; ring

theorem load_store (w n : ℕ) : load (store w n) = n % 256 ^ w := by
  rw [load, loadFrom_store, Nat.zero_mul, Nat.zero_add]

/-- **What fits comes back.** -/
theorem load_store_of_lt {w n : ℕ} (h : n < 256 ^ w) : load (store w n) = n := by
  rw [load_store, Nat.mod_eq_of_lt h]

/-- One byte spells itself. -/
@[simp] theorem load_singleton (b : UInt8) : load [b] = b.toNat := by simp [load, loadFrom]

/-- **What fits with its sign comes back**, from any number with its residue. -/
theorem loadSigned_store {w n : ℕ} {i : ℤ} (hn : (n : ℤ) % (256 ^ w : ℕ) = i % (256 ^ w : ℕ))
    (hlo : -((256 ^ w / 2 : ℕ) : ℤ) ≤ i) (hhi : i < (256 ^ w / 2 : ℕ)) :
    loadSigned (store w n) = i := by
  have hpos : 0 < 256 ^ w := Nat.pow_pos (by decide)
  rw [loadSigned, load_store, length_store]
  generalize 256 ^ w = m at *
  rw [← Int.natCast_mod] at hn
  rcases lt_or_ge i 0 with hneg | hnonneg
  · have hmod : i % m = i + m := by
      rw [← Int.add_emod_right, Int.emod_eq_of_lt (by omega) (by omega)]
    rw [if_neg (by omega)]
    omega
  · have hmod : i % m = i := Int.emod_eq_of_lt hnonneg (by omega)
    rw [if_pos (by omega)]
    omega

theorem loadFrom_lt (n : ℕ) (bytes : List UInt8) :
    loadFrom n bytes < (n + 1) * 256 ^ bytes.length := by
  induction bytes generalizing n with
  | nil => simp [loadFrom]
  | cons b bytes ih =>
    have hb : n * 256 + b.toNat + 1 ≤ (n + 1) * 256 := by
      have := b.toNat_lt
      omega
    calc loadFrom n (b :: bytes)
        = loadFrom (n * 256 + b.toNat) bytes := rfl
      _ < (n * 256 + b.toNat + 1) * 256 ^ bytes.length := ih _
      _ ≤ (n + 1) * 256 * 256 ^ bytes.length := Nat.mul_le_mul_right _ hb
      _ = (n + 1) * 256 ^ (b :: bytes).length := by rw [List.length_cons, pow_succ]; ring

/-- Some bytes spell no more than they can. -/
theorem load_lt (bytes : List UInt8) : load bytes < 256 ^ bytes.length := by
  simpa [load] using loadFrom_lt 0 bytes

/-- …and with their sign no more than half of it, either way. -/
theorem loadSigned_bounds {bytes : List UInt8} {w : ℕ} (hpos : bytes ≠ [])
    (hw : bytes.length ≤ w + 1) :
    -((128 * 256 ^ w : ℕ) : ℤ) ≤ loadSigned bytes ∧ loadSigned bytes < (128 * 256 ^ w : ℕ) := by
  obtain ⟨n, hn⟩ : ∃ n, bytes.length = n + 1 :=
    Nat.exists_eq_succ_of_ne_zero (List.length_pos_iff.mpr hpos).ne'
  have hlt := load_lt bytes
  have hpow : 256 ^ n ≤ 256 ^ w := Nat.pow_le_pow_right (by decide) (by omega)
  rw [loadSigned, hn, pow_succ] at *
  split_ifs <;> omega

end BigEndian

end RaftCore
