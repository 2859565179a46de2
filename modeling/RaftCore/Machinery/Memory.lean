import Mathlib.Algebra.Order.Group.Nat
import RaftCore.Machinery.Arena

/-!
# Machinery/Memory — values and bytes in memory

A memory has bytes in it, and values that take several addresses each.  A value can be read where it
was stored as a whole, and only as long as nothing has been written into it: of its addresses the
first stands for the value (`Cell.head`) and the others for being a part of it, so that whatever is
written to one of them takes the value away.

Hence all that a reader needs to know of a writer is which addresses it left alone (`SameOn`).
-/

namespace RaftCore

open Extent

/-- What there is at an address. -/
inductive Cell (α : Type*) where
  | byte (b : UInt8)
  | head (a : α)
  | tail

abbrev Memory (α : Type*) := ℕ → Cell α

namespace Memory

variable {α : Type*} {mem mem' : Memory α} {n p : ℕ} {a : α} {bytes : List UInt8}
  {e : Extent ℕ}

/-- A value is written to `n` addresses from `p` on. -/
def store (n p : ℕ) (a : α) (mem : Memory α) : Memory α := fun x =>
  if x = p then .head a else if p < x ∧ x < p + n then .tail else mem x

/-- Bytes are written from `p` on. -/
def copy (p : ℕ) (bytes : List UInt8) (mem : Memory α) : Memory α := fun x =>
  if x < p then mem x else match bytes[x - p]? with
    | some b => .byte b
    | none => mem x

/-- The value is there, all of it. -/
def HasValue (mem : Memory α) (n p : ℕ) (a : α) : Prop :=
  mem p = .head a ∧ ∀ x, p < x → x < p + n → mem x = .tail

/-- The bytes are there. -/
def HasBytes (mem : Memory α) (p : ℕ) (bytes : List UInt8) : Prop :=
  ∀ i b, bytes[i]? = some b → mem (p + i) = .byte b

/-- Nothing was written to these addresses. -/
def SameOn (e : Extent ℕ) (mem mem' : Memory α) : Prop :=
  ∀ x, e.start ≤ x → x < e.stop → mem' x = mem x

theorem store_hasValue (n p : ℕ) (a : α) (mem : Memory α) : (mem.store n p a).HasValue n p a := by
  refine ⟨if_pos rfl, fun x hlo hhi => ?_⟩
  rw [store, if_neg hlo.ne', if_pos ⟨hlo, hhi⟩]

theorem copy_hasBytes (p : ℕ) (bytes : List UInt8) (mem : Memory α) :
    (mem.copy p bytes).HasBytes p bytes := by
  intro i b hb
  rw [copy, if_neg (Nat.not_lt.mpr (Nat.le_add_right p i)), Nat.add_sub_cancel_left, hb]

/-- **A value is stored** beside what is apart from it. -/
theorem store_sameOn (h : Apart ⟨p, p + n⟩ e) (hn : 0 < n) (a : α) (mem : Memory α) :
    SameOn e mem (mem.store n p a) := by
  intro x hle hlt
  rcases h with h | h
  · have hlo : p + n ≤ x := h.trans hle
    rw [store, if_neg (by omega), if_neg (by omega)]
  · have hhi : x < p := hlt.trans_le h
    rw [store, if_neg (by omega), if_neg (by omega)]

/-- **Bytes are copied** beside what is apart from them. -/
theorem copy_sameOn (h : Apart ⟨p, p + bytes.length⟩ e) (mem : Memory α) :
    SameOn e mem (mem.copy p bytes) := by
  intro x hle hlt
  rcases h with h | h
  · have hlo : p + bytes.length ≤ x := h.trans hle
    rw [copy, if_neg (by omega), List.getElem?_eq_none (by omega)]
  · exact if_pos (hlt.trans_le h)

theorem SameOn.trans {mem'' : Memory α} (h : SameOn e mem mem') (h' : SameOn e mem' mem'') :
    SameOn e mem mem'' :=
  fun x hle hlt => (h' x hle hlt).trans (h x hle hlt)

theorem HasValue.of_sameOn (h : mem.HasValue n p a) (hn : 0 < n)
    (hsame : SameOn ⟨p, p + n⟩ mem mem') : mem'.HasValue n p a := by
  refine ⟨(hsame p le_rfl (Nat.lt_add_of_pos_right hn)).trans h.1, fun x hlo hhi => ?_⟩
  exact (hsame x hlo.le hhi).trans (h.2 x hlo hhi)

theorem HasBytes.of_sameOn (h : mem.HasBytes p bytes)
    (hsame : SameOn ⟨p, p + bytes.length⟩ mem mem') : mem'.HasBytes p bytes := by
  intro i b hb
  have hlt := (List.getElem?_eq_some_iff.mp hb).1
  exact (hsame (p + i) (Nat.le_add_right p i) (Nat.add_lt_add_left hlt p)).trans (h i b hb)

end Memory

end RaftCore
