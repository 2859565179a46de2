import Mathlib.Data.List.Basic
import Mathlib.Data.List.Induction
import Mathlib.Data.Set.Function
import Mathlib.Order.Bounds.Basic

/-!
# Machinery/Latest — a register that keeps the latest

A register is offered one value after another, and takes one that **beats** what it holds.  Values
are ranked by a key; of two with one key the register may take the later or keep the earlier
(`Ranks`).  Either way it ends with a greatest key (`isGreatest_latest`), and where a key belongs to
one value only, what it ends with does not depend on the order or the number of the offers
(`latest_congr`).
-/

namespace RaftCore

variable {α κ : Type*} [LinearOrder κ]

/-- `beats a b`: the register takes `b` for `a`. -/
structure Ranks (key : α → κ) (beats : α → α → Prop) : Prop where
  le_of_beats : ∀ {a b}, beats a b → key a ≤ key b
  le_of_not_beats : ∀ {a b}, ¬beats a b → key b ≤ key a

/-- What a register holds after some offers. -/
def latest (beats : α → α → Prop) [DecidableRel beats] (a : α) (bs : List α) : α :=
  bs.foldl (fun a b => if beats a b then b else a) a

variable {key : α → κ} {beats : α → α → Prop} [DecidableRel beats]

theorem latest_concat (a : α) (bs : List α) (b : α) : latest beats a (bs ++ [b])
    = if beats (latest beats a bs) b then b else latest beats a bs :=
  List.foldl_concat ..

theorem latest_mem (a : α) (bs : List α) : latest beats a bs ∈ a :: bs := by
  induction bs generalizing a with
  | nil => exact List.mem_cons_self
  | cons b bs ih =>
    rw [latest, List.foldl_cons]
    rcases List.mem_cons.mp (ih (if beats a b then b else a)) with heq | hmem
    · rw [← latest, heq]
      split_ifs <;> simp
    · exact List.mem_cons_of_mem _ (List.mem_cons_of_mem _ hmem)

theorem Ranks.le_latest (h : Ranks key beats) (a : α) (bs : List α) :
    ∀ b ∈ a :: bs, key b ≤ key (latest beats a bs) := by
  induction bs using List.reverseRecOn with
  | nil =>
    intro b hb
    rw [List.mem_singleton.mp hb]
    exact le_rfl
  | append_singleton bs b ih =>
    have hstep : key (latest beats a bs) ≤ key (latest beats a (bs ++ [b])) ∧
        key b ≤ key (latest beats a (bs ++ [b])) := by
      rw [latest_concat]
      split_ifs with hbeats
      · exact ⟨h.le_of_beats hbeats, le_rfl⟩
      · exact ⟨le_rfl, h.le_of_not_beats hbeats⟩
    intro c hc
    rw [← List.cons_append, List.mem_append, List.mem_singleton] at hc
    rcases hc with hc | rfl
    · exact (ih c hc).trans hstep.1
    · exact hstep.2

/-- **The register ends with a greatest key.** -/
theorem Ranks.isGreatest_latest (h : Ranks key beats) (a : α) (bs : List α) :
    IsGreatest {k | ∃ b ∈ a :: bs, k = key b} (key (latest beats a bs)) := by
  refine ⟨⟨_, latest_mem a bs, rfl⟩, ?_⟩
  rintro k ⟨b, hb, rfl⟩
  exact h.le_latest a bs b hb

/-- **The order and the number of the offers make no difference**, where keys tell values apart. -/
theorem Ranks.latest_congr (h : Ranks key beats) {a a' : α} {bs bs' : List α}
    (hsame : ∀ b, b ∈ a :: bs ↔ b ∈ a' :: bs') (hkey : Set.InjOn key {b | b ∈ a :: bs}) :
    latest beats a bs = latest beats a' bs' := by
  have hmem : latest beats a' bs' ∈ a :: bs := (hsame _).mpr (latest_mem a' bs')
  refine hkey (latest_mem a bs) hmem (le_antisymm ?_ (h.le_latest a bs _ hmem))
  exact h.le_latest a' bs' _ ((hsame _).mp (latest_mem a bs))

end RaftCore
