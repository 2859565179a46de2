import Mathlib.Data.List.Basic

/-!
# Machinery/Reader — machines that wait for more input

A **reader** consumes a list from the front: in a state it takes a step, which uses up some of the
input, or it halts with a result, or it waits, because what there is of the input is not enough.
More input changes nothing about a step that was taken.

* `read_append` — reading two pieces at once is reading the first and, should the machine wait,
  the second behind what the first left over;
* `read_append_congr` — so the state and what is left over stand for all the input so far, which is
  the invariant of whoever drives the machine piece by piece.
-/

namespace RaftCore

/-- What a machine does on its input. -/
inductive Reader.Step (σ β γ : Type*) where
  | wait
  | next (s : σ) (rest : List β)
  | halt (result : γ) (rest : List β)

/-- Where reading ends: short of input, or with a result; and what is left of the input. -/
inductive Reader.Outcome (σ β γ : Type*) where
  | waiting (s : σ) (rest : List β)
  | halted (result : γ) (rest : List β)

/-- A machine whose steps use up input and do not depend on what follows it. -/
structure Reader (σ β γ : Type*) where
  step : σ → List β → Reader.Step σ β γ
  length_lt : ∀ {s xs s' rest}, step s xs = .next s' rest → rest.length < xs.length
  next_suffix : ∀ {s xs s' rest}, step s xs = .next s' rest → rest <:+ xs
  halt_suffix : ∀ {s xs c rest}, step s xs = .halt c rest → rest <:+ xs
  next_append : ∀ {s xs s' rest}, step s xs = .next s' rest →
    ∀ ys, step s (xs ++ ys) = .next s' (rest ++ ys)
  halt_append : ∀ {s xs c rest}, step s xs = .halt c rest →
    ∀ ys, step s (xs ++ ys) = .halt c (rest ++ ys)

namespace Reader

variable {σ β γ : Type*}

/-- At most `fuel` steps. -/
def run (R : Reader σ β γ) : ℕ → σ → List β → Outcome σ β γ
  | 0, s, xs => .waiting s xs
  | fuel + 1, s, xs => match R.step s xs with
    | .wait => .waiting s xs
    | .next s' rest => R.run fuel s' rest
    | .halt c rest => .halted c rest

/-- Each step uses up input, so a step for each element is enough, and one to find the end. -/
def read (R : Reader σ β γ) (s : σ) (xs : List β) : Outcome σ β γ := R.run (xs.length + 1) s xs

/-- Reading on with `ys`, once it is there. -/
def Outcome.thenRead (R : Reader σ β γ) (ys : List β) : Outcome σ β γ → Outcome σ β γ
  | .waiting s rest => R.read s (rest ++ ys)
  | .halted c rest => .halted c (rest ++ ys)

variable {R : Reader σ β γ} {s s' : σ} {xs rest : List β} {c : γ}

theorem run_eq_run (R : Reader σ β γ) {fuel fuel' : ℕ} (h : xs.length < fuel)
    (h' : xs.length < fuel') : R.run fuel s xs = R.run fuel' s xs := by
  induction fuel generalizing fuel' s xs with
  | zero => omega
  | succ fuel ih =>
    obtain ⟨fuel', rfl⟩ : ∃ n, fuel' = n + 1 := ⟨fuel' - 1, by omega⟩
    rw [run, run]
    cases hstep : R.step s xs with
    | wait => rfl
    | halt c rest => rfl
    | next s' rest =>
      have hlt := R.length_lt hstep
      exact ih (by omega) (by omega)

theorem run_eq_read (R : Reader σ β γ) {fuel : ℕ} (h : xs.length < fuel) :
    R.run fuel s xs = R.read s xs :=
  R.run_eq_run h (Nat.lt_succ_self _)

theorem read_of_wait (h : R.step s xs = .wait) : R.read s xs = .waiting s xs := by
  rw [read, run, h]

theorem read_of_halt (h : R.step s xs = .halt c rest) : R.read s xs = .halted c rest := by
  rw [read, run, h]

theorem read_of_next (h : R.step s xs = .next s' rest) : R.read s xs = R.read s' rest := by
  rw [read, run, h]
  exact R.run_eq_read (R.length_lt h)

/-- **Induction along a reading**: what holds where a step leads holds where it starts. -/
theorem read_induction (R : Reader σ β γ) {motive : σ → List β → Prop}
    (h : ∀ s xs, (∀ s' rest, R.step s xs = .next s' rest → motive s' rest) → motive s xs)
    (s : σ) (xs : List β) : motive s xs := by
  induction hn : xs.length using Nat.strongRecOn generalizing s xs with
  | ind n ih => exact h s xs fun s' rest hstep => ih _ (hn ▸ R.length_lt hstep) s' rest rfl

/-- **Two pieces of input**: the second is read from where the first left the machine. -/
theorem read_append (R : Reader σ β γ) (s : σ) (xs ys : List β) :
    R.read s (xs ++ ys) = (R.read s xs).thenRead R ys := by
  induction s, xs using R.read_induction with
  | h s xs ih =>
    cases hstep : R.step s xs with
    | wait => rw [read_of_wait hstep, Outcome.thenRead]
    | next s' rest =>
      rw [read_of_next hstep, read_of_next (R.next_append hstep ys), ih s' rest hstep]
    | halt c rest =>
      rw [read_of_halt hstep, read_of_halt (R.halt_append hstep ys), Outcome.thenRead]

/-- A machine that waits has nothing to do on what is left over. -/
theorem step_of_waiting (h : R.read s xs = .waiting s' rest) : R.step s' rest = .wait := by
  induction s, xs using R.read_induction with
  | h s xs ih =>
    cases hstep : R.step s xs with
    | wait =>
      rw [read_of_wait hstep] at h
      obtain ⟨rfl, rfl⟩ : s = s' ∧ xs = rest := by simpa using h
      exact hstep
    | next t more => exact ih t more hstep (read_of_next hstep ▸ h)
    | halt c more => cases (read_of_halt hstep).symm.trans h

theorem read_of_waiting (h : R.read s xs = .waiting s' rest) :
    R.read s' rest = .waiting s' rest :=
  read_of_wait (step_of_waiting h)

theorem read_append_of_halted (h : R.read s xs = .halted c rest) (ys : List β) :
    R.read s (xs ++ ys) = .halted c (rest ++ ys) := by
  rw [read_append, h, Outcome.thenRead]

/-- Whatever two readings agree on, they agree on with more input. -/
theorem read_append_congr {t : σ} {us : List β} (h : R.read s xs = R.read t us) (ys : List β) :
    R.read s (xs ++ ys) = R.read t (us ++ ys) := by
  rw [read_append, read_append, h]

/-- What is left over is the end of the input. -/
def Outcome.left : Outcome σ β γ → List β
  | .waiting _ rest => rest
  | .halted _ rest => rest

theorem left_read_suffix (R : Reader σ β γ) (s : σ) (xs : List β) : (R.read s xs).left <:+ xs := by
  induction s, xs using R.read_induction with
  | h s xs ih =>
    cases hstep : R.step s xs with
    | wait =>
      rw [read_of_wait hstep]
      exact List.suffix_rfl
    | next s' rest =>
      rw [read_of_next hstep]
      exact (ih s' rest hstep).trans (R.next_suffix hstep)
    | halt c rest =>
      rw [read_of_halt hstep]
      exact R.halt_suffix hstep

end Reader

end RaftCore
