import Mathlib.Tactic

/-!
# Machinery/Outcome — calls that may end without a result

A call either returns or ends the program: it panics (logs and exits), fails an assertion, or runs
into undefined behaviour.  All three are a `Fault`, and a call is an `Except Fault`.

The accesses of a `std::deque` that can run off its end are the second source of faults; they are
collected here (`Deque`), so that an access in a model names the operation the code performs.
-/

namespace RaftCore

/-- How a call ends when it does not return. -/
inductive Fault where
  /-- The message is logged and the process exits. -/
  | panic (message : String)
  /-- An assertion with this text fails and the process aborts. -/
  | assertion (text : String)
  /-- The behaviour is undefined. -/
  | undefined (access : String)
  deriving DecidableEq, Repr

/-- A call that returns an `α` or ends the program. -/
abbrev Outcome (α : Type) := Except Fault α

namespace Outcome

variable {α β : Type}

/-- **A sequence returns exactly when both parts do.** -/
theorem bind_eq_ok {x : Outcome α} {f : α → Outcome β} {b : β} :
    (x >>= f) = .ok b ↔ ∃ a, x = .ok a ∧ f a = .ok b := by
  cases x <;> simp [bind, Except.bind]

@[simp] theorem ok_bind (a : α) (f : α → Outcome β) : ((.ok a : Outcome α) >>= f) = f a := rfl

@[simp] theorem error_bind (e : Fault) (f : α → Outcome β) :
    ((.error e : Outcome α) >>= f) = .error e := rfl

theorem toOption_eq_some {x : Outcome α} {a : α} : x.toOption = some a ↔ x = .ok a := by
  cases x <;> simp [Except.toOption]

theorem map_eq_ok {x : Outcome α} {f : α → β} {b : β} :
    x.map f = .ok b ↔ ∃ a, x = .ok a ∧ f a = b := by
  cases x <;> simp [Except.map]

/-- Two calls end the same way: both return, with related results, or both by the same fault. -/
def Agree (R : α → β → Prop) : Outcome α → Outcome β → Prop
  | .ok a, .ok b => R a b
  | .error e, .error e' => e = e'
  | _, _ => False

/-- A result only passed on: mapping it and going on is going on with it mapped. -/
theorem map_bind {γ : Type} (x : Outcome α) (f : α → β) (g : β → Outcome γ) :
    (x.map f >>= g) = x >>= fun a => g (f a) := by
  cases x <;> rfl

/-- What comes after the rest of a sequence comes after its last part. -/
theorem bind_map {γ : Type} (x : Outcome α) (f : α → Outcome β) (g : β → γ) :
    (x >>= f).map g = x >>= fun a => (f a).map g := by
  cases x <;> rfl

end Outcome

/-- Whether assertions are compiled in. -/
inductive Build where
  | debug
  | ndebug
  deriving DecidableEq, Repr

/-- `assert(cond)`: nothing when assertions are compiled out. -/
def Build.assert (build : Build) (cond : Prop) [Decidable cond] (text : String) : Outcome Unit :=
  match build with
  | .debug => if cond then .ok () else .error (.assertion text)
  | .ndebug => .ok ()

/-- **An assertion passes exactly when it is compiled out or holds.** -/
@[simp] theorem Build.assert_eq_ok {build : Build} {cond : Prop} [Decidable cond] {text : String}
    {u : Unit} : build.assert cond text = .ok u ↔ (build = .debug → cond) := by
  cases build <;> by_cases h : cond <;> simp [Build.assert, h]

namespace Deque

variable {α : Type}

/-- `d[i]`. -/
def get (d : List α) (i : UInt64) : Outcome α :=
  match d[i.toNat]? with
  | some x => .ok x
  | none => .error (.undefined "operator[] past the end")

/-- `*d.begin()`. -/
def front (d : List α) : Outcome α :=
  match d.head? with
  | some x => .ok x
  | none => .error (.undefined "begin() of an empty deque")

/-- `*d.rbegin()`. -/
def back (d : List α) : Outcome α :=
  match d.getLast? with
  | some x => .ok x
  | none => .error (.undefined "rbegin() of an empty deque")

/-- `d.erase(d.begin() + n, d.end())`. -/
def eraseFrom (d : List α) (n : UInt64) : Outcome (List α) :=
  if n.toNat ≤ d.length then .ok (d.take n.toNat)
  else .error (.undefined "erase range outside the deque")

/-- `d.erase(d.begin(), d.begin() + n)`. -/
def eraseUpTo (d : List α) (n : UInt64) : Outcome (List α) :=
  if n.toNat ≤ d.length then .ok (d.drop n.toNat)
  else .error (.undefined "erase range outside the deque")

theorem get_eq_ok {d : List α} {i : UInt64} {x : α} : get d i = .ok x ↔ d[i.toNat]? = some x := by
  unfold get
  cases d[i.toNat]? <;> simp

@[simp] theorem back_eq_ok {d : List α} {x : α} : back d = .ok x ↔ d.getLast? = some x := by
  unfold back
  cases d.getLast? <;> simp

theorem back_of_ne {d : List α} (h : d ≠ []) : back d = .ok (d.getLast h) :=
  back_eq_ok.mpr (List.getLast?_eq_some_getLast h)

theorem eraseFrom_of_le {d : List α} {n : UInt64} (h : n.toNat ≤ d.length) :
    eraseFrom d n = .ok (d.take n.toNat) := if_pos h

theorem eraseUpTo_of_le {d : List α} {n : UInt64} (h : n.toNat ≤ d.length) :
    eraseUpTo d n = .ok (d.drop n.toNat) := if_pos h

end Deque

end RaftCore
