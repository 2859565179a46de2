import Mathlib.Tactic

/-!
# Machinery/Runs — finite runs of a deterministic machine that may stop

A machine is a step `σ → α → Option σ`: `none` says the action ends the run (a fault, an abort, or
an action that is not enabled).  A run is a list of actions, and four readings of it are enough:

* `visited` — the states it passes through, the first one included;
* `Always I` — `I` holds of every one of them;
* `Along P` — `P` holds of every action it attempts, in the state it attempts it in;
* `final?` — the state it ends in, when no action stopped it.

The rules turn a fact about one step into a fact about runs: an invariant that the steps of a run
keep is an invariant of everything it visits (`always_of_inv`), two properties that agree under
an invariant agree along the run (`along_congr`), and a preorder the steps follow orders the
visited states (`pairwise_visited`).
-/

namespace RaftCore

namespace Runs

variable {σ α : Type*} {step : σ → α → Option σ}

/-- The states a run passes through, in order. -/
def visited (step : σ → α → Option σ) : σ → List α → List σ
  | s, [] => [s]
  | s, a :: as => s :: match step s a with
      | some s' => visited step s' as
      | none => []

/-- `I` holds of every state the run visits. -/
def Always (step : σ → α → Option σ) (I : σ → Prop) (s : σ) (as : List α) : Prop :=
  ∀ t ∈ visited step s as, I t

/-- `P` holds of every action the run attempts, in the state it is attempted in. -/
def Along (step : σ → α → Option σ) (P : σ → α → Prop) : σ → List α → Prop
  | _, [] => True
  | s, a :: as => P s a ∧ ∀ s', step s a = some s' → Along step P s' as

/-- The state a run ends in, when no action stops it. -/
def final? (step : σ → α → Option σ) : σ → List α → Option σ
  | s, [] => some s
  | s, a :: as => (step s a).bind fun s' => final? step s' as

theorem mem_visited_self (s : σ) (as : List α) : s ∈ visited step s as := by
  cases as <;> simp [visited]

theorem final?_cons (s : σ) (a : α) (as : List α) :
    final? step s (a :: as) = (step s a).bind fun s' => final? step s' as := rfl

theorem visited_cons_some {s s' : σ} {a : α} (h : step s a = some s') (as : List α) :
    visited step s (a :: as) = s :: visited step s' as := by
  simp only [visited, h]

theorem visited_cons_none {s : σ} {a : α} (h : step s a = none) (as : List α) :
    visited step s (a :: as) = [s] := by
  simp only [visited, h]

theorem mem_visited_of_final? {s t : σ} {as : List α} (h : final? step s as = some t) :
    t ∈ visited step s as := by
  induction as generalizing s with
  | nil =>
    obtain rfl : s = t := by simpa [final?] using h
    exact mem_visited_self s []
  | cons a as ih =>
    obtain ⟨s', hs, h'⟩ := Option.bind_eq_some_iff.mp h
    rw [visited_cons_some hs]
    exact List.mem_cons_of_mem _ (ih h')

/-- A machine that never stops ends in the fold of its step. -/
theorem final?_total (f : σ → α → σ) (s : σ) (as : List α) :
    final? (fun s a => some (f s a)) s as = some (as.foldl f s) := by
  induction as generalizing s with
  | nil => rfl
  | cons a as ih => exact ih (f s a)

/-! ## Properties along a run -/

theorem Along.mono {P Q : σ → α → Prop} (hPQ : ∀ s a, P s a → Q s a) {s : σ} {as : List α}
    (h : Along step P s as) : Along step Q s as := by
  induction as generalizing s with
  | nil => trivial
  | cons a as ih => exact ⟨hPQ s a h.1, fun s' hs => ih (h.2 s' hs)⟩

theorem along_and {P Q : σ → α → Prop} {s : σ} {as : List α} :
    Along step (fun s a => P s a ∧ Q s a) s as ↔ Along step P s as ∧ Along step Q s as := by
  induction as generalizing s with
  | nil => simp [Along]
  | cons a as ih =>
    simp only [Along, ih]
    exact ⟨fun h => ⟨⟨h.1.1, fun s' hs => (h.2 s' hs).1⟩, h.1.2, fun s' hs => (h.2 s' hs).2⟩,
      fun h => ⟨⟨h.1.1, h.2.1⟩, fun s' hs => ⟨h.1.2 s' hs, h.2.2 s' hs⟩⟩⟩

/-- What every attempt satisfies holds along every run. -/
theorem along_of_all {P : σ → α → Prop} (h : ∀ s a, P s a) (s : σ) (as : List α) :
    Along step P s as := by
  induction as generalizing s with
  | nil => trivial
  | cons a as ih => exact ⟨h s a, fun s' _ => ih s'⟩

/-- A property of the actions alone holds along every run of such actions. -/
theorem along_of_forall {P : α → Prop} {s : σ} {as : List α} (h : ∀ a ∈ as, P a) :
    Along step (fun _ a => P a) s as := by
  induction as generalizing s with
  | nil => trivial
  | cons a as ih =>
    exact ⟨h a (List.mem_cons_self ..), fun _ _ => ih fun b hb => h b (List.mem_cons_of_mem _ hb)⟩

/-- **What holds of every visited state** holds of the first one and after every step. -/
theorem always_iff {I : σ → Prop} {s : σ} {as : List α} :
    Always step I s as ↔ I s ∧ Along step (fun s a => ∀ s', step s a = some s' → I s') s as := by
  induction as generalizing s with
  | nil => simp [Always, visited, Along]
  | cons a as ih =>
    cases hs : step s a with
    | none => simp [Always, visited_cons_none hs, Along, hs]
    | some s' =>
      rw [Always, visited_cons_some hs, List.forall_mem_cons, ← Always, ih]
      simp [Along, hs]

instance decidableAlong {P : σ → α → Prop} [∀ s a, Decidable (P s a)] :
    ∀ (s : σ) (as : List α), Decidable (Along step P s as)
  | _, [] => isTrue trivial
  | s, a :: as =>
    match hs : step s a with
    | none => decidable_of_iff (P s a) (by simp [Along, hs])
    | some s' =>
      have := decidableAlong (P := P) s' as
      decidable_of_iff (P s a ∧ Along step P s' as) (by simp [Along, hs])

/-! ## The invariant rules

`Q` is what a step may assume of its action; an invariant `I` kept by the steps that satisfy `Q`
holds of every state a run satisfying `Q` visits. -/

section Invariant

variable {I : σ → Prop} {P Q : σ → α → Prop}

/-- **The invariant rule.** -/
theorem always_of_inv (hstep : ∀ s a s', I s → Q s a → step s a = some s' → I s')
    {s : σ} {as : List α} (hI : I s) (hQ : Along step Q s as) : Always step I s as := by
  induction as generalizing s with
  | nil => simpa [Always, visited] using hI
  | cons a as ih =>
    intro t ht
    cases hs : step s a with
    | none =>
      rw [visited_cons_none hs, List.mem_singleton] at ht
      exact ht ▸ hI
    | some s' =>
      rw [visited_cons_some hs, List.mem_cons] at ht
      rcases ht with rfl | ht
      · exact hI
      · exact ih (hstep s a s' hI hQ.1 hs) (hQ.2 s' hs) t ht

/-- …in particular of the state it ends in. -/
theorem final?_inv (hstep : ∀ s a s', I s → Q s a → step s a = some s' → I s')
    {s t : σ} {as : List α} (hI : I s) (hQ : Along step Q s as) (h : final? step s as = some t) :
    I t :=
  always_of_inv hstep hI hQ t (mem_visited_of_final? h)

/-- **What a step gives under the invariant, it gives along the run.** -/
theorem along_of_inv (hstep : ∀ s a s', I s → Q s a → step s a = some s' → I s')
    (hP : ∀ s a, I s → Q s a → P s a) {s : σ} {as : List α} (hI : I s)
    (hQ : Along step Q s as) : Along step P s as := by
  induction as generalizing s with
  | nil => trivial
  | cons a as ih =>
    exact ⟨hP s a hI hQ.1, fun s' hs => ih (hstep s a s' hI hQ.1 hs) (hQ.2 s' hs)⟩

/-- **Two properties that agree under the invariant agree along the run**, when either keeps it. -/
theorem along_congr (hstep : ∀ s a s', I s → Q s a → step s a = some s' → I s')
    {A : α → Prop} (hPQ : ∀ s a, I s → A a → (P s a ↔ Q s a)) {s : σ} {as : List α} (hI : I s)
    (hA : ∀ a ∈ as, A a) : Along step P s as ↔ Along step Q s as := by
  induction as generalizing s with
  | nil => exact Iff.rfl
  | cons a as ih =>
    have ha := hPQ s a hI (hA a (List.mem_cons_self ..))
    refine and_congr_right_iff.mpr ?_ |>.trans (and_congr_left' ha)
    intro hPa
    refine forall₂_congr fun s' hs => ?_
    exact ih (hstep s a s' hI (ha.mp hPa) hs) fun b hb => hA b (List.mem_cons_of_mem _ hb)

/-- **…and when steps of a third kind keep it**, along the runs of such steps. -/
theorem along_congr_of_inv {R : σ → α → Prop}
    (hstep : ∀ s a s', I s → Q s a → step s a = some s' → I s')
    (hPR : ∀ s a, I s → Q s a → (P s a ↔ R s a)) {s : σ} {as : List α} (hI : I s)
    (hQ : Along step Q s as) : Along step P s as ↔ Along step R s as := by
  have hiff : Along step (fun s a => P s a ↔ R s a) s as := along_of_inv hstep hPR hI hQ
  constructor
  · intro hP
    exact (along_and.mpr ⟨hiff, hP⟩).mono fun s a h => h.1.mp h.2
  · intro hR
    exact (along_and.mpr ⟨hiff, hR⟩).mono fun s a h => h.1.mpr h.2

/-- **A preorder the steps follow orders the visited states.** -/
theorem pairwise_visited {R : σ → σ → Prop} (hrefl : ∀ s, R s s)
    (htrans : ∀ s t u, R s t → R t u → R s u)
    (hR : ∀ s a s', Q s a → step s a = some s' → R s s')
    {s : σ} {as : List α} (hQ : Along step Q s as) : (visited step s as).Pairwise R := by
  have hfrom : ∀ {s : σ} {as : List α}, Along step Q s as → Always step (R s) s as :=
    fun {s as} hQ => always_of_inv (I := R s)
      (fun t a t' hst ha ht => htrans s t t' hst (hR t a t' ha ht)) (hrefl s) hQ
  induction as generalizing s with
  | nil => exact List.pairwise_singleton _ _
  | cons a as ih =>
    cases hs : step s a with
    | none =>
      rw [visited_cons_none hs]
      exact List.pairwise_singleton _ _
    | some s' =>
      rw [visited_cons_some hs]
      refine List.pairwise_cons.mpr ⟨fun t ht => ?_, ih (hQ.2 s' hs)⟩
      exact htrans s s' t (hR s a s' hQ.1 hs) (hfrom (hQ.2 s' hs) t ht)

end Invariant

end Runs

end RaftCore
