import RaftCore.Machinery.BoundedQueue
import RaftCore.Replication.Inflights

/-!
# Replication/SlidingWindow — the window of messages in flight slides

What the window is for: a bounded queue of the indexes in flight.  An index is offered at the back
and refused when the window is full; an acknowledgement releases every index up to its own, wherever
it stands; `FreeFirstOne` takes out the front alone.

The code pops the front of a list as long as it is acknowledged, and counts beside the list.  When
the offered indexes rise, that is the queue, call by call (`Slides.step`), so along any run the
buffer is what was accepted less what was freed (`slides_run`).
-/

namespace RaftCore

/-- A call on the window. -/
inductive InflightsOp where
  | add (index : UInt64)
  | freeto (index : UInt64)
  | freeFirstOne

namespace Inflights

variable {c : UInt32} {w w' : Inflights}

def step (w : Inflights) : InflightsOp → Outcome Inflights
  | .add index => .ok (w.add index).2
  | .freeto index => w.freeto index
  | .freeFirstOne => w.freeFirstOne

def run (w : Inflights) (ops : List InflightsOp) : Outcome Inflights := ops.foldlM step w

/-- The indexes a run offers, accepted or not. -/
def offered (ops : List InflightsOp) : List UInt64 :=
  ops.filterMap fun
    | .add index => some index
    | _ => none

end Inflights

/-- The same call on the queue of what is in flight. -/
def BoundedQueue.slide {c : ℕ} (q : BoundedQueue UInt64 c) : InflightsOp → BoundedQueue UInt64 c
  | .add index => (q.offer index).2
  | .freeto index => q.release (· ≤ index)
  | .freeFirstOne => q.dequeue

/-- What is in flight after a run: what a window of size `c` accepted, less what was freed. -/
def inFlight (c : UInt32) (ops : List InflightsOp) : BoundedQueue UInt64 c.toNat :=
  ops.foldl BoundedQueue.slide .empty

namespace Inflights

variable {c : UInt32} {w w' : Inflights} {q : BoundedQueue UInt64 c.toNat}

/-- **The window is a queue of rising indexes**, in a buffer with a count. -/
structure Slides (c : UInt32) (q : BoundedQueue UInt64 c.toNat) (w : Inflights) : Prop where
  holds : w.Holds q.items
  size_eq : w.size = c
  rising : q.Ordered (· < ·)

/-- **What a window may do next**: it refuses an index exactly when it is full, and then nothing
changes; and it frees exactly what is at most an index. -/
structure Serves (c : UInt32) (w : Inflights) : Prop where
  refuses : ∀ index, (w.add index).1 = false ↔ w.buffer.length = c.toNat
  keeps : ∀ index, (w.add index).1 = false → (w.add index).2 = w
  frees : ∀ index, ∃ w', w.freeto index = .ok w' ∧ w'.buffer = w.buffer.filter (index < ·)

theorem slides_ofSize (c : UInt32) : Slides c .empty (ofSize c) :=
  ⟨holds_ofSize c, rfl, BoundedQueue.ordered_empty⟩

/-! ## One call -/

theorem Slides.add (h : Slides c q w) (index : UInt64) :
    (w.add index).1 = (q.offer index).1 ∧ (w.add index).2.size = c ∧
      (w.add index).2.Holds (q.offer index).2.items := by
  have hle : q.items.length ≤ w.size.toNat := h.size_eq ▸ q.bounded
  rcases h.holds.add_eq hle index with ⟨hfull, hadd⟩ | ⟨hroom, w', hadd, hsize, hholds⟩
  · rw [h.size_eq] at hfull
    rw [hadd, BoundedQueue.offer_of_full hfull]
    exact ⟨rfl, h.size_eq, h.holds⟩
  · rw [h.size_eq] at hroom
    rw [hadd, BoundedQueue.offer, dif_neg (by omega)]
    exact ⟨rfl, hsize.trans h.size_eq, hholds⟩

theorem Slides.freeto (h : Slides c q w) (index : UInt64) :
    ∃ w', w.freeto index = .ok w' ∧ Slides c (q.release (· ≤ index)) w' := by
  obtain ⟨w', hfree, hsize, hholds⟩ := h.holds.freeto_eq index
  have hdrop : q.items.dropWhile (· ≤ index) = (q.release (· ≤ index)).items :=
    h.rising.dropWhile_eq_release fun x y hxy hy => by
      rw [decide_eq_true_eq] at hy ⊢
      exact UInt64.le_trans (UInt64.le_of_lt hxy) hy
  rw [hdrop] at hholds
  exact ⟨w', hfree, hholds, hsize.trans h.size_eq, h.rising.release _⟩

/-- **Every call returns and slides the queue**, when an offered index is above all in flight. -/
theorem Slides.step (h : Slides c q w) {op : InflightsOp}
    (hop : ∀ index, op = .add index → ∀ x ∈ q.items, x < index) :
    ∃ w', w.step op = .ok w' ∧ Slides c (q.slide op) w' := by
  cases op with
  | add index =>
    obtain ⟨-, hsize, hholds⟩ := h.add index
    exact ⟨_, rfl, hholds, hsize, h.rising.offer (hop index rfl)⟩
  | freeto index => exact h.freeto index
  | freeFirstOne =>
    obtain ⟨w', hfree, hsize, hholds⟩ := h.holds.freeFirstOne_eq
    exact ⟨w', hfree, hholds, hsize.trans h.size_eq, h.rising.dequeue⟩

theorem Slides.serves (h : Slides c q w) : Serves c w where
  refuses index := by
    rw [(h.add index).1, h.holds.buffer_eq]
    by_cases hfull : q.items.length = c.toNat
    · rw [BoundedQueue.offer_of_full hfull]
      exact iff_of_true rfl hfull
    · rw [BoundedQueue.offer, dif_neg hfull]
      refine iff_of_false ?_ hfull
      rintro ⟨⟩
  keeps index hfalse := by
    by_cases hfull : w.full = true
    · rw [Inflights.add, if_pos hfull]
    · rw [Inflights.add, if_neg hfull] at hfalse
      cases hfalse
  frees index := by
    obtain ⟨w', hfree, hslides⟩ := h.freeto index
    refine ⟨w', hfree, ?_⟩
    rw [hslides.holds.buffer_eq, h.holds.buffer_eq, BoundedQueue.release]
    simp only [← decide_not, UInt64.not_le]

/-! ## Runs -/

/-- What is in flight was offered. -/
theorem mem_offered_of_mem_inFlight {ops : List InflightsOp} {x : UInt64}
    (h : x ∈ (inFlight c ops).items) : x ∈ offered ops := by
  induction ops using List.reverseRecOn with
  | nil => exact absurd h List.not_mem_nil
  | append_singleton ops op ih =>
    rw [offered, List.filterMap_append, List.mem_append]
    rw [inFlight, List.foldl_append] at h
    change x ∈ (BoundedQueue.slide (inFlight c ops) op).items at h
    cases op with
    | add index =>
      rcases BoundedQueue.mem_offer h with hold | rfl
      · exact Or.inl (ih hold)
      · exact Or.inr (List.mem_singleton_self _)
    | freeto index => exact Or.inl (ih (List.mem_of_mem_filter h))
    | freeFirstOne => exact Or.inl (ih (List.mem_of_mem_tail h))

/-- **The window slides**: along any run that offers rising indexes, the buffer is what was accepted
less what was freed. -/
theorem slides_run {ops : List InflightsOp} (hrise : (offered ops).Pairwise (· < ·)) :
    ∃ w, (ofSize c).run ops = .ok w ∧ Slides c (inFlight c ops) w := by
  induction ops using List.reverseRecOn with
  | nil => exact ⟨_, rfl, slides_ofSize c⟩
  | append_singleton ops op ih =>
    rw [offered, List.filterMap_append] at hrise
    obtain ⟨hold, -, hnew⟩ := List.pairwise_append.mp hrise
    obtain ⟨w, hrun, hslides⟩ := ih hold
    have hop : ∀ index, op = .add index → ∀ x ∈ (inFlight c ops).items, x < index := by
      rintro index rfl x hx
      exact hnew x (mem_offered_of_mem_inFlight hx) index (List.mem_singleton_self _)
    obtain ⟨w', hstep, hslides'⟩ := hslides.step hop
    refine ⟨w', ?_, ?_⟩
    · rw [run, List.foldlM_append]
      exact Outcome.bind_eq_ok.mpr ⟨w, hrun, Outcome.bind_eq_ok.mpr ⟨w', hstep, rfl⟩⟩
    · rw [inFlight, List.foldl_append]
      exact hslides'

/-- **The window is a bounded sliding window**, in every state a run reaches. -/
theorem slidingWindow (c : UInt32) {ops : List InflightsOp}
    (hrise : (offered ops).Pairwise (· < ·)) :
    ∃ w, (ofSize c).run ops = .ok w ∧ w.buffer = (inFlight c ops).items ∧
      w.count.toNat = w.buffer.length ∧ w.buffer.length ≤ c.toNat ∧
      w.buffer.Pairwise (· < ·) ∧ w.Serves c := by
  obtain ⟨w, hrun, h⟩ := slides_run (c := c) hrise
  refine ⟨w, hrun, h.holds.buffer_eq, ?_, ?_, ?_, h.serves⟩
  · rw [h.holds.buffer_eq]
    exact h.holds.count_eq
  · rw [h.holds.buffer_eq]
    exact (inFlight c ops).bounded
  · rw [h.holds.buffer_eq]
    exact h.rising

/-- A window of two: a refused third index, a stale acknowledgement, and one ahead of everything. -/
theorem slidingWindow_two : ∃ w, (ofSize 2).run [.add 5, .add 6, .add 7, .freeto 4, .freeFirstOne,
      .add 9, .freeto 20] = .ok w ∧
    w.buffer = (inFlight 2 [.add 5, .add 6, .add 7, .freeto 4, .freeFirstOne,
      .add 9, .freeto 20]).items ∧
    w.count.toNat = w.buffer.length ∧ w.buffer.length ≤ (2 : UInt32).toNat ∧
    w.buffer.Pairwise (· < ·) ∧ w.Serves 2 :=
  slidingWindow 2 (by decide)

end Inflights

end RaftCore
