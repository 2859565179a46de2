import Mathlib.Tactic

/-!
# Machinery/BoundedQueue — a queue that refuses what does not fit

A queue of at most `c` elements.  An element is offered at the back and refused when the queue is
full; whatever satisfies a condition is released, wherever it stands; the front is dequeued.  None
of the three disturbs an order in which the elements stand (`Ordered`), if what is offered comes
after all of them; and in such an order a condition that holds before whatever it holds of is
released by popping the front as long as it does (`dropWhile_eq_release`).
-/

namespace RaftCore

/-- A queue of at most `c` elements. -/
structure BoundedQueue (α : Type*) (c : ℕ) where
  items : List α
  bounded : items.length ≤ c

namespace BoundedQueue

variable {α : Type*} {c : ℕ}

def empty : BoundedQueue α c := ⟨[], Nat.zero_le c⟩

/-- Put an element at the back, unless the queue is full. -/
def offer (q : BoundedQueue α c) (x : α) : Bool × BoundedQueue α c :=
  if h : q.items.length = c then (false, q)
  else (true, ⟨q.items ++ [x], by
    have := q.bounded
    rw [List.length_append, List.length_singleton]
    omega⟩)

/-- Take out whatever satisfies `p`. -/
def release (q : BoundedQueue α c) (p : α → Bool) : BoundedQueue α c :=
  ⟨q.items.filter fun x => !p x, (List.length_filter_le _ _).trans q.bounded⟩

/-- Take out the front, if there is one. -/
def dequeue (q : BoundedQueue α c) : BoundedQueue α c :=
  ⟨q.items.tail, (List.tail_sublist _).length_le.trans q.bounded⟩

theorem offer_of_full {q : BoundedQueue α c} (h : q.items.length = c) (x : α) :
    q.offer x = (false, q) := dif_pos h

theorem offer_of_room {q : BoundedQueue α c} (h : q.items.length ≠ c) (x : α) :
    (q.offer x).2.items = q.items ++ [x] := by
  rw [offer, dif_neg h]

/-! ## Order -/

section Order

variable {r : α → α → Prop}

/-- The elements stand in the order `r`. -/
def Ordered (r : α → α → Prop) (q : BoundedQueue α c) : Prop := q.items.Pairwise r

theorem ordered_empty : Ordered r (empty : BoundedQueue α c) := List.Pairwise.nil

/-- **What comes after all the others may be offered.** -/
theorem Ordered.offer {q : BoundedQueue α c} (h : q.Ordered r) {x : α}
    (hx : ∀ y ∈ q.items, r y x) : (q.offer x).2.Ordered r := by
  by_cases hfull : q.items.length = c
  · rw [offer_of_full hfull]
    exact h
  · rw [Ordered, offer_of_room hfull]
    exact List.pairwise_append.mpr ⟨h, List.pairwise_singleton r x, fun y hy z hz =>
      List.mem_singleton.mp hz ▸ hx y hy⟩

theorem Ordered.release {q : BoundedQueue α c} (h : q.Ordered r) (p : α → Bool) :
    (q.release p).Ordered r := h.sublist List.filter_sublist

theorem Ordered.dequeue {q : BoundedQueue α c} (h : q.Ordered r) : q.dequeue.Ordered r :=
  h.sublist (List.tail_sublist _)

/-- In an order in which `p` holds before whatever it holds of, it is lost once and for all. -/
theorem dropWhile_eq_filter {xs : List α} (h : xs.Pairwise r) {p : α → Bool}
    (hp : ∀ x y, r x y → p y → p x) : xs.dropWhile p = xs.filter fun x => !p x := by
  induction xs with
  | nil => rfl
  | cons x xs ih =>
    obtain ⟨hx, hxs⟩ := List.pairwise_cons.mp h
    by_cases hpx : p x
    · rw [List.dropWhile_cons_of_pos hpx, List.filter_cons_of_neg (by simpa using hpx)]
      exact ih hxs
    · have hrest : xs.filter (fun y => !p y) = xs := List.filter_eq_self.mpr fun y hy => by
        simpa using fun hpy => hpx (hp x y (hx y hy) hpy)
      rw [List.dropWhile_cons_of_neg hpx, List.filter_cons_of_pos (by simpa using hpx), hrest]

/-- **Popping the front releases everything**, in such an order. -/
theorem Ordered.dropWhile_eq_release {q : BoundedQueue α c} (h : q.Ordered r) {p : α → Bool}
    (hp : ∀ x y, r x y → p y → p x) : q.items.dropWhile p = (q.release p).items :=
  dropWhile_eq_filter h hp

end Order

/-! ## Where the elements come from -/

theorem mem_offer {q : BoundedQueue α c} {x y : α} (h : y ∈ (q.offer x).2.items) :
    y ∈ q.items ∨ y = x := by
  by_cases hfull : q.items.length = c
  · rw [offer_of_full hfull] at h
    exact Or.inl h
  · rw [offer_of_room hfull] at h
    simpa using h

end BoundedQueue

end RaftCore
