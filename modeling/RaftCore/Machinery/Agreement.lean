import Mathlib.Tactic

/-!
# Machinery/Agreement — lists in which a key identifies everything before it

Two lists `Agree` when equal keys at one position put equal elements at that position and at every
position below it.  A set of lists is `Coherent` when any two of its members agree.  Three ways to
make a list keep a coherent set coherent, and they are the three ways a replica's log changes:

* cut a member short                                            (`Coherent.insert_take`);
* extend a member by an element whose key no member has there   (`Coherent.insert_concat`);
* keep a member up to where it agrees with another, and go on with the other — which builds nothing
  new at all                                                    (`Coherent.take_append_drop`).
-/

namespace RaftCore

namespace Agreement

variable {α κ : Type*} {key : α → κ} {xs ys : List α}

/-- Equal keys at a position come with equal lists up to it. -/
def Agree (key : α → κ) (xs ys : List α) : Prop :=
  ∀ i x y, xs[i]? = some x → ys[i]? = some y → key x = key y → xs.take (i + 1) = ys.take (i + 1)

theorem Agree.refl (xs : List α) : Agree key xs xs := fun _ _ _ _ _ _ => rfl

theorem Agree.symm (h : Agree key xs ys) : Agree key ys xs :=
  fun i x y hx hy hkey => (h i y x hy hx hkey.symm).symm

/-- A list cut short agrees with whatever it agreed with. -/
theorem Agree.take (h : Agree key xs ys) (n : ℕ) : Agree key (xs.take n) ys := by
  intro i x y hx hy hkey
  rw [List.getElem?_take] at hx
  obtain ⟨hi, hx⟩ := Option.ite_none_right_eq_some.mp hx
  rw [List.take_take, Nat.min_eq_left hi]
  exact h i x y hx hy hkey

/-- **A new element may be put after a list**, if its key is new at that position. -/
theorem Agree.concat (h : Agree key xs ys) {e : α}
    (hnew : ∀ y, ys[xs.length]? = some y → key y ≠ key e) : Agree key (xs ++ [e]) ys := by
  intro i x y hx hy hkey
  rcases Nat.lt_trichotomy i xs.length with hi | rfl | hi
  · rw [List.getElem?_append_left hi] at hx
    rw [List.take_append_of_le_length hi]
    exact h i x y hx hy hkey
  · rw [List.getElem?_concat_length] at hx
    obtain rfl := Option.some.inj hx
    exact absurd hkey.symm (hnew y hy)
  · rw [List.getElem?_eq_none (by rw [List.length_append, List.length_singleton]; omega)] at hx
    cases hx

/-- Any two members agree. -/
def Coherent (key : α → κ) (W : Set (List α)) : Prop := ∀ xs ∈ W, ∀ ys ∈ W, Agree key xs ys

namespace Coherent

variable {W : Set (List α)}

theorem singleton (xs : List α) : Coherent key {xs} := by
  rintro _ rfl _ rfl
  exact .refl _

theorem insert (h : Coherent key W) (hxs : ∀ ys ∈ W, Agree key xs ys) :
    Coherent key (insert xs W) := by
  rintro us (rfl | hu) vs (rfl | hv)
  · exact .refl _
  · exact hxs vs hv
  · exact (hxs us hu).symm
  · exact h us hu vs hv

/-- **Cutting a member short.** -/
theorem insert_take (h : Coherent key W) (hxs : xs ∈ W) (n : ℕ) :
    Coherent key (Insert.insert (xs.take n) W) :=
  h.insert fun ys hys => (h xs hxs ys hys).take n

/-- **Extending a member by an element whose key is new at its position.** -/
theorem insert_concat (h : Coherent key W) (hxs : xs ∈ W) {e : α}
    (hnew : ∀ ys ∈ W, ∀ y, ys[xs.length]? = some y → key y ≠ key e) :
    Coherent key (Insert.insert (xs ++ [e]) W) :=
  h.insert fun ys hys => (h xs hxs ys hys).concat (hnew ys hys)

/-- **Keeping a member up to where it agrees with another, and going on with the other**, is
cutting the other short. -/
theorem take_append_drop (h : Coherent key W) (hxs : xs ∈ W) (hys : ys ∈ W) {n m : ℕ} {x y : α}
    (hx : xs[n]? = some x) (hy : ys[n]? = some y) (hkey : key x = key y) :
    xs.take (n + 1) ++ (ys.drop (n + 1)).take m = ys.take (n + 1 + m) := by
  rw [h xs hxs ys hys n x y hx hy hkey, ← List.take_add]

/-- **Members with equal keys at a position are equal wherever one looks below it.** -/
theorem getElem?_eq (h : Coherent key W) (hxs : xs ∈ W) (hys : ys ∈ W) {n j : ℕ} {x y : α}
    (hx : xs[n]? = some x) (hy : ys[n]? = some y) (hkey : key x = key y) (hj : j ≤ n) :
    xs[j]? = ys[j]? := by
  have htake := congrArg (·[j]?) (h xs hxs ys hys n x y hx hy hkey)
  simpa only [List.getElem?_take_of_lt (Nat.lt_succ_of_le hj)] using htake

end Coherent

end Agreement

end RaftCore
