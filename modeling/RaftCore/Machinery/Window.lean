import Mathlib.Tactic

/-!
# Machinery/Window — a list whose elements carry consecutive numbers

A log suffix is a list `xs` numbered from a base `b`: its elements carry `b, b + 1, …`
(`Numbered`).  Then a number is a position, and everything a log does to itself is a `take`, a
`drop` or a `splice`:

    keep what is numbered below `first`   =   xs.take (first - b)      (`filter_lt_eq_take`)
    drop what is numbered up to `i`       =   xs.drop (i + 1 - b)      (`filter_gt_eq_drop`)

`lookup b xs i` reads the element numbered `i`, and says nothing outside the window.
-/

namespace RaftCore

namespace Window

variable {α : Type*} {idx : α → ℕ}

/-- The elements of the list carry the numbers `b, b + 1, …`. -/
def Numbered (idx : α → ℕ) : ℕ → List α → Prop
  | _, [] => True
  | b, x :: xs => idx x = b ∧ Numbered idx (b + 1) xs

instance decidableNumbered : ∀ (b : ℕ) (xs : List α), Decidable (Numbered idx b xs)
  | _, [] => isTrue trivial
  | b, x :: xs =>
    have := decidableNumbered (b + 1) xs
    inferInstanceAs (Decidable (idx x = b ∧ Numbered idx (b + 1) xs))

/-- The element numbered `i` of a list numbered from `b`. -/
def lookup (b : ℕ) (xs : List α) (i : ℕ) : Option α :=
  if b ≤ i then xs[i - b]? else none

/-- What is numbered below `first`, followed by `ys`. -/
def splice (b : ℕ) (xs : List α) (first : ℕ) (ys : List α) : List α := xs.take (first - b) ++ ys

/-! ## Numbers are positions -/

theorem Numbered.getElem? {b j : ℕ} {xs : List α} {x : α} (h : Numbered idx b xs)
    (hx : xs[j]? = some x) : idx x = b + j := by
  induction xs generalizing b j with
  | nil => simp at hx
  | cons y ys ih =>
    cases j with
    | zero =>
      obtain rfl : y = x := by simpa using hx
      exact h.1
    | succ j =>
      rw [ih h.2 (by simpa using hx)]
      omega

theorem Numbered.getElem {b j : ℕ} {xs : List α} (h : Numbered idx b xs) (hj : j < xs.length) :
    idx xs[j] = b + j :=
  h.getElem? (List.getElem?_eq_getElem hj)

theorem Numbered.getLast {b : ℕ} {xs : List α} (h : Numbered idx b xs) (hne : xs ≠ []) :
    idx (xs.getLast hne) + 1 = b + xs.length := by
  have hpos := List.length_pos_iff.mpr hne
  rw [List.getLast_eq_getElem, h.getElem]
  omega

theorem Numbered.mem {b : ℕ} {xs : List α} {x : α} (h : Numbered idx b xs) (hx : x ∈ xs) :
    b ≤ idx x ∧ idx x < b + xs.length := by
  obtain ⟨j, hj, rfl⟩ := List.getElem_of_mem hx
  rw [h.getElem hj]
  omega

theorem numbered_append {b : ℕ} {xs ys : List α} :
    Numbered idx b (xs ++ ys) ↔ Numbered idx b xs ∧ Numbered idx (b + xs.length) ys := by
  induction xs generalizing b with
  | nil => simp [Numbered]
  | cons x xs ih =>
    rw [List.cons_append, Numbered, Numbered, ih, List.length_cons, and_assoc,
      show b + 1 + xs.length = b + (xs.length + 1) by omega]

theorem Numbered.take {b : ℕ} {xs : List α} (h : Numbered idx b xs) (n : ℕ) :
    Numbered idx b (xs.take n) := by
  rw [← List.take_append_drop n xs] at h
  exact (numbered_append.mp h).1

theorem Numbered.drop {b n : ℕ} {xs : List α} (h : Numbered idx b xs) (hn : n ≤ xs.length) :
    Numbered idx (b + n) (xs.drop n) := by
  rw [← List.take_append_drop n xs] at h
  have h2 := (numbered_append.mp h).2
  rwa [List.length_take, Nat.min_eq_left hn] at h2

/-- **A splice that leaves no gap is numbered from the same base.** -/
theorem Numbered.splice {b first : ℕ} {xs ys : List α} (h : Numbered idx b xs)
    (hb : b ≤ first) (hle : first ≤ b + xs.length) (hys : Numbered idx first ys) :
    Numbered idx b (splice b xs first ys) := by
  refine numbered_append.mpr ⟨h.take _, ?_⟩
  rwa [List.length_take, Nat.min_eq_left (by omega), Nat.add_sub_cancel' hb]

/-! ## Filters on the number -/

theorem filter_lt_eq_take {b first : ℕ} {xs : List α} (h : Numbered idx b xs) :
    xs.filter (fun x => idx x < first) = xs.take (first - b) := by
  induction xs generalizing b with
  | nil => simp
  | cons x xs ih =>
    by_cases hx : b < first
    · have hsub : first - b = (first - (b + 1)) + 1 := by omega
      rw [List.filter_cons_of_pos (by simpa [h.1] using hx), hsub, List.take_succ_cons, ih h.2]
    · have hrest := ih h.2
      rw [show first - (b + 1) = 0 by omega, List.take_zero] at hrest
      rw [List.filter_cons_of_neg (by simpa [h.1] using hx), hrest,
        show first - b = 0 by omega, List.take_zero]

theorem filter_gt_eq_drop {b i : ℕ} {xs : List α} (h : Numbered idx b xs) :
    xs.filter (fun x => i < idx x) = xs.drop (i + 1 - b) := by
  induction xs generalizing b with
  | nil => simp
  | cons x xs ih =>
    by_cases hx : i < b
    · have hrest := ih h.2
      rw [show i + 1 - (b + 1) = 0 by omega, List.drop_zero] at hrest
      rw [List.filter_cons_of_pos (by simpa [h.1] using hx), hrest,
        show i + 1 - b = 0 by omega, List.drop_zero]
    · have hsub : i + 1 - b = (i + 1 - (b + 1)) + 1 := by omega
      rw [List.filter_cons_of_neg (by simpa [h.1] using hx), hsub, List.drop_succ_cons, ih h.2]

/-! ## Reading by number -/

theorem lookup_of_le {b i : ℕ} (xs : List α) (h : b ≤ i) : lookup b xs i = xs[i - b]? := if_pos h

theorem lookup_of_lt {b i : ℕ} (xs : List α) (h : i < b) : lookup b xs i = none :=
  if_neg (by omega)

@[simp] theorem lookup_nil (b i : ℕ) : lookup b ([] : List α) i = none := by simp [lookup]

theorem lookup_cons (b i : ℕ) (x : α) (xs : List α) :
    lookup b (x :: xs) i = if i = b then some x else lookup (b + 1) xs i := by
  rcases Nat.lt_trichotomy i b with h | rfl | h
  · rw [lookup_of_lt _ h, if_neg h.ne, lookup_of_lt _ (by omega)]
  · rw [lookup_of_le _ le_rfl, if_pos rfl, Nat.sub_self, List.getElem?_cons_zero]
  · rw [lookup_of_le _ h.le, if_neg h.ne', lookup_of_le _ h,
      show i - b = i - (b + 1) + 1 by omega, List.getElem?_cons_succ]

/-- A number is read exactly when it lies in the window. -/
theorem lookup_isSome {b i : ℕ} {xs : List α} :
    (lookup b xs i).isSome ↔ b ≤ i ∧ i < b + xs.length := by
  rcases Nat.lt_or_ge i b with h | h
  · simp [lookup_of_lt xs h, h]
  · rw [lookup_of_le xs h, isSome_getElem?]
    omega

theorem Numbered.idx_of_lookup {b i : ℕ} {xs : List α} {x : α} (h : Numbered idx b xs)
    (hx : lookup b xs i = some x) : idx x = i := by
  have hi := (lookup_isSome.mp (Option.isSome_iff_exists.mpr ⟨x, hx⟩)).1
  rw [lookup_of_le xs hi] at hx
  rw [h.getElem? hx]
  omega

/-- **The element that carries a number is the one read at it.** -/
theorem Numbered.exists_mem_iff {b i : ℕ} {xs : List α} (h : Numbered idx b xs) {P : α → Prop} :
    (∃ x ∈ xs, idx x = i ∧ P x) ↔ ∃ x, lookup b xs i = some x ∧ P x := by
  constructor
  · rintro ⟨x, hx, hidx, hP⟩
    obtain ⟨j, hj, rfl⟩ := List.getElem_of_mem hx
    have hnum := h.getElem hj
    refine ⟨_, ?_, hP⟩
    rw [lookup_of_le xs (by omega), show i - b = j by omega]
    exact List.getElem?_eq_getElem hj
  · rintro ⟨x, hx, hP⟩
    have hin := lookup_isSome.mp (Option.isSome_iff_exists.mpr ⟨x, hx⟩)
    have hidx := h.idx_of_lookup hx
    rw [lookup_of_le xs hin.1] at hx
    exact ⟨x, List.mem_of_getElem? hx, hidx, hP⟩

theorem lookup_eq_some_ne_nil {b i : ℕ} {xs : List α} {x : α} (h : lookup b xs i = some x) :
    xs ≠ [] := by
  rintro rfl
  simp at h

theorem lookup_eq_some {b i : ℕ} {xs : List α} {x : α} (h : lookup b xs i = some x) :
    b ≤ i ∧ i < b + xs.length := lookup_isSome.mp (Option.isSome_iff_exists.mpr ⟨x, h⟩)

/-- A search by number reads the element at the number. -/
theorem Numbered.find?_eq_lookup {b : ℕ} {xs : List α} (h : Numbered idx b xs) (i : ℕ) :
    xs.find? (fun x => idx x = i) = lookup b xs i := by
  induction xs generalizing b with
  | nil => simp
  | cons x xs ih =>
    rw [List.find?_cons, lookup_cons, ih h.2, h.1]
    by_cases hb : i = b
    · simp [hb]
    · simp [hb, Ne.symm hb]

/-- **What holds below an element holds at the number before its own**, if it held before the
first. -/
theorem Numbered.holds_before {n k : ℕ} {xs : List α} {x : α} {P : ℕ → Prop}
    (h : Numbered idx (n + 1) xs) (hx : xs[k]? = some x) (hn : P n)
    (hbelow : ∀ j < k, ∀ y, xs[j]? = some y → P (idx y)) : P (n + k) := by
  cases k with
  | zero => exact hn
  | succ k =>
    have hlen := (List.getElem?_eq_some_iff.mp hx).1
    have hprev := hbelow k k.lt_succ_self _ (List.getElem?_eq_getElem (by omega))
    rw [h.getElem] at hprev
    rwa [← Nat.add_assoc, Nat.add_right_comm]

/-- **Below the splice nothing changes.** -/
theorem lookup_splice_of_lt {b first i : ℕ} (xs ys : List α) (hi : i < first)
    (hle : first ≤ b + xs.length) : lookup b (splice b xs first ys) i = lookup b xs i := by
  rcases Nat.lt_or_ge i b with h | h
  · rw [lookup_of_lt _ h, lookup_of_lt _ h]
  · rw [lookup_of_le _ h, lookup_of_le _ h, splice,
      List.getElem?_append_left (by rw [List.length_take]; omega),
      List.getElem?_take_of_lt (by omega)]

/-- A splice over the empty prefix replaces everything. -/
theorem splice_base {b first : ℕ} (xs ys : List α) (h : first ≤ b) :
    splice b xs first ys = ys := by
  rw [splice, Nat.sub_eq_zero_of_le h, List.take_zero, List.nil_append]

/-- A splice at the end extends. -/
theorem splice_end {b first : ℕ} (xs ys : List α) (h : b + xs.length ≤ first) :
    splice b xs first ys = xs ++ ys := by
  rw [splice, List.take_of_length_le (by omega)]

/-! ## Numbers that wrap

A machine word can only be counted on modulo `2^64`.  That is enough for positions: between the
first number and the last one, a difference of numbers is a position in the list. -/

section Wrapping

variable {word : α → UInt64} {b : UInt64} {xs ys : List α}

/-- The elements of the list carry the words `b, b + 1, …`. -/
def Wrapping (word : α → UInt64) (b : UInt64) (xs : List α) : Prop :=
  ∀ (j : ℕ) (x : α), xs[j]? = some x → word x = b + UInt64.ofNat j

theorem wrapping_iff : Wrapping word b xs ↔
    ∀ j : Fin xs.length, word xs[j] = b + UInt64.ofNat j := by
  refine ⟨fun h j => h j _ (List.getElem?_eq_getElem j.isLt), fun h j x hx => ?_⟩
  obtain ⟨hj, rfl⟩ := List.getElem?_eq_some_iff.mp hx
  exact h ⟨j, hj⟩

instance : Decidable (Wrapping word b xs) := decidable_of_iff' _ wrapping_iff

/-- Numbers that do not wrap are words that run on. -/
theorem Numbered.wrapping (h : Numbered (fun x => (word x).toNat) b.toNat xs) :
    Wrapping word b xs := by
  intro j x hx
  have hnum := h.getElem? hx
  have hlt := (word x).toNat_lt
  rw [← UInt64.toNat_inj, UInt64.toNat_add, UInt64.toNat_ofNat', hnum]
  omega

theorem wrapping_nil : Wrapping word b [] := fun _ _ hx => by simp at hx

theorem Wrapping.head (h : Wrapping word b xs) (hne : xs ≠ []) : word (xs.head hne) = b := by
  rw [h 0 (xs.head hne) (by rw [← List.head?_eq_getElem?, List.head?_eq_some_head hne])]
  exact UInt64.add_zero b

theorem Wrapping.take (h : Wrapping word b xs) (n : ℕ) : Wrapping word b (xs.take n) := by
  intro j x hx
  rw [List.getElem?_take] at hx
  split at hx
  · exact h j x hx
  · cases hx

theorem Wrapping.drop (h : Wrapping word b xs) (n : ℕ) :
    Wrapping word (b + UInt64.ofNat n) (xs.drop n) := by
  intro j x hx
  rw [List.getElem?_drop] at hx
  rw [h _ _ hx, UInt64.ofNat_add, UInt64.add_assoc]

theorem Wrapping.append (hx : Wrapping word b xs)
    (hy : Wrapping word (b + UInt64.ofNat xs.length) ys) : Wrapping word b (xs ++ ys) := by
  intro j x hj
  rcases Nat.lt_or_ge j xs.length with hlt | hge
  · exact hx j x (by rwa [List.getElem?_append_left hlt] at hj)
  · rw [List.getElem?_append_right hge] at hj
    rw [hy _ _ hj, UInt64.add_assoc, ← UInt64.ofNat_add, Nat.add_sub_cancel' hge]

/-- **From the first number to the last, a difference is a position**, wrapped or not. -/
theorem Wrapping.sub_lt_length (h : Wrapping word b xs) (hne : xs ≠ []) {i : UInt64} (hlo : b ≤ i)
    (hhi : i ≤ word (xs.getLast hne)) : (i - b).toNat < xs.length := by
  have hpos := List.length_pos_iff.mpr hne
  have hlast : word (xs.getLast hne) = b + UInt64.ofNat (xs.length - 1) :=
    h _ _ (by rw [← List.getLast?_eq_getElem?, List.getLast?_eq_some_getLast hne])
  rw [hlast, UInt64.le_iff_toNat_le, UInt64.toNat_add, UInt64.toNat_ofNat'] at hhi
  have hmod := Nat.mod_le (xs.length - 1) (2 ^ 64)
  have hwrap := Nat.mod_le (b.toNat + (xs.length - 1) % 2 ^ 64) (2 ^ 64)
  rw [UInt64.toNat_sub_of_le _ _ hlo]
  omega

end Wrapping

end Window

end RaftCore
