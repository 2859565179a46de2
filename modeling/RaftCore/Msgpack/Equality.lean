import RaftCore.Msgpack.Unpack

/-!
# Msgpack/Equality — what `==` compares

`operator==` of `v1/object.hpp` compares two objects item by item.  Two of its comparisons are not
what a reader expects: numbers with a point are compared as such, so that a NaN differs from itself
and the zeros do not differ; and of an ext, whose bytes begin with its type, as many bytes are
compared as it has data, so that the last one is not.

So it is the equality of objects without the last byte of any ext and without the sign of any zero,
for objects without a NaN (`Object.equal_spec`).
-/

namespace RaftCore

namespace Msgpack

/-- `==` on the bits of numbers with a point, whose magnitudes are below `half` and, but for NaNs,
at most `inf`. -/
def equalFloats (half inf a b : ℕ) : Bool :=
  decide (a % half ≤ inf ∧ b % half ≤ inf ∧ (a = b ∨ a % half = 0 ∧ b % half = 0))

/-- `std::memcmp` says that `n` bytes are the same. -/
def sameBytes (n : ℕ) (a b : List UInt8) : Bool := a.take n == b.take n

mutual

/-- `operator==`; a float is compared as the double it was made to be, which is exact. -/
def Object.equal : Object → Object → Bool
  | .nil, .nil => true
  | .boolean x, .boolean y => x == y
  | .positiveInteger x, .positiveInteger y => x == y
  | .negativeInteger x, .negativeInteger y => x == y
  | .float32 x, .float32 y => equalFloats (2 ^ 31) 0x7f800000 x.toNat y.toNat
  | .float64 x, .float64 y => equalFloats (2 ^ 63) 0x7ff0000000000000 x.toNat y.toNat
  | .str x, .str y => x.length == y.length && sameBytes x.length x y
  | .bin x, .bin y => x.length == y.length && sameBytes x.length x y
  | .ext x, .ext y => x.length - 1 == y.length - 1 && sameBytes (x.length - 1) x y
  | .array x, .array y => x.length == y.length && equalItems x y
  | .map x, .map y => x.length == y.length && equalPairs x y
  | _, _ => false

def equalItems : List Object → List Object → Bool
  | x :: xs, y :: ys => x.equal y && equalItems xs ys
  | _, _ => true

def equalPairs : List (Object × Object) → List (Object × Object) → Bool
  | (key, val) :: xs, (key', val') :: ys => (key.equal key' && val.equal val') && equalPairs xs ys
  | _, _ => true

end

/-! ## What it does not see -/

mutual

/-- Without the last byte of any ext and the sign of any zero. -/
def Object.canon : Object → Object
  | .float32 bits => .float32 (if bits.toNat % 2 ^ 31 = 0 then 0 else bits)
  | .float64 bits => .float64 (if bits.toNat % 2 ^ 63 = 0 then 0 else bits)
  | .ext bytes => .ext bytes.dropLast
  | .array items => .array (canonItems items)
  | .map items => .map (canonPairs items)
  | obj => obj

def canonItems : List Object → List Object
  | [] => []
  | item :: items => item.canon :: canonItems items

def canonPairs : List (Object × Object) → List (Object × Object)
  | [] => []
  | (key, val) :: items => (key.canon, val.canon) :: canonPairs items

end

mutual

/-- There is no NaN in it. -/
def Object.Ordered : Object → Prop
  | .float32 bits => bits.toNat % 2 ^ 31 ≤ 0x7f800000
  | .float64 bits => bits.toNat % 2 ^ 63 ≤ 0x7ff0000000000000
  | .array items => OrderedItems items
  | .map items => OrderedPairs items
  | _ => True

def OrderedItems : List Object → Prop
  | [] => True
  | item :: items => item.Ordered ∧ OrderedItems items

def OrderedPairs : List (Object × Object) → Prop
  | [] => True
  | (key, val) :: items => (key.Ordered ∧ val.Ordered) ∧ OrderedPairs items

end

theorem length_canonItems (items : List Object) : (canonItems items).length = items.length := by
  induction items with
  | nil => rfl
  | cons item items ih => rw [canonItems, List.length_cons, List.length_cons, ih]

theorem length_canonPairs (items : List (Object × Object)) :
    (canonPairs items).length = items.length := by
  induction items with
  | nil => rfl
  | cons p items ih => rw [canonPairs, List.length_cons, List.length_cons, ih]

theorem sameBytes_iff {x y : List UInt8} :
    (x.length == y.length && sameBytes x.length x y) = true ↔ x = y := by
  rw [Bool.and_eq_true, beq_iff_eq, sameBytes, beq_iff_eq]
  constructor
  · rintro ⟨hlen, hbytes⟩
    rwa [List.take_length, hlen, List.take_length] at hbytes
  · rintro rfl
    exact ⟨rfl, rfl⟩

/-- All but the last byte. -/
theorem sameExt_iff {x y : List UInt8} :
    (x.length - 1 == y.length - 1 && sameBytes (x.length - 1) x y) = true
      ↔ x.dropLast = y.dropLast := by
  rw [Bool.and_eq_true, beq_iff_eq, sameBytes, beq_iff_eq, List.dropLast_eq_take,
    List.dropLast_eq_take]
  constructor
  · rintro ⟨hlen, hbytes⟩
    rwa [← hlen]
  · intro hbytes
    have hlen := congrArg List.length hbytes
    rw [List.length_take_of_le (Nat.sub_le _ _), List.length_take_of_le (Nat.sub_le _ _)] at hlen
    exact ⟨hlen, by rwa [← hlen] at hbytes⟩

theorem equalFloats_iff {half inf a b : ℕ} : equalFloats half inf a b = true ↔
    (if a % half = 0 then 0 else a) = (if b % half = 0 then 0 else b) ∧ a % half ≤ inf := by
  rw [equalFloats, decide_eq_true_iff]
  constructor
  · rintro ⟨ha, -, rfl | ⟨hzero, hzero'⟩⟩
    · exact ⟨rfl, ha⟩
    · exact ⟨by rw [if_pos hzero, if_pos hzero'], ha⟩
  · rintro ⟨hcanon, ha⟩
    split_ifs at hcanon with hzero hzero' hzero'
    · exact ⟨ha, by omega, .inr ⟨hzero, hzero'⟩⟩
    · exact absurd (by rw [← hcanon, Nat.zero_mod]) hzero'
    · exact absurd (by rw [hcanon, Nat.zero_mod]) hzero
    · exact ⟨ha, hcanon ▸ ha, .inl hcanon⟩

mutual

/-- **What `==` compares**, item by item. -/
theorem Object.equal_iff_canon (x y : Object) :
    x.equal y = true ↔ x.canon = y.canon ∧ x.Ordered := by
  cases x with
  | nil | boolean | positiveInteger | negativeInteger =>
    cases y <;> simp [Object.equal, Object.canon, Object.Ordered]
  | str bytes | bin bytes =>
    cases y <;> simp [Object.equal, Object.canon, Object.Ordered, ← sameBytes_iff]
  | ext bytes =>
    cases y <;> simp [Object.equal, Object.canon, Object.Ordered, ← sameExt_iff]
  | float32 bits =>
    cases y with
    | float32 bits' =>
      rw [Object.equal, equalFloats_iff, Object.canon, Object.canon, Object.float32.injEq,
        ← UInt32.toNat_inj, apply_ite UInt32.toNat, apply_ite UInt32.toNat]
      rfl
    | _ => simp [Object.equal, Object.canon]
  | float64 bits =>
    cases y with
    | float64 bits' =>
      rw [Object.equal, equalFloats_iff, Object.canon, Object.canon, Object.float64.injEq,
        ← UInt64.toNat_inj, apply_ite UInt64.toNat, apply_ite UInt64.toNat]
      rfl
    | _ => simp [Object.equal, Object.canon]
  | array items =>
    cases y with
    | array items' =>
      rw [Object.equal, Bool.and_eq_true, beq_iff_eq, Object.canon, Object.canon,
        Object.array.injEq]
      constructor
      · rintro ⟨hlen, hequal⟩
        exact (equalItems_iff items items' hlen).mp hequal
      · rintro ⟨hcanon, hordered⟩
        have hlen := congrArg List.length hcanon
        rw [length_canonItems, length_canonItems] at hlen
        exact ⟨hlen, (equalItems_iff items items' hlen).mpr ⟨hcanon, hordered⟩⟩
    | _ => simp [Object.equal, Object.canon]
  | map items =>
    cases y with
    | map items' =>
      rw [Object.equal, Bool.and_eq_true, beq_iff_eq, Object.canon, Object.canon,
        Object.map.injEq]
      constructor
      · rintro ⟨hlen, hequal⟩
        exact (equalPairs_iff items items' hlen).mp hequal
      · rintro ⟨hcanon, hordered⟩
        have hlen := congrArg List.length hcanon
        rw [length_canonPairs, length_canonPairs] at hlen
        exact ⟨hlen, (equalPairs_iff items items' hlen).mpr ⟨hcanon, hordered⟩⟩
    | _ => simp [Object.equal, Object.canon]

theorem equalItems_iff (xs ys : List Object) (h : xs.length = ys.length) :
    equalItems xs ys = true ↔ canonItems xs = canonItems ys ∧ OrderedItems xs := by
  match xs, ys, h with
  | [], [], _ => simp [equalItems, OrderedItems]
  | x :: xs, y :: ys, h =>
    have hx := Object.equal_iff_canon x y
    have hxs := equalItems_iff xs ys (Nat.succ.inj h)
    rw [equalItems, Bool.and_eq_true, hx, hxs, canonItems, canonItems, OrderedItems,
      List.cons_eq_cons, and_and_and_comm]

theorem equalPairs_iff (xs ys : List (Object × Object)) (h : xs.length = ys.length) :
    equalPairs xs ys = true ↔ canonPairs xs = canonPairs ys ∧ OrderedPairs xs := by
  match xs, ys, h with
  | [], [], _ => simp [equalPairs, OrderedPairs]
  | (key, val) :: xs, (key', val') :: ys, h =>
    have hkey := Object.equal_iff_canon key key'
    have hval := Object.equal_iff_canon val val'
    have hxs := equalPairs_iff xs ys (Nat.succ.inj h)
    rw [equalPairs, Bool.and_eq_true, Bool.and_eq_true, hkey, hval, hxs, canonPairs, canonPairs,
      OrderedPairs, List.cons_eq_cons, Prod.mk.injEq]
    tauto

end

/-- The sign of a zero does not make it a NaN. -/
theorem mod_le_iff {half inf n : ℕ} :
    (if n % half = 0 then 0 else n) % half ≤ inf ↔ n % half ≤ inf := by
  split_ifs with hzero
  · rw [hzero, Nat.zero_mod]
  · rfl

mutual

theorem Object.ordered_canon (x : Object) : x.canon.Ordered ↔ x.Ordered := by
  cases x with
  | nil | boolean | positiveInteger | negativeInteger | str | bin | ext => exact Iff.rfl
  | float32 bits =>
    rw [Object.canon, Object.Ordered, apply_ite UInt32.toNat]
    exact mod_le_iff
  | float64 bits =>
    rw [Object.canon, Object.Ordered, apply_ite UInt64.toNat]
    exact mod_le_iff
  | array items => exact orderedItems_canon items
  | map items => exact orderedPairs_canon items

theorem orderedItems_canon (items : List Object) :
    OrderedItems (canonItems items) ↔ OrderedItems items := by
  match items with
  | [] => exact Iff.rfl
  | item :: items => exact and_congr (Object.ordered_canon item) (orderedItems_canon items)

theorem orderedPairs_canon (items : List (Object × Object)) :
    OrderedPairs (canonPairs items) ↔ OrderedPairs items := by
  match items with
  | [] => exact Iff.rfl
  | (key, val) :: items =>
    exact and_congr (and_congr (Object.ordered_canon key) (Object.ordered_canon val))
      (orderedPairs_canon items)

end

/-- **What `==` is**: objects are equal when they are the same but for the last byte of each ext and
the signs of zeros, and hold no NaN.  So it is symmetric and transitive, and an object equals itself
unless there is a NaN in it. -/
theorem Object.equal_spec (x y z : Object) :
    (x.equal y = true ↔ x.canon = y.canon ∧ x.Ordered) ∧ (x.equal x = true ↔ x.Ordered) ∧
      (x.equal y = true → y.equal x = true) ∧
      (x.equal y = true → y.equal z = true → x.equal z = true) := by
  rw [x.equal_iff_canon x, x.equal_iff_canon y, y.equal_iff_canon x, y.equal_iff_canon z,
    x.equal_iff_canon z]
  refine ⟨Iff.rfl, and_iff_right rfl, ?_, ?_⟩
  · rintro ⟨hcanon, hordered⟩
    exact ⟨hcanon.symm, y.ordered_canon.mp (hcanon ▸ x.ordered_canon.mpr hordered)⟩
  · rintro ⟨hcanon, hordered⟩ ⟨hcanon', -⟩
    exact ⟨hcanon.trans hcanon', hordered⟩

/-- Two exts of type 1 whose data differ. -/
example : (Object.ext [1, 7, 8]).equal (.ext [1, 7, 9]) = true := by decide

end Msgpack

end RaftCore
