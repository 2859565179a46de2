import RaftCore.Msgpack.Delivery

/-!
# Msgpack/Adaptor — packing a value and converting into a target

`v1/adaptor`: each type packs its values and converts an object into a target, which has contents
already.  A number, a boolean or a string replaces what the target held; a vector or a deque is
resized first and each element converted in place (`sequence`); a class with `MSGPACK_DEFINE` packs
its fields as an array and converts them one after another, leaving alone those the array is too
short for (`defineArray`).  A conversion that throws has no result here, and neither has packing.

A value *round-trips* when its bytes, wherever they stand, are unpacked into an object that converts
into it whatever the target held (`RoundTrips`).  An adaptor *carries* a value whose bytes deliver
such an object (`Carries`); a sequence is carried when its elements are, and a record when its
fields are.

An enumeration is cast to `int` and back (`enumeration`).  The code stores a number that names no
enumerator as well; here it is no value of the type, and the conversion ends there.
-/

namespace RaftCore

namespace Msgpack

/-- How a type is packed, and how an object is converted into a target of it. -/
structure Adaptor (α : Type) where
  pack : α → Except Error (List UInt8)
  convert : Object → α → Except Error α

namespace Adaptor

def uint64 : Adaptor UInt64 where
  pack d := .ok (packImpUint64 d)
  convert
    | .positiveInteger u64, _ => .ok u64
    | _, _ => .error .typeError

/-- `convert_integer<int>`, with its bounds. -/
def int : Adaptor Int32 where
  pack d := .ok (packImpInt32 d)
  convert
    | .positiveInteger u64, _ =>
      if Int32.maxValue.toInt < u64.toNat then .error .typeError else .ok (Int32.ofNat u64.toNat)
    | .negativeInteger i64, _ =>
      if i64.toInt < Int32.minValue.toInt then .error .typeError else .ok i64.toInt32
    | _, _ => .error .typeError

def bool : Adaptor Bool where
  pack v := .ok (if v then packTrue else packFalse)
  convert
    | .boolean b, _ => .ok b
    | _, _ => .error .typeError

def string : Adaptor (List UInt8) where
  pack v := do
    let size ← checkedGetContainerSize v.length
    .ok (packStr size ++ v)
  convert
    | .bin bytes, _ => .ok bytes
    | .str bytes, _ => .ok bytes
    | _, _ => .error .typeError

/-! ## Sequences -/

variable {α : Type} (adaptor : Adaptor α)

/-- The elements, one after another. -/
def packAll : List α → Except Error (List UInt8)
  | [] => .ok []
  | x :: xs => do
    let part ← adaptor.pack x
    let rest ← packAll xs
    .ok (part ++ rest)

/-- Each object into the element it meets. -/
def convertAll : List Object → List α → Except Error (List α)
  | item :: items, x :: xs => do
    let x ← adaptor.convert item x
    let xs ← convertAll items xs
    .ok (x :: xs)
  | _, _ => .ok []

/-- `resize`: elements past the new size go, missing ones are `blank`. -/
def resize (blank : α) (n : ℕ) (v : List α) : List α :=
  v.take n ++ List.replicate (n - v.length) blank

/-- A `std::vector` or a `std::deque`. -/
def sequence (blank : α) : Adaptor (List α) where
  pack v := do
    let size ← checkedGetContainerSize v.length
    let body ← adaptor.packAll v
    .ok (packArray size ++ body)
  convert
    | .array items, v => adaptor.convertAll items (resize blank items.length v)
    | _, _ => .error .typeError

/-- The place of an enumerator among all of them, which its cast to `int` is. -/
def castInt {ε : Type} [DecidableEq ε] (enumerators : List ε) (v : ε) : Int32 :=
  Int32.ofNat (enumerators.idxOf v)

/-- An enumeration, as the `int` it is cast to. -/
def enumeration {ε : Type} [DecidableEq ε] (enumerators : List ε) : Adaptor ε where
  pack v := int.pack (castInt enumerators v)
  convert o v := do
    let i ← int.convert o (castInt enumerators v)
    match enumerators.find? fun v => castInt enumerators v = i with
    | some v => .ok v
    | none => .error .typeError

end Adaptor

/-! ## Records -/

/-- A member of a class, as `MSGPACK_DEFINE` lists it. -/
structure Field (ρ : Type) where
  {β : Type}
  adaptor : Adaptor β
  get : ρ → β
  set : ρ → β → ρ

variable {ρ : Type}

def packFields : List (Field ρ) → ρ → Except Error (List UInt8)
  | [], _ => .ok []
  | field :: fields, r => do
    let part ← field.adaptor.pack (field.get r)
    let rest ← packFields fields r
    .ok (part ++ rest)

def convertFields : List (Field ρ) → List Object → ρ → Except Error ρ
  | field :: fields, item :: items, target => do
    let v ← field.adaptor.convert item (field.get target)
    convertFields fields items (field.set target v)
  | _, _, target => .ok target

/-- `define_array`. -/
def Adaptor.defineArray (fields : List (Field ρ)) : Adaptor ρ where
  pack r := do
    let body ← packFields fields r
    .ok (packArray (UInt32.ofNat fields.length) ++ body)
  convert
    | .array items, target => convertFields fields items target
    | _, _ => .error .typeError

/-! ## Round trips -/

/-- **A value comes back**: its bytes deliver an object that makes any target equal to it. -/
def Carries {α : Type} (adaptor : Adaptor α) (depth : ℕ) (x : α) : Prop :=
  ∃ bytes obj, adaptor.pack x = .ok bytes ∧ Delivers depth bytes obj ∧
    ∀ target, adaptor.convert obj target = .ok x

/-- **Packed, unpacked and converted**: from any offset on, the bytes of a value are all that is
consumed, whatever follows them, and any target becomes equal to it. -/
def RoundTrips {α : Type} (adaptor : Adaptor α) (x : α) : Prop :=
  ∃ bytes obj, adaptor.pack x = .ok bytes ∧
    (∀ before after, unpack {} (before ++ bytes ++ after) before.length
      = .ok (obj, before.length + bytes.length)) ∧
    ∀ target, adaptor.convert obj target = .ok x

variable {α : Type} {adaptor : Adaptor α} {depth : ℕ} {x : α}

theorem Carries.mono {depth' : ℕ} (h : Carries adaptor depth x) (hle : depth ≤ depth') :
    Carries adaptor depth' x := by
  obtain ⟨bytes, obj, hpack, hdel, hconv⟩ := h
  exact ⟨bytes, obj, hpack, hdel.mono hle, hconv⟩

theorem Carries.roundTrips (h : Carries adaptor depth x) (hdepth : depth ≤ UnpackLimit.depth {}) :
    RoundTrips adaptor x := by
  obtain ⟨bytes, obj, hpack, hdel, hconv⟩ := h
  exact ⟨bytes, obj, hpack, hdel.unpack_eq hdepth, hconv⟩

theorem carries_uint64 (d : UInt64) : Carries .uint64 0 d :=
  ⟨_, _, rfl, delivers_packImpUint64 d, fun _ => rfl⟩

theorem carries_bool (v : Bool) : Carries .bool 0 v :=
  ⟨_, _, rfl, delivers_boolean v, fun _ => rfl⟩

theorem carries_int (d : Int32) : Carries .int 0 d := by
  refine ⟨_, _, rfl, delivers_packImpInt32 d, fun target => ?_⟩
  have hlo := d.le_toInt
  have hhi := d.toInt_lt
  rw [unpackInt]
  split_ifs with hsign
  · have hword : (UInt64.ofNat d.toInt.toNat).toNat = d.toInt.toNat := by
      rw [UInt64.toNat_ofNat']
      omega
    have hback : Int32.ofNat d.toInt.toNat = d := by
      rw [← Int32.ofInt_eq_ofNat, Int.toNat_of_nonneg hsign, Int32.ofInt_toInt]
    simp only [Adaptor.int, hword, hback]
    refine if_neg ?_
    change ¬(2 ^ 31 - 1 : ℤ) < _
    omega
  · have hword : (Int64.ofInt d.toInt).toInt = d.toInt :=
      Int64.toInt_ofInt_of_le (by omega) (by omega)
    have hback : (Int64.ofInt d.toInt).toInt32 = d := by
      rw [← Int32.ofInt_int64ToInt, hword, Int32.ofInt_toInt]
    simp only [Adaptor.int, hword, hback]
    refine if_neg ?_
    change ¬_ < (-2 ^ 31 : ℤ)
    omega

theorem carries_string {v : List UInt8} (hv : v.length < 2 ^ 32) : Carries .string 0 v := by
  obtain ⟨size, hsize, hlen⟩ := checkedGetContainerSize_of_lt hv
  refine ⟨packStr size ++ v, .str v, ?_, delivers_packStr hlen, fun _ => rfl⟩
  simp only [Adaptor.string, hsize]
  rfl

/-- An enumerator is found again by its cast. -/
theorem find?_castInt {ε : Type} [DecidableEq ε] {enumerators : List ε} {v : ε}
    (hv : v ∈ enumerators) (hlen : enumerators.length < 2 ^ 31) :
    enumerators.find? (fun w => Adaptor.castInt enumerators w = Adaptor.castInt enumerators v)
      = some v := by
  cases hfind : enumerators.find?
      fun w => Adaptor.castInt enumerators w = Adaptor.castInt enumerators v with
  | none => simpa using List.find?_eq_none.mp hfind v hv
  | some w =>
    have hw := List.mem_of_find?_eq_some hfind
    have hcast : Adaptor.castInt enumerators w = Adaptor.castInt enumerators v := by
      simpa using List.find?_some hfind
    have hidx : enumerators.idxOf w = enumerators.idxOf v := by
      have hwlt := List.idxOf_lt_length_of_mem hw
      have hvlt := List.idxOf_lt_length_of_mem hv
      have hint := congrArg Int32.toInt hcast
      rw [Adaptor.castInt, Adaptor.castInt, Int32.toInt_ofNat_of_lt (by omega),
        Int32.toInt_ofNat_of_lt (by omega)] at hint
      omega
    rw [(List.idxOf_inj hw).mp hidx]

theorem carries_enumeration {ε : Type} [DecidableEq ε] {enumerators : List ε} {v : ε}
    (hv : v ∈ enumerators) (hlen : enumerators.length < 2 ^ 31) :
    Carries (.enumeration enumerators) 0 v := by
  obtain ⟨bytes, obj, hpack, hdel, hconv⟩ := carries_int (Adaptor.castInt enumerators v)
  refine ⟨bytes, obj, hpack, hdel, fun target => ?_⟩
  simp only [Adaptor.enumeration, hconv]
  change (match enumerators.find?
      fun w => Adaptor.castInt enumerators w = Adaptor.castInt enumerators v with
    | some v => Except.ok v
    | none => Except.error Error.typeError) = _
  rw [find?_castInt hv hlen]

/-- The elements come back, into as many as there are. -/
theorem carries_all {xs : List α} (h : ∀ x ∈ xs, Carries adaptor depth x) :
    ∃ parts objs, adaptor.packAll xs = .ok parts.flatten ∧
      List.Forall₂ (Delivers depth) parts objs ∧ objs.length = xs.length ∧
      ∀ targets, targets.length = xs.length → adaptor.convertAll objs targets = .ok xs := by
  induction xs with
  | nil => exact ⟨[], [], rfl, .nil, rfl, fun _ _ => rfl⟩
  | cons x xs ih =>
    obtain ⟨part, obj, hpack, hdel, hconv⟩ := h x List.mem_cons_self
    obtain ⟨parts, objs, hpacks, hdels, hlen, hconvs⟩ :=
      ih fun x hx => h x (List.mem_cons_of_mem _ hx)
    refine ⟨part :: parts, obj :: objs, ?_, .cons hdel hdels, by simp [hlen], ?_⟩
    · rw [Adaptor.packAll, hpack, hpacks]
      rfl
    · rintro (- | ⟨target, targets⟩) htargets
      · simp at htargets
      · have hrest := hconvs targets (by simpa using htargets)
        rw [Adaptor.convertAll, hconv, hrest]
        rfl

theorem length_resize (blank : α) (n : ℕ) (v : List α) : (Adaptor.resize blank n v).length = n := by
  simp only [Adaptor.resize, List.length_append, List.length_take, List.length_replicate]
  omega

theorem carries_sequence (blank : α) {xs : List α} (hxs : xs.length < 2 ^ 32)
    (h : ∀ x ∈ xs, Carries adaptor depth x) :
    Carries (adaptor.sequence blank) (depth + 1) xs := by
  obtain ⟨parts, objs, hpacks, hdels, hlen, hconvs⟩ := carries_all h
  obtain ⟨size, hsize, hn⟩ := checkedGetContainerSize_of_lt hxs
  refine ⟨packArray size ++ parts.flatten, .array objs, ?_, delivers_array hdels (by omega),
    fun target => hconvs _ (by rw [length_resize, hlen])⟩
  simp only [Adaptor.sequence, hsize, hpacks]
  rfl

/-- The fields come back, one after another. -/
theorem carries_fields {fields : List (Field ρ)} {r : ρ}
    (h : ∀ field ∈ fields, Carries field.adaptor depth (field.get r)) :
    ∃ parts objs, packFields fields r = .ok parts.flatten ∧
      List.Forall₂ (Delivers depth) parts objs ∧ objs.length = fields.length ∧
      ∀ target, convertFields fields objs target
        = .ok (fields.foldl (fun target field => field.set target (field.get r)) target) := by
  induction fields with
  | nil => exact ⟨[], [], rfl, .nil, rfl, fun _ => rfl⟩
  | cons field fields ih =>
    obtain ⟨part, obj, hpack, hdel, hconv⟩ := h field List.mem_cons_self
    obtain ⟨parts, objs, hpacks, hdels, hlen, hconvs⟩ :=
      ih fun field hfield => h field (List.mem_cons_of_mem _ hfield)
    refine ⟨part :: parts, obj :: objs, ?_, .cons hdel hdels, by simp [hlen], fun target => ?_⟩
    · rw [packFields, hpack, hpacks]
      rfl
    · rw [convertFields, hconv]
      exact hconvs _

/-- **A record comes back** when its fields do, and setting them all leaves nothing of the
target. -/
theorem carries_defineArray {fields : List (Field ρ)} {r : ρ} (hfields : fields.length < 2 ^ 32)
    (hset : ∀ target, fields.foldl (fun target field => field.set target (field.get r)) target = r)
    (h : fields.Forall fun field => Carries field.adaptor depth (field.get r)) :
    Carries (.defineArray fields) (depth + 1) r := by
  obtain ⟨parts, objs, hpacks, hdels, hlen, hconvs⟩ :=
    carries_fields (List.forall_iff_forall_mem.mp h)
  have hn : (UInt32.ofNat fields.length).toNat = objs.length := by
    rw [UInt32.toNat_ofNat', hlen, Nat.mod_eq_of_lt hfields]
  refine ⟨packArray (UInt32.ofNat fields.length) ++ parts.flatten, .array objs, ?_,
    delivers_array hdels hn, fun target => (hconvs target).trans (by rw [hset])⟩
  simp only [Adaptor.defineArray, hpacks]
  rfl

end Msgpack

end RaftCore
