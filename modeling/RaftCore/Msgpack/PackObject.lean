import RaftCore.Msgpack.Format

/-!
# Msgpack/PackObject — an object as bytes

`pack<object>` of `v1/object.hpp` packs an object part by part, each with the function of
`v1/pack.hpp` for its type (`packObject`).

What it writes is an encoding of the object (`Object.Valid.encodes`), so it is unpacked again from
wherever it stands (`unpack_packObject`).  **No encoding is shorter** (`length_packObject_le`), and
so whatever bytes were accepted, packing their object again gives bytes that are accepted under the
same limits, for the same object (`repack`).

A `FLOAT32` is a `double` in the object, and what was a signalling NaN is none any more when it is
packed (`throughDouble`): objects without one are `Quiet`.
-/

namespace RaftCore

namespace Msgpack

open BigEndian

def packNil : List UInt8 := [0xc0]

/-- `pack_imp_int64`. -/
def packImpInt64 (d : Int64) : List UInt8 :=
  let bits := d.toUInt64.toNat
  if d.toInt < -2 ^ 5 then
    if d.toInt < -2 ^ 15 then
      if d.toInt < -2 ^ 31 then 0xd3 :: store 8 bits
      else 0xd2 :: store 4 bits
    else if d.toInt < -2 ^ 7 then 0xd1 :: store 2 bits
    else 0xd0 :: store 1 bits
  else if d.toInt < 2 ^ 7 then store 1 bits
  else if d.toInt < 2 ^ 16 then
    if d.toInt < 2 ^ 8 then 0xcc :: store 1 bits
    else 0xcd :: store 2 bits
  else if d.toInt < 2 ^ 32 then 0xce :: store 4 bits
  else 0xcf :: store 8 bits

/-- A `float` that was a `double` in between. -/
def throughDouble (bits : UInt32) : UInt32 :=
  if bits &&& 0x7f800000 = 0x7f800000 ∧ bits &&& 0x007fffff ≠ 0 then bits ||| 0x00400000 else bits

def packFloat (bits : UInt32) : List UInt8 := 0xca :: store 4 bits.toNat

def packDouble (bits : UInt64) : List UInt8 := 0xcb :: store 8 bits.toNat

def packMap (n : UInt32) : List UInt8 :=
  if n.toNat < 16 then [(0x80 ||| n).toUInt8]
  else if n.toNat < 65536 then 0xde :: store 2 n.toNat
  else 0xdf :: store 4 n.toNat

def packBin (l : UInt32) : List UInt8 :=
  if l.toNat < 256 then 0xc4 :: store 1 l.toNat
  else if l.toNat < 65536 then 0xc5 :: store 2 l.toNat
  else 0xc6 :: store 4 l.toNat

def packExt (l : ℕ) (type : UInt8) : List UInt8 :=
  match l with
  | 1 => [0xd4, type]
  | 2 => [0xd5, type]
  | 4 => [0xd6, type]
  | 8 => [0xd7, type]
  | 16 => [0xd8, type]
  | _ =>
    if l < 256 then 0xc7 :: (store 1 l ++ [type])
    else if l < 65536 then 0xc8 :: (store 2 l ++ [type])
    else 0xc9 :: (store 4 l ++ [type])

/-- `via.str.size` and its like; `via.ext.size` leaves out the type. -/
def viaSize {α : Type} (parts : List α) : UInt32 := UInt32.ofNat parts.length

mutual

/-- `pack<object>`. -/
def packObject : Object → List UInt8
  | .nil => packNil
  | .boolean b => if b then packTrue else packFalse
  | .positiveInteger u64 => packImpUint64 u64
  | .negativeInteger i64 => packImpInt64 i64
  | .float32 bits => packFloat (throughDouble bits)
  | .float64 bits => packDouble bits
  | .str bytes => packStr (viaSize bytes) ++ bytes
  | .bin bytes => packBin (viaSize bytes) ++ bytes
  | .ext bytes => packExt (viaSize bytes.tail).toNat (bytes.headD 0) ++ bytes.tail
  | .array items => packArray (viaSize items) ++ packItems items
  | .map items => packMap (viaSize items) ++ packPairs items

def packItems : List Object → List UInt8
  | [] => []
  | item :: items => packObject item ++ packItems items

def packPairs : List (Object × Object) → List UInt8
  | [] => []
  | (key, val) :: items => packObject key ++ (packObject val ++ packPairs items)

end

/-! ## An object is an item and what goes into it -/

/-- The item an object is, or starts with. -/
def Object.token : Object → Token
  | .nil => .nil
  | .boolean b => .boolean b
  | .positiveInteger u64 => .uint u64
  | .negativeInteger i64 => .int i64.toInt
  | .float32 bits => .float bits
  | .float64 bits => .double bits
  | .str bytes => .str bytes
  | .bin bytes => .bin bytes
  | .ext bytes => .ext bytes
  | .array items => .array items.length
  | .map items => .map items.length

def Object.items : Object → List Object
  | .array items => items
  | .map items => items.flatMap fun p => [p.1, p.2]
  | _ => []

/-- What is written of an item. -/
def packToken : Token → List UInt8
  | .nil => packNil
  | .boolean b => if b then packTrue else packFalse
  | .uint u64 => packImpUint64 u64
  | .int d => packImpInt64 (Int64.ofInt d)
  | .float bits => packFloat (throughDouble bits)
  | .double bits => packDouble bits
  | .str bytes => packStr (viaSize bytes) ++ bytes
  | .bin bytes => packBin (viaSize bytes) ++ bytes
  | .ext bytes => packExt (viaSize bytes.tail).toNat (bytes.headD 0) ++ bytes.tail
  | .array size => packArray (UInt32.ofNat size)
  | .map size => packMap (UInt32.ofNat size)

theorem packItems_eq (items : List Object) : packItems items = (items.map packObject).flatten := by
  induction items with
  | nil => rw [packItems, List.map_nil, List.flatten_nil]
  | cons item items ih => rw [packItems, ih, List.map_cons, List.flatten_cons]

theorem packPairs_eq (items : List (Object × Object)) :
    packPairs items = ((items.flatMap fun p => [p.1, p.2]).map packObject).flatten := by
  induction items with
  | nil => rw [packPairs, List.flatMap_nil, List.map_nil, List.flatten_nil]
  | cons p items ih =>
    obtain ⟨key, val⟩ := p
    rw [packPairs, ih]
    rfl

/-- **The item, and then what goes into it.** -/
theorem packObject_eq (obj : Object) :
    packObject obj = packToken obj.token ++ (obj.items.map packObject).flatten := by
  cases obj with
  | negativeInteger i64 =>
    rw [packObject, Object.token, packToken, Int64.ofInt_toInt]
    exact (List.append_nil _).symm
  | array items => rw [packObject, packItems_eq]; rfl
  | map items => rw [packObject, packPairs_eq]; rfl
  | _ => rw [packObject]; exact (List.append_nil _).symm

/-! ## What is written spells the item -/

theorem toNat_viaSize_le {α : Type} (parts : List α) : (viaSize parts).toNat ≤ parts.length := by
  rw [viaSize, UInt32.toNat_ofNat']
  exact Nat.mod_le _ _

theorem toNat_viaSize {α : Type} {parts : List α} (h : parts.length < 2 ^ 32) :
    (viaSize parts).toNat = parts.length := by
  rw [viaSize, UInt32.toNat_ofNat', Nat.mod_eq_of_lt h]

theorem spells_uint (k : Fin 4) {d : UInt64} (h : d.toNat < 256 ^ 2 ^ k.val) :
    Spells (UInt8.ofNat (0xcc + k) :: store (2 ^ k.val) d.toNat) (.uint d) := by
  have hspells := Spells.uint k (length_store (2 ^ k.val) d.toNat)
  rwa [load_store_of_lt h, UInt64.ofNat_toNat] at hspells

theorem spells_int (k : Fin 4) {bits : ℕ} {i : ℤ}
    (hbits : (bits : ℤ) % (256 ^ 2 ^ k.val : ℕ) = i % (256 ^ 2 ^ k.val : ℕ))
    (hlo : -((256 ^ 2 ^ k.val / 2 : ℕ) : ℤ) ≤ i) (hhi : i < (256 ^ 2 ^ k.val / 2 : ℕ)) :
    Spells (UInt8.ofNat (0xd0 + k) :: store (2 ^ k.val) bits) (.int i) := by
  have hspells := Spells.int k (length_store (2 ^ k.val) bits)
  rwa [loadSigned_store hbits hlo hhi] at hspells

theorem spells_packImpUint64 (d : UInt64) : Spells (packImpUint64 d) (.uint d) := by
  have hbyte : [d.toUInt8] = store 1 d.toNat := by
    rw [store, store, pow_zero, Nat.div_one]
    rfl
  rw [packImpUint64]
  split_ifs with h8 h7 h16 h32
  · have hsel : d.toUInt8.toNat = d.toNat := by
      rw [UInt64.toNat_toUInt8, Nat.mod_eq_of_lt h8]
    have hback : d.toUInt8.toUInt64 = d := by
      rw [← UInt64.toNat_inj, UInt8.toNat_toUInt64, hsel]
    have hspells := Spells.positiveFixint (hsel ▸ h7)
    rwa [hback] at hspells
  · rw [hbyte]
    exact spells_uint 0 h8
  · exact spells_uint 1 h16
  · exact spells_uint 2 h32
  · exact spells_uint 3 d.toNat_lt

/-- The bits of an `int64_t` and its value. -/
theorem toNat_toUInt64_emod (d : Int64) : (d.toUInt64.toNat : ℤ) = d.toInt % (2 ^ 64 : ℕ) := by
  have h : d.toInt = (d.toUInt64.toNat : ℤ).bmod (2 ^ 64) := BitVec.toInt_eq_toNat_bmod d.toBitVec
  have hlt := d.toUInt64.toNat_lt
  rw [h, Int.bmod_emod, Int.emod_eq_of_lt (by omega) (by omega)]

theorem spells_packImpInt64 {d : Int64} (hneg : d.toInt < 0) :
    Spells (packImpInt64 d) (.int d.toInt) := by
  have hbits := toNat_toUInt64_emod d
  have hlo := d.le_toInt
  rw [packImpInt64]
  generalize d.toUInt64.toNat = bits at *
  generalize d.toInt = i at *
  have hword : ∀ {m : ℕ}, m ∣ 2 ^ 64 → (bits : ℤ) % m = i % m := fun {m} hm => by
    rw [hbits, Int.emod_emod_of_dvd _ (Int.natCast_dvd_natCast.mpr hm)]
  split_ifs with h5 h15 h31 h7 h7' h16 h8 h32
  · exact spells_int 3 (hword (by norm_num)) (by norm_num; omega) (by norm_num; omega)
  · exact spells_int 2 (hword (by norm_num)) (by norm_num; omega) (by norm_num; omega)
  · exact spells_int 1 (hword (by norm_num)) (by norm_num; omega) (by norm_num; omega)
  · exact spells_int 0 (hword (by norm_num)) (by norm_num; omega) (by norm_num; omega)
  · have hsigned : loadSigned (store 1 bits) = i :=
      loadSigned_store (hword (by norm_num)) (by norm_num; omega) (by norm_num; omega)
    have hload : load (store 1 bits) = bits % 256 := load_store 1 bits
    obtain ⟨b, hb⟩ : ∃ b, store 1 bits = [b] := ⟨_, rfl⟩
    rw [hb, load_singleton] at hload
    rw [hb] at hsigned ⊢
    have hspells := Spells.negativeFixint (b := b) (by omega)
    rwa [hsigned] at hspells
  all_goals omega

/-- A short length in its selector. -/
theorem selector_eq (base : UInt32) (width : ℕ) {n : UInt32} (hbase : base.toNat + width ≤ 256)
    (hor : ∀ l < width, base.toNat ||| l = base.toNat + l) (hn : n.toNat < width) :
    (base ||| n).toUInt8 = UInt8.ofNat (base.toNat + n.toNat) :=
  eq_ofNat (toNat_selector hbase hn (hor _ hn))

theorem spells_packStr {s : List UInt8} {n : UInt32} (hn : n.toNat = s.length) :
    Spells (packStr n ++ s) (.str s) := by
  have hlong : ∀ k : Fin 3, s.length < 256 ^ 2 ^ k.val →
      Spells (UInt8.ofNat (0xd9 + k) :: store (2 ^ k.val) s.length ++ s) (.str s) :=
    fun k hs => .str k (length_store _ _) (load_store_of_lt hs).symm
  have hlt := n.toNat_lt
  rw [packStr]
  split_ifs with h32 h256 h65536
  · rw [selector_eq 0xa0 32 (by decide) (by decide) h32, hn]
    exact .fixstr (hn ▸ h32)
  · rw [hn]
    exact hlong 0 (hn ▸ h256)
  · rw [hn]
    exact hlong 1 (hn ▸ h65536)
  · rw [hn]
    exact hlong 2 (hn ▸ hlt)

theorem spells_packBin {s : List UInt8} {n : UInt32} (hn : n.toNat = s.length) :
    Spells (packBin n ++ s) (.bin s) := by
  have hlong : ∀ k : Fin 3, s.length < 256 ^ 2 ^ k.val →
      Spells (UInt8.ofNat (0xc4 + k) :: store (2 ^ k.val) s.length ++ s) (.bin s) :=
    fun k hs => .bin k (length_store _ _) (load_store_of_lt hs).symm
  have hlt := n.toNat_lt
  rw [packBin]
  split_ifs with h256 h65536
  · rw [hn]
    exact hlong 0 (hn ▸ h256)
  · rw [hn]
    exact hlong 1 (hn ▸ h65536)
  · rw [hn]
    exact hlong 2 (hn ▸ hlt)

theorem spells_packExt {s : List UInt8} {type : UInt8} (hs : s.length < 2 ^ 32) :
    Spells (packExt s.length type ++ s) (.ext (type :: s)) := by
  have hlong : ∀ k : Fin 3, s.length < 256 ^ 2 ^ k.val →
      Spells (UInt8.ofNat (0xc7 + k) :: (store (2 ^ k.val) s.length ++ [type]) ++ s)
        (.ext (type :: s)) := by
    intro k hlt
    rw [List.cons_append, List.append_assoc]
    exact .ext k (length_store _ _) (congrArg (· + 1) (load_store_of_lt hlt).symm)
  have hfix : ∀ k : Fin 5, s.length = 2 ^ k.val →
      Spells ([UInt8.ofNat (0xd4 + k), type] ++ s) (.ext (type :: s)) :=
    fun k hk => .fixext k (congrArg (· + 1) hk)
  generalize hl : s.length = l at *
  rw [packExt.eq_def]
  split
  · exact hfix 0 rfl
  · exact hfix 1 rfl
  · exact hfix 2 rfl
  · exact hfix 3 rfl
  · exact hfix 4 rfl
  · split_ifs with h256 h65536
    · exact hlong 0 h256
    · exact hlong 1 h65536
    · exact hlong 2 hs

theorem spells_packArray (n : UInt32) : Spells (packArray n) (.array n.toNat) := by
  have hlong : ∀ k : Fin 2, n.toNat < 256 ^ 2 ^ (k.val + 1) →
      Spells (UInt8.ofNat (0xdc + k) :: store (2 ^ (k.val + 1)) n.toNat) (.array n.toNat) := by
    intro k hk
    have hspells := Spells.array k (length_store (2 ^ (k.val + 1)) n.toNat)
    rwa [load_store_of_lt hk] at hspells
  rw [packArray]
  split_ifs with h16 h65536
  · rw [selector_eq 0x90 16 (by decide) (by decide) h16]
    exact .fixarray h16
  · exact hlong 0 h65536
  · exact hlong 1 n.toNat_lt

theorem spells_packMap (n : UInt32) : Spells (packMap n) (.map n.toNat) := by
  have hlong : ∀ k : Fin 2, n.toNat < 256 ^ 2 ^ (k.val + 1) →
      Spells (UInt8.ofNat (0xde + k) :: store (2 ^ (k.val + 1)) n.toNat) (.map n.toNat) := by
    intro k hk
    have hspells := Spells.map k (length_store (2 ^ (k.val + 1)) n.toNat)
    rwa [load_store_of_lt hk] at hspells
  rw [packMap]
  split_ifs with h16 h65536
  · rw [selector_eq 0x80 16 (by decide) (by decide) h16]
    exact .fixmap h16
  · exact hlong 0 h65536
  · exact hlong 1 n.toNat_lt

/-- The items there are bytes for: a number with a sign has one, and sizes have 32 bits. -/
def Token.Sized : Token → Prop
  | .int d => -2 ^ 63 ≤ d ∧ d < 0
  | .str bytes => bytes.length < 2 ^ 32
  | .bin bytes => bytes.length < 2 ^ 32
  | .ext bytes => bytes ≠ [] ∧ bytes.length ≤ 2 ^ 32
  | .array size => size < 2 ^ 32
  | .map size => size < 2 ^ 32
  | _ => True

/-- A signalling NaN is not what it was once it was a `double`. -/
def Token.Quiet : Token → Prop
  | .float bits => throughDouble bits = bits
  | _ => True

/-- **What is written of an item spells it.** -/
theorem spells_packToken {t : Token} (hsized : t.Sized) (hquiet : t.Quiet) :
    Spells (packToken t) t := by
  cases t with
  | nil => exact .nil
  | boolean b =>
    cases b with
    | false => exact .false
    | true => exact .true
  | uint u64 => exact spells_packImpUint64 u64
  | int d =>
    obtain ⟨hlo, hneg⟩ := hsized
    have htoInt := Int64.toInt_ofInt_of_le hlo (by omega)
    have hspells := spells_packImpInt64 (d := Int64.ofInt d) (by rwa [htoInt])
    rwa [htoInt] at hspells
  | float bits =>
    have hspells := Spells.float (length_store 4 bits.toNat)
    rw [load_store_of_lt bits.toNat_lt, UInt32.ofNat_toNat] at hspells
    rwa [packToken, hquiet]
  | double bits =>
    have hspells := Spells.double (length_store 8 bits.toNat)
    rwa [load_store_of_lt bits.toNat_lt, UInt64.ofNat_toNat] at hspells
  | str bytes => exact spells_packStr (toNat_viaSize hsized)
  | bin bytes => exact spells_packBin (toNat_viaSize hsized)
  | ext bytes =>
    obtain ⟨hne, hlen⟩ := hsized
    obtain ⟨type, s, rfl⟩ := List.exists_cons_of_ne_nil hne
    have hs : s.length < 2 ^ 32 := Nat.lt_of_succ_le hlen
    rw [packToken, List.tail_cons, List.headD_cons, toNat_viaSize hs]
    exact spells_packExt hs
  | array size =>
    have hspells := spells_packArray (UInt32.ofNat size)
    rwa [UInt32.toNat_ofNat', Nat.mod_eq_of_lt hsized] at hspells
  | map size =>
    have hspells := spells_packMap (UInt32.ofNat size)
    rwa [UInt32.toNat_ofNat', Nat.mod_eq_of_lt hsized] at hspells

/-! ## Nothing spells it in fewer bytes -/

theorem length_packImpUint64_le {d : UInt64} (k : Fin 4) (h : d.toNat < 256 ^ 2 ^ k.val) :
    (packImpUint64 d).length ≤ 2 ^ k.val + 1 := by
  rw [packImpUint64]
  fin_cases k <;> norm_num at h ⊢ <;> split_ifs <;> simp

theorem length_packImpInt64_le {d : Int64} (k : Fin 4) (hneg : d.toInt < 0)
    (h : -(256 ^ 2 ^ k.val / 2 : ℕ) ≤ d.toInt) : (packImpInt64 d).length ≤ 2 ^ k.val + 1 := by
  rw [packImpInt64]
  fin_cases k <;> norm_num at h ⊢ <;> split_ifs <;> simp <;> omega

theorem length_packStr_le {n : UInt32} (k : Fin 3) (h : n.toNat < 256 ^ 2 ^ k.val) :
    (packStr n).length ≤ 2 ^ k.val + 1 := by
  rw [packStr]
  fin_cases k <;> norm_num at h ⊢ <;> split_ifs <;> simp

theorem length_packBin_le {n : UInt32} (k : Fin 3) (h : n.toNat < 256 ^ 2 ^ k.val) :
    (packBin n).length ≤ 2 ^ k.val + 1 := by
  rw [packBin]
  fin_cases k <;> norm_num at h ⊢ <;> split_ifs <;> simp

theorem length_packExt_le {l : ℕ} (type : UInt8) (k : Fin 3) (h : l < 256 ^ 2 ^ k.val) :
    (packExt l type).length ≤ 2 ^ k.val + 2 := by
  rw [packExt.eq_def]
  fin_cases k <;> norm_num at h ⊢ <;> split <;> (try split_ifs) <;> simp

theorem length_packArray_le {n : UInt32} (k : Fin 2) (h : n.toNat < 256 ^ 2 ^ (k.val + 1)) :
    (packArray n).length ≤ 2 ^ (k.val + 1) + 1 := by
  rw [packArray]
  fin_cases k <;> norm_num at h ⊢ <;> split_ifs <;> simp

theorem length_packMap_le {n : UInt32} (k : Fin 2) (h : n.toNat < 256 ^ 2 ^ (k.val + 1)) :
    (packMap n).length ≤ 2 ^ (k.val + 1) + 1 := by
  rw [packMap]
  fin_cases k <;> norm_num at h ⊢ <;> split_ifs <;> simp

/-- The item an object is, of the item it was read from: a number without a sign has none. -/
theorem token_build {t : Token} {items : List Object} {head : List UInt8} (h : Spells head t)
    (hitems : items.length = t.arity) : (t.build items).items = items ∧
      ((t.build items).token = t ∨ ∃ d, 0 ≤ d ∧ t = .int d ∧
        t.build items = .positiveInteger (UInt64.ofNat d.toNat)) := by
  have hnil : t.arity = 0 → items = [] := fun h => List.length_eq_zero_iff.mp (hitems.trans h)
  cases t with
  | int d =>
    refine ⟨?_, ?_⟩
    · rw [hnil rfl, Token.build, unpackInt]
      split_ifs <;> rfl
    · rw [Token.build, unpackInt]
      split_ifs with hsign
      · exact .inr ⟨d, hsign, rfl, rfl⟩
      · obtain ⟨hlo, hhi⟩ := h.int_bounds
        exact .inl (congrArg Token.int (Int64.toInt_ofInt_of_le hlo hhi))
  | array size => exact ⟨rfl, .inl (congrArg Token.array hitems)⟩
  | map size =>
    obtain ⟨hflat, hlength⟩ := flatMap_pairs hitems
    exact ⟨hflat, .inl (congrArg Token.map hlength)⟩
  | _ =>
    rw [hnil rfl]
    exact ⟨rfl, .inl rfl⟩

/-- A number with its sign, or without one if it needs none. -/
theorem length_packToken_int (k : Fin 4) {n : List UInt8} (hn : n.length = 2 ^ k.val) :
    (packToken (unpackInt (loadSigned n)).token).length ≤ 2 ^ k.val + 1 := by
  have hlt := load_lt n
  have hbounds : -(256 ^ 2 ^ k.val / 2 : ℕ) ≤ loadSigned n ∧
      loadSigned n < (256 ^ 2 ^ k.val / 2 : ℕ) := by
    rw [loadSigned, hn]
    rw [hn] at hlt
    fin_cases k <;> norm_num at hlt ⊢ <;> split_ifs <;> omega
  generalize loadSigned n = d at *
  obtain ⟨hlo, hhi⟩ := hbounds
  have hword : 256 ^ 2 ^ k.val ≤ 2 ^ 64 := by fin_cases k <;> norm_num
  rw [unpackInt]
  split_ifs with hsign
  · refine length_packImpUint64_le k ?_
    rw [UInt64.toNat_ofNat']
    have := Nat.mod_le d.toNat (2 ^ 64)
    omega
  · have htoInt : (Int64.ofInt d).toInt = d := Int64.toInt_ofInt_of_le (by omega) (by omega)
    rw [Object.token, packToken, htoInt]
    exact length_packImpInt64_le k (by omega) (by omega)

/-- **Nothing spells the item in fewer bytes.** -/
theorem length_packToken_le {t : Token} {items : List Object} {head : List UInt8}
    (h : Spells head t) (hitems : items.length = t.arity) :
    (packToken (t.build items).token).length ≤ head.length := by
  have hsize : ∀ {n : List UInt8} {w size : ℕ}, n.length = w → size = load n → size < 256 ^ w :=
    fun {n w size} hn hload => hload ▸ hn ▸ load_lt n
  have hbody : ∀ {pre s : List UInt8} {m : ℕ}, pre.length ≤ m →
      (pre ++ s).length ≤ m + s.length := fun hpre => by
    rw [List.length_append]
    exact Nat.add_le_add_right hpre _
  cases h with
  | @positiveFixint b hb =>
    have hshort : (packImpUint64 b.toUInt64).length = 1 := by
      have hlt : b.toUInt64.toNat < 2 ^ 7 := hb
      rw [packImpUint64, if_pos (hlt.trans (by norm_num)), if_pos hlt]
      rfl
    exact hshort.le
  | @negativeFixint b hb =>
    have hd : loadSigned [b] = b.toNat - 256 := by
      rw [loadSigned, load_singleton, List.length_singleton, pow_one, if_neg (by omega)]
      rfl
    have hlt := b.toNat_lt
    have htoInt : (Int64.ofInt (loadSigned [b])).toInt = b.toNat - 256 := by
      rw [hd]
      exact Int64.toInt_ofInt_of_le (by omega) (by omega)
    have hneg : ¬0 ≤ loadSigned [b] := by omega
    rw [Token.build, unpackInt, if_neg hneg, Object.token, packToken, Int64.ofInt_toInt,
      packImpInt64, if_neg (by omega), if_pos (by omega)]
    exact (length_store 1 _).le
  | nil => exact le_rfl
  | «false» => exact le_rfl
  | «true» => exact le_rfl
  | @float n hn =>
    rw [List.length_cons, hn]
    exact (congrArg (· + 1) (length_store 4 _)).le
  | @double n hn =>
    rw [List.length_cons, hn]
    exact (congrArg (· + 1) (length_store 8 _)).le
  | @uint n k hn =>
    rw [List.length_cons, hn]
    refine length_packImpUint64_le k ?_
    rw [UInt64.toNat_ofNat']
    exact (Nat.mod_le _ _).trans_lt (hsize hn rfl)
  | @int n k hn =>
    rw [List.length_cons, hn]
    exact length_packToken_int k hn
  | @fixstr s hs =>
    have hshort : (packStr (viaSize s)).length = 1 := by
      rw [packStr, if_pos ((toNat_viaSize_le s).trans_lt hs)]
      rfl
    exact (hbody hshort.le).trans (Nat.add_comm _ _).le
  | @str n s k hn hs =>
    refine (hbody (length_packStr_le k ((toNat_viaSize_le s).trans_lt (hsize hn hs)))).trans ?_
    rw [List.length_cons, List.length_append, hn]
    omega
  | @bin n s k hn hs =>
    refine (hbody (length_packBin_le k ((toNat_viaSize_le s).trans_lt (hsize hn hs)))).trans ?_
    rw [List.length_cons, List.length_append, hn]
    omega
  | @fixext s k hs =>
    have htail : s.tail.length = 2 ^ k.val := by rw [List.length_tail, hs, Nat.add_sub_cancel]
    have hshort : ∀ type, (packExt (viaSize s.tail).toNat type).length = 2 := by
      intro type
      rw [viaSize, htail]
      fin_cases k <;> rfl
    refine (hbody (hshort _).le).trans ?_
    rw [List.length_cons, hs, htail]
    omega
  | @ext n s k hn hs =>
    have htail : s.tail.length = load n := by rw [List.length_tail, hs, Nat.add_sub_cancel]
    have hlt := (toNat_viaSize_le s.tail).trans_lt (hsize hn htail)
    refine (hbody (length_packExt_le _ k hlt)).trans ?_
    rw [List.length_cons, List.length_append, hn, hs, htail]
    omega
  | @fixarray size hsize =>
    have hshort : (packArray (viaSize items)).length = 1 := by
      rw [packArray, if_pos ((toNat_viaSize_le items).trans_lt (hitems ▸ hsize))]
      rfl
    exact hshort.le
  | @array n k hn =>
    rw [List.length_cons, hn]
    exact length_packArray_le k ((toNat_viaSize_le items).trans_lt (hsize hn hitems))
  | @fixmap size hsize =>
    have hlength : (pairs items).length = size := (flatMap_pairs hitems).2
    have hshort : (packMap (viaSize (pairs items))).length = 1 := by
      rw [packMap, if_pos ((toNat_viaSize_le _).trans_lt (hlength ▸ hsize))]
      rfl
    exact hshort.le
  | @map n k hn =>
    have hlength : (pairs items).length = load n := (flatMap_pairs hitems).2
    rw [List.length_cons, hn]
    exact length_packMap_le k ((toNat_viaSize_le _).trans_lt (hsize hn hlength))

/-! ## Objects that are packed and unpacked -/

/-- The objects the limits let in, with containers that are not empty at most `depth` deep. -/
def Object.Valid (limit : UnpackLimit) : ℕ → Object → Prop
  | 0 => fun obj => obj.token.Sized ∧ limit.Admits obj.token ∧ obj.items = []
  | depth + 1 => fun obj => obj.token.Sized ∧ limit.Admits obj.token ∧
    ∀ item ∈ obj.items, Valid limit depth item

/-- One object in another. -/
inductive Object.Within (inner : Object) : Object → Prop where
  | refl : Within inner inner
  | item {obj item : Object} (hitem : item ∈ obj.items) (h : Within inner item) : Within inner obj

/-- There is no signalling NaN in it. -/
def Object.Quiet (obj : Object) : Prop := ∀ inner : Object, inner.Within obj → inner.token.Quiet

theorem Object.Quiet.item {obj item : Object} (h : obj.Quiet) (hitem : item ∈ obj.items) :
    item.Quiet :=
  fun inner hinner => h inner (.item hitem hinner)

variable {limit : UnpackLimit} {depth : ℕ} {bytes : List UInt8} {obj : Object}

/-- An object is built of its item. -/
theorem build_token (h : obj.token.Sized) :
    obj.token.build obj.items = obj ∧ obj.items.length = obj.token.arity := by
  cases obj with
  | negativeInteger i64 =>
    have hneg : ¬0 ≤ i64.toInt := not_le.mpr h.2
    refine ⟨?_, rfl⟩
    rw [Object.token, Token.build, unpackInt, if_neg hneg, Int64.ofInt_toInt]
  | map items => exact ⟨congrArg Object.map (pairs_flatMap items), length_flatMap_pair items⟩
  | _ => exact ⟨rfl, rfl⟩

/-- There are bytes for an item of a size, only. -/
theorem Spells.sized {t : Token} {head : List UInt8} (h : Spells head t)
    (hneg : ∀ d, t = .int d → d < 0) : t.Sized := by
  have hsize : ∀ {n : List UInt8} {w : ℕ}, n.length = w → w ≤ 4 → load n < 2 ^ 32 :=
    fun {n w} hn hw => by
      have hpow : 256 ^ w ≤ 256 ^ 4 := Nat.pow_le_pow_right (by norm_num) hw
      have hlt := hn ▸ load_lt n
      omega
  have hwidth : ∀ k : Fin 3, 2 ^ k.val ≤ 4 := by decide
  have hwidth' : ∀ k : Fin 2, 2 ^ (k.val + 1) ≤ 4 := by decide
  have hfixext : ∀ k : Fin 5, 2 ^ k.val ≤ 16 := by decide
  cases h with
  | negativeFixint => exact ⟨(negativeFixint ‹_›).int_bounds.1, hneg _ rfl⟩
  | int k hn => exact ⟨(int k hn).int_bounds.1, hneg _ rfl⟩
  | fixstr hs => exact hs.trans (by norm_num)
  | str k hn hs => exact hs.trans_lt (hsize hn (hwidth k))
  | bin k hn hs => exact hs.trans_lt (hsize hn (hwidth k))
  | @fixext s k hs =>
    have hpos : 0 < s.length := hs ▸ Nat.succ_pos _
    have hle : s.length ≤ 16 + 1 := hs ▸ Nat.succ_le_succ (hfixext k)
    exact ⟨List.length_pos_iff.mp hpos, hle.trans (by norm_num)⟩
  | @ext n s k hn hs =>
    have hlt := hsize hn (hwidth k)
    have hpos : 0 < s.length := by omega
    exact ⟨List.length_pos_iff.mp hpos, by omega⟩
  | fixarray hsize' => exact hsize'.trans (by norm_num)
  | array k hn => exact hsize hn (hwidth' k)
  | fixmap hsize' => exact hsize'.trans (by norm_num)
  | map k hn => exact hsize hn (hwidth' k)
  | _ => trivial

/-- …and it is the item of the object that is read. -/
theorem token_build_valid {t : Token} {items : List Object} {head : List UInt8}
    (h : Spells head t) (hlimit : limit.Admits t) (hitems : items.length = t.arity) :
    (t.build items).token.Sized ∧ limit.Admits (t.build items).token := by
  obtain ⟨-, htoken | ⟨d, -, rfl, hbuild⟩⟩ := token_build h hitems
  · rw [htoken]
    refine ⟨h.sized fun d hd => ?_, hlimit⟩
    subst hd
    by_contra hsign
    rw [Token.build, unpackInt, if_pos (not_lt.mp hsign)] at htoken
    cases htoken
  · rw [hbuild]
    exact ⟨trivial, trivial⟩

/-- **What is packed is an encoding.** -/
theorem Object.Valid.encodes (h : obj.Valid limit depth) (hquiet : obj.Quiet) :
    Encodes limit depth (packObject obj) obj := by
  induction depth generalizing obj with
  | zero =>
    obtain ⟨hsized, hlimit, hitems⟩ := h
    obtain ⟨hbuild, harity⟩ := build_token hsized
    rw [hitems] at hbuild harity
    refine ⟨obj.token, ?_, hlimit, harity.symm, hbuild.symm⟩
    rw [packObject_eq, hitems, List.map_nil, List.flatten_nil, List.append_nil]
    exact spells_packToken hsized (hquiet obj .refl)
  | succ depth ih =>
    obtain ⟨hsized, hlimit, hitems⟩ := h
    obtain ⟨hbuild, harity⟩ := build_token hsized
    refine ⟨obj.token, packToken obj.token, obj.items.map packObject, obj.items,
      spells_packToken hsized (hquiet obj .refl), hlimit, harity, ?_, packObject_eq obj,
      hbuild.symm⟩
    rw [List.forall₂_map_left_iff, List.forall₂_same]
    exact fun item hitem => ih (hitems item hitem) (hquiet.item hitem)

/-- **What is encoded may be packed.** -/
theorem Encodes.valid (h : Encodes limit depth bytes obj) : obj.Valid limit depth := by
  induction depth generalizing bytes obj with
  | zero =>
    obtain ⟨t, ht, hlimit, hzero, rfl⟩ := h
    obtain ⟨hsized, hadmits⟩ := @token_build_valid limit t [] bytes ht hlimit hzero.symm
    exact ⟨hsized, hadmits, (@token_build t [] bytes ht hzero.symm).1⟩
  | succ depth ih =>
    obtain ⟨t, head, parts, items, ht, hlimit, harity, hparts, rfl, rfl⟩ := h
    obtain ⟨hsized, hadmits⟩ := token_build_valid ht hlimit harity
    refine ⟨hsized, hadmits, fun item hitem => ?_⟩
    rw [(token_build ht harity).1] at hitem
    clear ht harity hlimit hsized hadmits
    induction hparts with
    | nil => cases hitem
    | cons hpart _ ihparts =>
      rcases List.mem_cons.mp hitem with rfl | hitem
      · exact ih hpart
      · exact ihparts hitem

/-- **No encoding is shorter than what is packed.** -/
theorem length_packObject_le (h : Encodes limit depth bytes obj) :
    (packObject obj).length ≤ bytes.length := by
  induction depth generalizing bytes obj with
  | zero =>
    obtain ⟨t, ht, -, hzero, rfl⟩ := h
    obtain ⟨hitems, -⟩ := @token_build t [] bytes ht hzero.symm
    rw [packObject_eq, hitems, List.map_nil, List.flatten_nil, List.append_nil]
    exact length_packToken_le ht hzero.symm
  | succ depth ih =>
    obtain ⟨t, head, parts, items, ht, -, harity, hparts, rfl, rfl⟩ := h
    obtain ⟨hitems, -⟩ := token_build ht harity
    rw [packObject_eq, hitems, List.length_append, List.length_append]
    refine Nat.add_le_add (length_packToken_le ht harity) ?_
    clear harity ht hitems
    induction hparts with
    | nil => exact le_rfl
    | cons hpart _ ihparts =>
      rw [List.map_cons, List.flatten_cons, List.flatten_cons, List.length_append,
        List.length_append]
      exact Nat.add_le_add (ih hpart) ihparts

/-- **An object is unpacked from what was packed**, wherever that stands. -/
theorem unpack_packObject (h : obj.Valid limit limit.depth) (hquiet : obj.Quiet)
    (before rest : List UInt8) : unpack limit (before ++ (packObject obj ++ rest)) before.length
      = .ok (obj, before.length + (packObject obj).length) :=
  (h.encodes hquiet).unpack List.drop_left

theorem quiet_minusOne : (Object.array [.negativeInteger (-1)]).Quiet := by
  intro inner hinner
  cases hinner with
  | refl => trivial
  | item hitem h =>
    obtain rfl := List.mem_singleton.mp hitem
    cases h with
    | refl => trivial
    | item hitem _ => cases hitem

theorem unpack_packObject_minusOne :
    unpack { depth := 1 } ([] ++ (packObject (.array [.negativeInteger (-1)]) ++ [0xc0])) 0
      = .ok (.array [.negativeInteger (-1)],
        0 + (packObject (.array [.negativeInteger (-1)])).length) :=
  @unpack_packObject { depth := 1 } (.array [.negativeInteger (-1)])
    ⟨show 1 < 2 ^ 32 by decide, show 1 ≤ 0xffffffff by decide, fun item hitem => by
      obtain rfl := List.mem_singleton.mp hitem
      exact ⟨show (-2 ^ 63 : ℤ) ≤ -1 ∧ (-1 : ℤ) < 0 by decide, trivial, rfl⟩⟩
    quiet_minusOne [] [0xc0]

/-- **What was accepted may be packed again**: that is accepted under the same limits, for the same
object, and takes no more bytes. -/
theorem repack {data : List UInt8} {off off' : ℕ} (h : unpack limit data off = .ok (obj, off'))
    (hquiet : obj.Quiet) :
    unpack limit (packObject obj) 0 = .ok (obj, (packObject obj).length) ∧
      off + (packObject obj).length ≤ off' := by
  obtain ⟨bytes, rest, -, hencodes, rfl⟩ := encodes_of_unpack h
  refine ⟨?_, Nat.add_le_add_left (length_packObject_le hencodes) off⟩
  have hunpack := (hencodes.valid.encodes hquiet).unpack
    (show (packObject obj).drop 0 = packObject obj ++ [] from (List.append_nil _).symm)
  rwa [Nat.zero_add] at hunpack

theorem repack_minusOne :
    unpack { depth := 1 } (packObject (.array [.negativeInteger (-1)])) 0
        = .ok (.array [.negativeInteger (-1)],
          (packObject (.array [.negativeInteger (-1)])).length) ∧
      0 + (packObject (.array [.negativeInteger (-1)])).length ≤ 3 :=
  @repack { depth := 1 } _ [0x91, 0xd0, 0xff] 0 3 rfl quiet_minusOne

end Msgpack

end RaftCore
