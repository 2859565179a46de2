import RaftCore.Msgpack.Unpack

/-!
# Msgpack/Delivery — bytes that deliver an object

Some bytes *deliver* an object when the machine, reading them from the header state over any open
containers and before any further bytes, does what pushing that object does (`Delivers`).  The
shortest form of a scalar or a string delivers it, and an array is delivered when each part of its
body delivers an item (`delivers_array`) — by induction on the parts, since only the last of them
closes the container.  With no container open, what is delivered is unpacked, and nothing after it
is touched (`Delivers.unpack_eq`).
-/

namespace RaftCore

namespace Msgpack

open BigEndian

/-- What the machine does once an item has been read. -/
def resume (limit : UnpackLimit) (fuel : ℕ) (stack : List Frame) (obj : Object)
    (rest : List UInt8) : Except Error Signal :=
  match pushItem stack obj with
  | .inl obj => .ok (.finished obj rest)
  | .inr stack =>
    if rest = [] then .ok (.suspended rest) else execute limit fuel .header stack false rest

/-- **Reading the bytes is pushing the object**, with `depth` containers to spare. -/
def Delivers (depth : ℕ) (bytes : List UInt8) (obj : Object) : Prop :=
  ∃ rounds, 0 < rounds ∧ rounds ≤ bytes.length ∧ ∀ fuel stack rest,
    stack.length + depth ≤ UnpackLimit.depth {} →
      execute {} (rounds + fuel) .header stack false (bytes ++ rest) = resume {} fuel stack obj rest

variable {depth : ℕ} {bytes : List UInt8} {obj : Object}

theorem Delivers.mono {depth' : ℕ} (h : Delivers depth bytes obj) (hle : depth ≤ depth') :
    Delivers depth' bytes obj := by
  obtain ⟨rounds, hpos, hlen, hrun⟩ := h
  exact ⟨rounds, hpos, hlen, fun fuel stack rest hstack => hrun fuel stack rest (by omega)⟩

/-- **What is delivered is unpacked**, from any offset on and with any bytes after it. -/
theorem Delivers.unpack_eq (h : Delivers depth bytes obj) (hdepth : depth ≤ UnpackLimit.depth {})
    (before after : List UInt8) : unpack {} (before ++ bytes ++ after) before.length
      = .ok (obj, before.length + bytes.length) := by
  obtain ⟨rounds, hpos, hlen, hrun⟩ := h
  have hdrop : (before ++ bytes ++ after).drop before.length = bytes ++ after := by
    rw [List.append_assoc, List.drop_left]
  have htotal : (before ++ bytes ++ after).length - before.length
      = rounds + (bytes.length - rounds + after.length) := by
    simp only [List.length_append]
    omega
  have hread := hrun (bytes.length - rounds + after.length) [] after (by simpa using hdepth)
  rw [unpack, if_neg (by simp only [List.length_append]; omega), hdrop, htotal, hread]
  simp only [resume, pushItem, List.length_append]
  change Except.ok (obj, before.length + bytes.length + after.length - after.length) = _
  rw [Nat.add_sub_cancel]

/-! ## One round -/

theorem execute_succ (limit : UnpackLimit) (fuel : ℕ) (state : State) (stack : List Frame)
    (again : Bool) (rest : List UInt8) : execute limit (fuel + 1) state stack again rest = (do
      match ← executeOnce limit state stack again rest with
      | .going state stack again rest =>
        if rest = [] then .ok (.suspended rest) else execute limit fuel state stack again rest
      | signal => .ok signal) := rfl

/-- A round that ends by pushing an item resumes. -/
theorem execute_of_pushProc {limit : UnpackLimit} {fuel : ℕ} {state : State} {stack : List Frame}
    {again : Bool} {rest last : List UInt8}
    (h : executeOnce limit state stack again rest = .ok (pushProc stack obj last)) :
    execute limit (fuel + 1) state stack again rest
      = resume limit fuel stack obj (last.drop 1) := by
  rw [execute_succ, h, pushProc, resume]
  cases pushItem stack obj <;> rfl

/-- A round that ends in a reading state goes on. -/
theorem execute_of_going {limit : UnpackLimit} {fuel : ℕ} {state state' : State}
    {stack stack' : List Frame} {again again' : Bool} {rest rest' : List UInt8}
    (h : executeOnce limit state stack again rest = .ok (.going state' stack' again' rest'))
    (hne : rest' ≠ []) :
    execute limit (fuel + 1) state stack again rest
      = execute limit fuel state' stack' again' rest' := by
  rw [execute_succ, h]
  exact if_neg hne

/-- The round that reads a selector without a body. -/
theorem executeOnce_header {b : UInt8} {stack : List Frame} {rest : List UInt8} {signal : Signal}
    (h : readHeader {} stack b (b :: rest) = .ok signal)
    (hsignal : ∀ what trail stack again rest,
      signal ≠ .going (.reading what trail) stack again rest) :
    executeOnce {} .header stack false (b :: rest) = .ok signal := by
  simp only [executeOnce, h]
  match signal, hsignal with
  | .finished _ _, _ | .failed _, _ | .suspended _, _ | .going .header _ _ _, _ => rfl
  | .going (.reading _ _) _ _ _, hsignal => exact absurd rfl (hsignal _ _ _ _ _)

theorem pushProc_ne_reading (stack : List Frame) (obj : Object) (last : List UInt8)
    (what : Reading) (trail : ℕ) (stack' : List Frame) (again : Bool) (rest : List UInt8) :
    pushProc stack obj last ≠ .going (.reading what trail) stack' again rest := by
  rw [pushProc]
  cases pushItem stack obj <;> nofun

/-- An item of one byte. -/
theorem delivers_byte {b : UInt8} (h : ∀ (stack : List Frame) (rest : List UInt8),
    readHeader {} stack b (b :: rest) = .ok (pushProc stack obj (b :: rest))) :
    Delivers 0 [b] obj := by
  refine ⟨1, Nat.one_pos, le_rfl, fun fuel stack rest _ => ?_⟩
  have hround := executeOnce_header (h stack rest) (pushProc_ne_reading stack obj _)
  rw [List.singleton_append, Nat.add_comm, execute_of_pushProc hround]
  rfl

/-- The round that reads a selector and its body. -/
theorem executeOnce_body {b : UInt8} {what : Reading} {trail : ℕ} {stack : List Frame}
    {rest : List UInt8} (hb : readHeader {} stack b (b :: rest)
      = .ok (.going (.reading what trail) stack true (b :: rest))) :
    executeOnce {} .header stack false (b :: rest) = readBody {} what trail stack rest := by
  simp only [executeOnce, hb]
  rfl

/-- A selector that announces a body. -/
theorem bodyOf_range {n : ℕ} {p : Reading × ℕ} (h : bodyOf n = some p) : 0xc4 ≤ n ∧ n ≤ 0xdf := by
  unfold bodyOf at h
  split at h
  case h_29 => cases h
  all_goals decide

theorem bodyOf_eq_none {n : ℕ} (h : n < 0xc4) : bodyOf n = none := by
  rw [Option.eq_none_iff_forall_ne_some]
  intro p hp
  have hrange := bodyOf_range hp
  omega

theorem readHeader_of_bodyOf {b : UInt8} {what : Reading} {trail : ℕ} {stack : List Frame}
    {rest : List UInt8} (h : bodyOf b.toNat = some (what, trail)) :
    readHeader {} stack b rest = .ok (.going (.reading what trail) stack true rest) := by
  have hrange := bodyOf_range h
  simp only [readHeader, if_neg (show ¬b.toNat ≤ 0x7f by omega),
    if_neg (show ¬0xe0 ≤ b.toNat by omega), h]

/-- The byte a body ends with is the one before the next item. -/
theorem drop_body {body : List UInt8} (hpos : body ≠ []) (rest : List UInt8) :
    ((body ++ rest).drop (body.length - 1)).drop 1 = rest := by
  rw [List.drop_drop, Nat.sub_add_cancel (List.length_pos_iff.mpr hpos), List.drop_left]

/-- A number's bytes are a body. -/
theorem store_ne_nil {w : ℕ} (hw : 0 < w) (n : ℕ) : store w n ≠ [] :=
  List.length_pos_iff.mp (by rwa [length_store])

/-- An item of a selector and a body that is a value. -/
theorem delivers_body {b : UInt8} {body : List UInt8} {what : Reading}
    (hb : ∀ (stack : List Frame) (rest : List UInt8), readHeader {} stack b rest
      = .ok (.going (.reading what body.length) stack true rest)) (hpos : body ≠ [])
    (h : ∀ (stack : List Frame) (rest : List UInt8),
      readBody {} what body.length stack (body ++ rest)
        = .ok (pushProc stack obj ((body ++ rest).drop (body.length - 1)))) :
    Delivers 0 (b :: body) obj := by
  refine ⟨1, Nat.one_pos, by simp, fun fuel stack rest _ => ?_⟩
  have hround := (executeOnce_body (hb stack (b :: (body ++ rest)))).trans (h stack rest)
  rw [List.cons_append, Nat.add_comm, execute_of_pushProc hround, drop_body hpos]

/-- A reading state whose body is there. -/
theorem readBody_uint (body : List UInt8) (stack : List Frame) (rest : List UInt8) :
    readBody {} .uint body.length stack (body ++ rest)
      = .ok (pushProc stack (.positiveInteger (UInt64.ofNat (load body)))
        ((body ++ rest).drop (body.length - 1))) := by
  rw [readBody, if_neg (by simp), List.take_left]

theorem readBody_int (body : List UInt8) (stack : List Frame) (rest : List UInt8) :
    readBody {} .int body.length stack (body ++ rest)
      = .ok (pushProc stack (unpackInt (loadSigned body))
        ((body ++ rest).drop (body.length - 1))) := by
  rw [readBody, if_neg (by simp), List.take_left]

theorem readBody_strValue {body : List UInt8} (hlen : body.length < 2 ^ 32) (stack : List Frame)
    (rest : List UInt8) : readBody {} .strValue body.length stack (body ++ rest)
      = .ok (pushProc stack (.str body) ((body ++ rest).drop (body.length - 1))) := by
  have hlimit : ¬UnpackLimit.str {} < body.length := by
    change ¬0xffffffff < body.length
    omega
  rw [readBody, if_neg (by simp), List.take_left]
  simp only [unpackStr, if_neg hlimit]
  rfl

theorem readBody_str {body : List UInt8} (hload : load body ≠ 0) (stack : List Frame)
    (rest : List UInt8) : readBody {} .str body.length stack (body ++ rest)
      = .ok (.going (.reading .strValue (load body)) stack true
        ((body ++ rest).drop (body.length - 1))) := by
  rw [readBody, if_neg (by simp), List.take_left]
  exact if_neg hload

/-! ## Scalars -/

theorem delivers_boolean (b : Bool) :
    Delivers 0 (if b then packTrue else packFalse) (.boolean b) := by
  cases b
  · exact delivers_byte fun _ _ => rfl
  · exact delivers_byte fun _ _ => rfl

/-- An unsigned integer in `w` bytes. -/
theorem delivers_uint {b : UInt8} {w n : ℕ} (hb : bodyOf b.toNat = some (.uint, w)) (hw : 0 < w)
    (hn : n < 256 ^ w) : Delivers 0 (b :: store w n) (.positiveInteger (UInt64.ofNat n)) := by
  refine delivers_body (fun _ _ => readHeader_of_bodyOf (by rw [length_store, hb]))
    (store_ne_nil hw n) fun stack rest => ?_
  rw [readBody_uint, load_store_of_lt hn]

/-- A signed integer in `w` bytes. -/
theorem delivers_int {b : UInt8} {w n : ℕ} {i : ℤ} (hb : bodyOf b.toNat = some (.int, w))
    (hw : 0 < w) (hn : (n : ℤ) % (256 ^ w : ℕ) = i % (256 ^ w : ℕ))
    (hlo : -((256 ^ w / 2 : ℕ) : ℤ) ≤ i) (hhi : i < (256 ^ w / 2 : ℕ)) :
    Delivers 0 (b :: store w n) (unpackInt i) := by
  refine delivers_body (fun _ _ => readHeader_of_bodyOf (by rw [length_store, hb]))
    (store_ne_nil hw n) fun stack rest => ?_
  rw [readBody_int, loadSigned_store hn hlo hhi]

theorem delivers_packImpUint64 (d : UInt64) :
    Delivers 0 (packImpUint64 d) (.positiveInteger d) := by
  have hbyte : d.toUInt8 = UInt8.ofNat (d.toNat / 256 ^ 0) := by
    rw [pow_zero, Nat.div_one]
    rfl
  have hlong : ∀ {b : UInt8} {w : ℕ}, bodyOf b.toNat = some (.uint, w) → 0 < w →
      d.toNat < 256 ^ w → Delivers 0 (b :: store w d.toNat) (.positiveInteger d) := by
    intro b w hb hw hlt
    have hdel := delivers_uint hb hw hlt
    rwa [UInt64.ofNat_toNat] at hdel
  rw [packImpUint64]
  split_ifs with h8 h7 h16 h32
  · refine delivers_byte fun stack rest => ?_
    have hsel : d.toUInt8.toNat = d.toNat := by
      rw [UInt64.toNat_toUInt8]
      omega
    have hback : d.toUInt8.toUInt64 = d := by
      rw [← UInt64.toNat_inj, UInt8.toNat_toUInt64, hsel]
    rw [readHeader, hback]
    exact if_pos (by omega)
  · rw [hbyte]
    exact hlong (b := 0xcc) (w := 1) rfl Nat.one_pos h8
  · exact hlong rfl (by decide) h16
  · exact hlong rfl (by decide) h32
  · exact hlong rfl (by decide) d.toNat_lt

/-- The bits of an `int32_t` and its value. -/
theorem toNat_toUInt32_emod (d : Int32) : (d.toUInt32.toNat : ℤ) = d.toInt % (2 ^ 32 : ℕ) := by
  have h : d.toInt = (d.toUInt32.toNat : ℤ).bmod (2 ^ 32) := BitVec.toInt_eq_toNat_bmod d.toBitVec
  have hlt := d.toUInt32.toNat_lt
  rw [h, Int.bmod_emod, Int.emod_eq_of_lt (by omega) (by omega)]

/-- A number of one byte that is its own selector. -/
theorem delivers_fixnum {n : ℕ} {i : ℤ} (hn : (n : ℤ) % 256 = i % 256) (hlo : -32 ≤ i)
    (hhi : i < 128) : Delivers 0 (store 1 n) (unpackInt i) := by
  have hload : load (store 1 n) = n % 256 := load_store 1 n
  have hsigned : loadSigned (store 1 n) = i := by
    apply loadSigned_store
    · simpa using hn
    · norm_num
      omega
    · norm_num
      omega
  have hstore : store 1 n = [UInt8.ofNat (n / 256 ^ 0)] := rfl
  rw [hstore] at hload hsigned ⊢
  generalize UInt8.ofNat (n / 256 ^ 0) = b at *
  rw [load_singleton] at hload
  refine delivers_byte fun stack rest => ?_
  rcases lt_or_ge i 0 with hneg | hnonneg
  · simp only [readHeader, if_neg (show ¬b.toNat ≤ 0x7f by omega),
      if_pos (show 0xe0 ≤ b.toNat by omega), hsigned]
  · have hback : UInt64.ofNat i.toNat = b.toUInt64 := by
      rw [← UInt64.toNat_inj, UInt8.toNat_toUInt64, UInt64.toNat_ofNat']
      omega
    simp only [readHeader, if_pos (show b.toNat ≤ 0x7f by omega), unpackInt, if_pos hnonneg, hback]

theorem delivers_packImpInt32 (d : Int32) : Delivers 0 (packImpInt32 d) (unpackInt d.toInt) := by
  have hbits := toNat_toUInt32_emod d
  have hlo := d.le_toInt
  have hhi := d.toInt_lt
  rw [packImpInt32]
  generalize d.toUInt32.toNat = bits at *
  generalize d.toInt = i at *
  have hwide : ∀ {b : UInt8} {w : ℕ}, bodyOf b.toNat = some (.uint, w) → 0 < w → 0 ≤ i →
      i < (256 ^ w : ℕ) → Delivers 0 (b :: store w bits) (unpackInt i) := by
    intro b w hb hw hnonneg hlt
    have hdel := delivers_uint hb hw (show bits < 256 ^ w by omega)
    rwa [unpackInt, if_pos hnonneg, show i.toNat = bits by omega]
  split_ifs with hneg h16 h8 h7 h8 h16
  · exact delivers_int rfl (by decide) (by omega) (by omega) (by omega)
  · exact delivers_int rfl (by decide) (by omega) (by omega) (by omega)
  · exact delivers_int rfl (by decide) (by omega) (by omega) (by omega)
  · exact delivers_fixnum (by omega) (by omega) (by omega)
  · exact hwide rfl (by decide) (by omega) (by omega)
  · exact hwide rfl (by decide) (by omega) (by omega)
  · exact hwide rfl (by decide) (by omega) (by omega)

/-! ## Strings -/

/-- A short length in its selector. -/
theorem toNat_selector {n base : UInt32} {width : ℕ} (hbase : base.toNat + width ≤ 256)
    (hn : n.toNat < width) (hor : base.toNat ||| n.toNat = base.toNat + n.toNat) :
    (base ||| n).toUInt8.toNat = base.toNat + n.toNat := by
  rw [UInt32.toNat_toUInt8, UInt32.toNat_or, hor, Nat.mod_eq_of_lt (by omega)]

theorem readHeader_fixstr {b : UInt8} {n : ℕ} (hb : b.toNat = 0xa0 + n) (hn : n < 32)
    (stack : List Frame) (rest : List UInt8) : readHeader {} stack b rest
      = if n = 0 then .ok (pushProc stack (.str []) rest)
        else .ok (.going (.reading .strValue n) stack true rest) := by
  have hand : b.toNat &&& 0x1f = n := by
    rw [show (0x1f : ℕ) = 2 ^ 5 - 1 from rfl, Nat.and_two_pow_sub_one_eq_mod]
    omega
  simp only [readHeader, if_neg (show ¬b.toNat ≤ 0x7f by omega),
    if_neg (show ¬0xe0 ≤ b.toNat by omega), bodyOf_eq_none (show b.toNat < 0xc4 by omega),
    if_pos (show 0xa0 ≤ b.toNat ∧ b.toNat ≤ 0xbf by omega), hand]
  rfl

/-- A string after a length of its own. -/
theorem delivers_longStr {b : UInt8} {w : ℕ} {s : List UInt8}
    (hb : bodyOf b.toNat = some (.str, w)) (hw : 0 < w) (hs : s.length < 256 ^ w) (hpos : s ≠ [])
    (hlen : s.length < 2 ^ 32) : Delivers 0 (b :: store w s.length ++ s) (.str s) := by
  have hload : load (store w s.length) = s.length := load_store_of_lt hs
  have hne : load (store w s.length) ≠ 0 := by rwa [hload, ne_eq, List.length_eq_zero_iff]
  refine ⟨2, Nat.two_pos, by simp; omega, fun fuel stack rest _ => ?_⟩
  have hfirst : executeOnce {} .header stack false (b :: store w s.length ++ s ++ rest)
      = .ok (.going (.reading .strValue s.length) stack true
        ((store w s.length ++ (s ++ rest)).drop (w - 1))) := by
    rw [List.cons_append, List.cons_append, List.append_assoc,
      executeOnce_body (readHeader_of_bodyOf hb)]
    have hread := readBody_str hne stack (s ++ rest)
    rwa [hload, length_store] at hread
  have hdrop := drop_body (store_ne_nil hw s.length) (s ++ rest)
  rw [length_store] at hdrop
  have hsecond : executeOnce {} (.reading .strValue s.length) stack true
      ((store w s.length ++ (s ++ rest)).drop (w - 1))
      = .ok (pushProc stack (.str s) ((s ++ rest).drop (s.length - 1))) := by
    rw [executeOnce, if_pos rfl, hdrop]
    exact readBody_strValue hlen stack rest
  have hmore : (store w s.length ++ (s ++ rest)).drop (w - 1) ≠ [] := fun hnil => by
    rw [hnil, List.drop_nil] at hdrop
    exact hpos (List.append_eq_nil_iff.mp hdrop.symm).1
  rw [show 2 + fuel = fuel + 1 + 1 by omega, execute_of_going hfirst hmore,
    execute_of_pushProc hsecond, drop_body hpos]

theorem delivers_packStr {s : List UInt8} {n : UInt32} (hn : n.toNat = s.length) :
    Delivers 0 (packStr n ++ s) (.str s) := by
  have hlt := n.toNat_lt
  have hor : ∀ l < 32, 0xa0 ||| l = 0xa0 + l := by decide
  rw [packStr]
  split_ifs with h32 h256 h65536
  · have hsel : (0xa0 ||| n).toUInt8.toNat = 0xa0 + n.toNat :=
      toNat_selector (by decide) h32 (hor _ h32)
    rcases eq_or_ne s [] with rfl | hpos
    · refine delivers_byte fun stack rest => ?_
      exact (readHeader_fixstr hsel h32 stack _).trans (if_pos hn)
    · have hzero : n.toNat ≠ 0 := by rwa [hn, ne_eq, List.length_eq_zero_iff]
      rw [List.singleton_append]
      refine delivers_body (fun stack rest => ?_) hpos (readBody_strValue (by omega))
      rw [readHeader_fixstr hsel h32, if_neg hzero, hn]
  all_goals
    have hpos : s ≠ [] := by
      rintro rfl
      simp at hn
      omega
    rw [hn]
    exact delivers_longStr rfl (by decide) (by omega) hpos (by omega)

/-! ## Arrays -/

theorem readHeader_fixarray {b : UInt8} {n : ℕ} (hb : b.toNat = 0x90 + n) (hn : n < 16)
    (stack : List Frame) (rest : List UInt8) :
    readHeader {} stack b rest = pushArray {} stack n rest := by
  have hand : b.toNat &&& 0x0f = n := by
    rw [show (0x0f : ℕ) = 2 ^ 4 - 1 from rfl, Nat.and_two_pow_sub_one_eq_mod]
    omega
  simp only [readHeader, if_neg (show ¬b.toNat ≤ 0x7f by omega),
    if_neg (show ¬0xe0 ≤ b.toNat by omega), bodyOf_eq_none (show b.toNat < 0xc4 by omega),
    if_neg (show ¬(0xa0 ≤ b.toNat ∧ b.toNat ≤ 0xbf) by omega),
    if_pos (show 0x90 ≤ b.toNat ∧ b.toNat ≤ 0x9f by omega), hand]

theorem readBody_array (body : List UInt8) (stack : List Frame) (rest : List UInt8) :
    readBody {} .array body.length stack (body ++ rest)
      = pushArray {} stack (load body) ((body ++ rest).drop (body.length - 1)) := by
  rw [readBody, if_neg (by simp), List.take_left]

/-- A container the limits let in. -/
theorem pushArray_eq {stack : List Frame} (n : UInt32) (rest : List UInt8)
    (hstack : stack.length + 1 ≤ UnpackLimit.depth {}) : pushArray {} stack n.toNat rest
      = if n.toNat = 0 then .ok (pushProc stack (.array []) rest)
        else .ok (.going .header (.array [] n.toNat :: stack) false (rest.drop 1)) := by
  have hlimit : ¬UnpackLimit.array {} < n.toNat := by
    have := n.toNat_lt
    change ¬0xffffffff < n.toNat
    omega
  rw [pushArray, if_neg hlimit, pushAggregate, if_pos hstack]

/-- **The header opens the container**, up to the byte the machine stays on. -/
theorem executeOnce_packArray (n : UInt32) (stack : List Frame) (rest : List UInt8)
    (hstack : stack.length + 1 ≤ UnpackLimit.depth {}) : ∃ last, last.drop 1 = rest ∧
      executeOnce {} .header stack false (packArray n ++ rest)
        = if n.toNat = 0 then .ok (pushProc stack (.array []) last)
          else .ok (.going .header (.array [] n.toNat :: stack) false rest) := by
  have hor : ∀ l < 16, 0x90 ||| l = 0x90 + l := by decide
  have hlong : ∀ {b : UInt8} {w : ℕ}, bodyOf b.toNat = some (.array, w) → 0 < w →
      n.toNat < 256 ^ w → ∃ last, last.drop 1 = rest ∧
        executeOnce {} .header stack false (b :: store w n.toNat ++ rest)
          = if n.toNat = 0 then .ok (pushProc stack (.array []) last)
            else .ok (.going .header (.array [] n.toNat :: stack) false rest) := by
    intro b w hb hw hlt
    have hdrop := drop_body (store_ne_nil hw n.toNat) rest
    rw [length_store] at hdrop
    refine ⟨_, hdrop, ?_⟩
    have hread := readBody_array (store w n.toNat) stack rest
    rw [length_store, load_store_of_lt hlt, pushArray_eq n _ hstack, hdrop] at hread
    exact (executeOnce_body (readHeader_of_bodyOf hb)).trans hread
  rcases lt_or_ge n.toNat 16 with h16 | h16
  · have hsel : (0x90 ||| n).toUInt8.toNat = 0x90 + n.toNat :=
      toNat_selector (by decide) h16 (hor _ h16)
    refine ⟨(0x90 ||| n).toUInt8 :: rest, rfl, ?_⟩
    have hread := readHeader_fixarray hsel h16 stack ((0x90 ||| n).toUInt8 :: rest)
    rw [pushArray_eq n _ hstack] at hread
    rw [packArray, if_pos h16, List.singleton_append]
    split_ifs at hread ⊢
    · exact executeOnce_header hread (pushProc_ne_reading _ _ _)
    · exact executeOnce_header hread nofun
  · rcases lt_or_ge n.toNat 65536 with h65536 | h65536
    · rw [packArray, if_neg (by omega), if_pos h65536]
      exact hlong rfl (by decide) h65536
    · rw [packArray, if_neg (by omega), if_neg (by omega)]
      exact hlong rfl (by decide) n.toNat_lt

/-- **The items fill the container**: the last one closes it. -/
theorem delivers_items {parts : List (List UInt8)} {objs : List Object}
    (h : List.Forall₂ (Delivers depth) parts objs) (hne : objs ≠ []) :
    ∃ rounds, 0 < rounds ∧ rounds ≤ parts.flatten.length ∧ ∀ fuel items stack rest,
      stack.length + (depth + 1) ≤ UnpackLimit.depth {} →
        execute {} (rounds + fuel) .header (.array items objs.length :: stack) false
          (parts.flatten ++ rest) = resume {} fuel stack (.array (items ++ objs)) rest := by
  induction h with
  | nil => exact absurd rfl hne
  | @cons part obj parts objs hpart hparts ih =>
    obtain ⟨first, hfirst, hlen, hrun⟩ := hpart
    rcases eq_or_ne objs [] with rfl | hobjs
    · cases hparts
      refine ⟨first, hfirst, by simpa using hlen, fun fuel items stack rest hstack => ?_⟩
      rw [List.flatten_cons, List.flatten_nil, List.append_nil,
        hrun _ _ _ (by rw [List.length_cons]; omega)]
      rfl
    · obtain ⟨rounds, hpos, hle, hrest⟩ := ih hobjs
      have hbytes : first + rounds ≤ (part :: parts).flatten.length := by
        rw [List.flatten_cons, List.length_append]
        omega
      refine ⟨first + rounds, by omega, hbytes, fun fuel items stack rest hstack => ?_⟩
      have hcount : objs.length ≠ 0 := by rwa [ne_eq, List.length_eq_zero_iff]
      have hpush : pushItem (.array items (obj :: objs).length :: stack) obj
          = .inr (.array (items ++ [obj]) objs.length :: stack) := by
        rw [pushItem, List.length_cons, Nat.add_sub_cancel, if_neg hcount]
      have hmore : parts.flatten ++ rest ≠ [] := by
        rw [← List.length_pos_iff, List.length_append]
        omega
      rw [List.flatten_cons, List.append_assoc, Nat.add_assoc,
        hrun _ _ _ (by rw [List.length_cons]; omega), resume, hpush]
      dsimp only
      rw [if_neg hmore, hrest _ _ _ _ hstack, List.append_assoc, List.singleton_append]

theorem delivers_array {parts : List (List UInt8)} {objs : List Object} {n : UInt32}
    (h : List.Forall₂ (Delivers depth) parts objs) (hn : n.toNat = objs.length) :
    Delivers (depth + 1) (packArray n ++ parts.flatten) (.array objs) := by
  have hhead : 0 < (packArray n).length := by
    rw [packArray]
    split_ifs <;> simp
  rcases eq_or_ne objs [] with rfl | hobjs
  · cases h
    refine ⟨1, Nat.one_pos, by simpa using Nat.succ_le_of_lt hhead,
      fun fuel stack rest hstack => ?_⟩
    obtain ⟨last, hlast, hround⟩ := executeOnce_packArray n stack rest (by omega)
    replace hround := hround.trans (if_pos hn)
    rw [List.flatten_nil, List.append_nil, Nat.add_comm, execute_of_pushProc hround, hlast]
  · obtain ⟨rounds, hpos, hle, hrun⟩ := delivers_items h hobjs
    have hbytes : 1 + rounds ≤ (packArray n ++ parts.flatten).length := by
      rw [List.length_append]
      omega
    refine ⟨1 + rounds, by omega, hbytes, fun fuel stack rest hstack => ?_⟩
    obtain ⟨last, hlast, hround⟩ := executeOnce_packArray n stack (parts.flatten ++ rest) (by omega)
    have hzero : n.toNat ≠ 0 := by rwa [hn, ne_eq, List.length_eq_zero_iff]
    have hmore : parts.flatten ++ rest ≠ [] := by
      rw [← List.length_pos_iff, List.length_append]
      omega
    rw [if_neg hzero] at hround
    rw [List.append_assoc, show 1 + rounds + fuel = rounds + fuel + 1 by omega,
      execute_of_going hround hmore, hn, hrun _ _ _ _ hstack, List.nil_append]

end Msgpack

end RaftCore
