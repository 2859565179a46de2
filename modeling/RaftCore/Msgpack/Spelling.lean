import RaftCore.Msgpack.Machine

/-!
# Msgpack/Spelling — the format of an item

The format, apart from any machine: which bytes are an item, or the start of a container
(`Spells`).  Widths are powers of two, each family of selectors counts them up.

A machine that reads some bytes finds an item exactly when they spell it: what it has read, and
what it will have to read, is a state and the bytes that complete it (`Completes`), and from the
header state these are the spelled items (`completes_header_iff`).  On any bytes it finds a spelled
item, or the one reserved selector, or too little — and then there are bytes that would have gone
on to spell an item (`spelled_cases`).
-/

namespace RaftCore

namespace Msgpack

open BigEndian

/-- The bytes of an item without a container, or of the start of a container. -/
inductive Spells : List UInt8 → Token → Prop where
  | positiveFixint {b : UInt8} (h : b.toNat < 0x80) : Spells [b] (.uint b.toUInt64)
  | negativeFixint {b : UInt8} (h : 0xe0 ≤ b.toNat) : Spells [b] (.int (loadSigned [b]))
  | nil : Spells [0xc0] .nil
  | false : Spells [0xc2] (.boolean false)
  | true : Spells [0xc3] (.boolean true)
  | float {n : List UInt8} (h : n.length = 4) : Spells (0xca :: n) (.float (UInt32.ofNat (load n)))
  | double {n : List UInt8} (h : n.length = 8) :
    Spells (0xcb :: n) (.double (UInt64.ofNat (load n)))
  | uint {n : List UInt8} (k : Fin 4) (h : n.length = 2 ^ k.val) :
    Spells (UInt8.ofNat (0xcc + k) :: n) (.uint (UInt64.ofNat (load n)))
  | int {n : List UInt8} (k : Fin 4) (h : n.length = 2 ^ k.val) :
    Spells (UInt8.ofNat (0xd0 + k) :: n) (.int (loadSigned n))
  | fixstr {s : List UInt8} (h : s.length < 32) :
    Spells (UInt8.ofNat (0xa0 + s.length) :: s) (.str s)
  | str {n s : List UInt8} (k : Fin 3) (h : n.length = 2 ^ k.val) (hs : s.length = load n) :
    Spells (UInt8.ofNat (0xd9 + k) :: (n ++ s)) (.str s)
  | bin {n s : List UInt8} (k : Fin 3) (h : n.length = 2 ^ k.val) (hs : s.length = load n) :
    Spells (UInt8.ofNat (0xc4 + k) :: (n ++ s)) (.bin s)
  | fixext {s : List UInt8} (k : Fin 5) (h : s.length = 2 ^ k.val + 1) :
    Spells (UInt8.ofNat (0xd4 + k) :: s) (.ext s)
  | ext {n s : List UInt8} (k : Fin 3) (h : n.length = 2 ^ k.val) (hs : s.length = load n + 1) :
    Spells (UInt8.ofNat (0xc7 + k) :: (n ++ s)) (.ext s)
  | fixarray {size : ℕ} (h : size < 16) : Spells [UInt8.ofNat (0x90 + size)] (.array size)
  | array {n : List UInt8} (k : Fin 2) (h : n.length = 2 ^ (k.val + 1)) :
    Spells (UInt8.ofNat (0xdc + k) :: n) (.array (load n))
  | fixmap {size : ℕ} (h : size < 16) : Spells [UInt8.ofNat (0x80 + size)] (.map size)
  | map {n : List UInt8} (k : Fin 2) (h : n.length = 2 ^ (k.val + 1)) :
    Spells (UInt8.ofNat (0xde + k) :: n) (.map (load n))

/-- What an item is made of is no longer than its bytes. -/
theorem Spells.length_content {bytes n : List UInt8} {t : Token} (h : Spells bytes t)
    (ht : t = .str n ∨ t = .bin n ∨ t = .ext n) : n.length ≤ bytes.length := by
  cases h <;> rcases ht with ht | ht | ht <;> cases ht <;>
    simp only [List.length_cons, List.length_append] <;> omega

/-- A string's size has at most 32 bits. -/
theorem Spells.content_lt {bytes n : List UInt8} {t : Token} (h : Spells bytes t)
    (ht : t = .str n ∨ t = .bin n) : n.length < 2 ^ 32 := by
  have hload : ∀ {m : List UInt8} (k : Fin 3), m.length = 2 ^ k.val → load m < 2 ^ 32 := by
    intro m k hm
    have hle : 2 ^ k.val ≤ 2 ^ 2 := Nat.pow_le_pow_right (by decide) (by omega)
    calc load m < 256 ^ m.length := load_lt m
      _ ≤ 256 ^ 4 := Nat.pow_le_pow_right (by decide) (hm ▸ hle)
  cases h with
  | fixstr h =>
    rcases ht with ht | ht <;> cases ht
    omega
  | str k h hs | bin k h hs =>
    rcases ht with ht | ht <;> cases ht
    exact hs ▸ hload k h
  | _ => rcases ht with ht | ht <;> cases ht

/-- A signed number on the wire has at most 64 bits. -/
theorem Spells.int_bounds {bytes : List UInt8} {d : ℤ} (h : Spells bytes (.int d)) :
    -2 ^ 63 ≤ d ∧ d < 2 ^ 63 := by
  have hbounds : ∀ {n : List UInt8}, n ≠ [] → n.length ≤ 8 →
      -2 ^ 63 ≤ loadSigned n ∧ loadSigned n < 2 ^ 63 := fun {n} hne hlen => by
    have hbounds := loadSigned_bounds (w := 7) hne hlen
    norm_num at hbounds ⊢
    exact hbounds
  cases h with
  | negativeFixint h => exact hbounds (List.cons_ne_nil _ _) (Nat.le_add_left 1 7)
  | int k h =>
    have hpos : 0 < 2 ^ k.val := Nat.two_pow_pos _
    have hle : 2 ^ k.val ≤ 2 ^ 3 := Nat.pow_le_pow_right (by decide) (by omega)
    exact hbounds (List.length_pos_iff.mp (h ▸ hpos)) (h ▸ hle)

/-- The bytes that complete an item in a state. -/
inductive Completes : Cs → List UInt8 → Token → Prop where
  | selector {b : UInt8} {t : Token} (h : lexHeader b = .token t) : Completes .header [b] t
  | announced {b : UInt8} {what : Reading} {trail : ℕ+} {bytes : List UInt8} {t : Token}
    (h : lexHeader b = .body what trail) (hbytes : Completes (.reading what trail) bytes t) :
    Completes .header (b :: bytes) t
  | body {what : Reading} {n : List UInt8} {trail : ℕ+} {t : Token} (hn : n.length = trail)
    (h : lexBody what n = .token t) : Completes (.reading what trail) n t
  | further {what what' : Reading} {n bytes : List UInt8} {trail trail' : ℕ+} {t : Token}
    (hn : n.length = trail) (h : lexBody what n = .body what' trail')
    (hbytes : Completes (.reading what' trail') bytes t) :
    Completes (.reading what trail) (n ++ bytes) t

section Machine

variable {κ γ : Type} {handle : κ → Token → Handled κ γ} {bad : κ → γ} {k k' : κ} {cs : Cs}
  {bytes : List UInt8} {t : Token}

theorem Completes.ne_nil (h : Completes cs bytes t) : bytes ≠ [] := by
  cases h with
  | selector | announced => exact List.cons_ne_nil _ _
  | @body _ _ trail _ hn _ =>
    have := trail.pos
    exact List.length_pos_iff.mp (by omega)
  | @further _ _ _ _ trail _ _ hn _ _ =>
    have := trail.pos
    refine List.append_ne_nil_of_left_ne_nil (List.length_pos_iff.mp ?_) _
    omega

/-- **What completes an item is read as one**, and the parser goes on. -/
theorem Completes.read_goes (h : Completes cs bytes t) (hgoes : handle k t = .goes k')
    (rest : List UInt8) : (machine handle bad).read (cs, k) (bytes ++ rest)
      = (machine handle bad).read (.header, k') rest := by
  induction h with
  | @selector b t hlex =>
    refine Reader.read_of_next ((machine_step_header b rest).trans ?_)
    rw [hlex, settle, hgoes]
    rfl
  | @announced b what trail bytes t hlex _ ih =>
    rw [← ih hgoes]
    refine Reader.read_of_next ((machine_step_header b (bytes ++ rest)).trans ?_)
    rw [hlex]
    rfl
  | @body what n trail t hn hlex =>
    refine Reader.read_of_next ((machine_step_body (by simp [hn])).trans ?_)
    rw [← hn, List.take_left, hlex, settle, hgoes, List.drop_left]
  | @further what what' n bytes trail trail' t hn hlex _ ih =>
    rw [← ih hgoes, List.append_assoc]
    refine Reader.read_of_next ((machine_step_body (by simp [hn])).trans ?_)
    rw [← hn, List.take_left, hlex, settle, List.drop_left]

/-- The end of a piece of input, counted from further behind. -/
theorem drop_end {p q : List UInt8} (back : Bool) (hq : q ≠ []) (rest : List UInt8) :
    (p ++ q ++ rest).drop (if back then (p ++ q).length - 1 else (p ++ q).length)
      = (q ++ rest).drop (if back then q.length - 1 else q.length) := by
  have hpos := List.length_pos_iff.mpr hq
  have hend : (if back then (p ++ q).length - 1 else (p ++ q).length)
      = p.length + if back then q.length - 1 else q.length := by
    rw [List.length_append]
    split_ifs <;> omega
  rw [hend, ← List.drop_drop, List.append_assoc, List.drop_left]

/-- …or the parser ends, with its position behind the item or on the last byte of it. -/
theorem Completes.read_ends {c : γ} {back : Bool} (h : Completes cs bytes t)
    (hends : handle k t = .ends back c) (rest : List UInt8) :
    (machine handle bad).read (cs, k) (bytes ++ rest) = .halted c
      ((bytes ++ rest).drop (if back then bytes.length - 1 else bytes.length)) := by
  induction h with
  | @selector b t hlex =>
    refine Reader.read_of_halt ((machine_step_header b rest).trans ?_)
    rw [hlex, settle, hends]
    rfl
  | @announced b what trail bytes t hlex hbytes ih =>
    have hdrop := drop_end (p := [b]) back hbytes.ne_nil rest
    rw [List.singleton_append] at hdrop
    rw [hdrop, ← ih hends]
    refine Reader.read_of_next ((machine_step_header b (bytes ++ rest)).trans ?_)
    rw [hlex]
    rfl
  | @body what n trail t hn hlex =>
    refine Reader.read_of_halt ((machine_step_body (by simp [hn])).trans ?_)
    rw [← hn, List.take_left, hlex, settle, hends]
  | @further what what' n bytes trail trail' t hn hlex hbytes ih =>
    rw [drop_end back hbytes.ne_nil, ← ih hends, List.append_assoc]
    refine Reader.read_of_next ((machine_step_body (by simp [hn])).trans ?_)
    rw [← hn, List.take_left, hlex, settle, List.drop_left]

end Machine

/-! ## The switch and the format -/

/-- The selectors that announce a body, family by family. -/
def Announces (selector : ℕ) (what : Reading) (trail : ℕ) : Prop :=
  match what with
  | .uint => ∃ k : Fin 4, selector = 0xcc + k ∧ trail = 2 ^ k.val
  | .int => ∃ k : Fin 4, selector = 0xd0 + k ∧ trail = 2 ^ k.val
  | .float => selector = 0xca ∧ trail = 4
  | .double => selector = 0xcb ∧ trail = 8
  | .fixext => ∃ k : Fin 5, selector = 0xd4 + k ∧ trail = 2 ^ k.val + 1
  | .str => ∃ k : Fin 3, selector = 0xd9 + k ∧ trail = 2 ^ k.val
  | .bin => ∃ k : Fin 3, selector = 0xc4 + k ∧ trail = 2 ^ k.val
  | .ext => ∃ k : Fin 3, selector = 0xc7 + k ∧ trail = 2 ^ k.val
  | .array => ∃ k : Fin 2, selector = 0xdc + k ∧ trail = 2 ^ (k.val + 1)
  | .map => ∃ k : Fin 2, selector = 0xde + k ∧ trail = 2 ^ (k.val + 1)
  | .strValue | .binValue | .extValue => False

theorem announces_of_bodyOf {n trail : ℕ} {what : Reading} (h : bodyOf n = some (what, trail)) :
    Announces n what trail := by
  unfold bodyOf at h
  split at h
  case h_29 => cases h
  all_goals
    obtain ⟨rfl, rfl⟩ : _ = what ∧ _ = trail := Prod.mk.inj (Option.some.inj h)
    first
    | exact ⟨rfl, rfl⟩
    | exact ⟨0, rfl, rfl⟩
    | exact ⟨1, rfl, rfl⟩
    | exact ⟨2, rfl, rfl⟩
    | exact ⟨3, rfl, rfl⟩
    | exact ⟨4, rfl, rfl⟩

theorem bodyOf_of_announces {n trail : ℕ} {what : Reading} (h : Announces n what trail) :
    bodyOf n = some (what, trail) := by
  cases what with
  | uint | int | fixext | str | bin | ext | array | map =>
    obtain ⟨k, rfl, rfl⟩ := h
    fin_cases k <;> rfl
  | float | double =>
    obtain ⟨rfl, rfl⟩ := h
    rfl
  | strValue | binValue | extValue => exact h.elim

/-- The items a body completes. -/
def CompletesBody (what : Reading) (trail : ℕ) (bytes : List UInt8) (t : Token) : Prop :=
  match what with
  | .uint => bytes.length = trail ∧ t = .uint (UInt64.ofNat (load bytes))
  | .int => bytes.length = trail ∧ t = .int (loadSigned bytes)
  | .float => bytes.length = trail ∧ t = .float (UInt32.ofNat (load bytes))
  | .double => bytes.length = trail ∧ t = .double (UInt64.ofNat (load bytes))
  | .fixext | .extValue => bytes.length = trail ∧ t = .ext bytes
  | .str => ∃ n s, bytes = n ++ s ∧ n.length = trail ∧ s.length = load n ∧ t = .str s
  | .bin => ∃ n s, bytes = n ++ s ∧ n.length = trail ∧ s.length = load n ∧ t = .bin s
  | .ext => ∃ n s, bytes = n ++ s ∧ n.length = trail ∧ s.length = load n + 1 ∧ t = .ext s
  | .array => bytes.length = trail ∧ t = .array (load bytes)
  | .map => bytes.length = trail ∧ t = .map (load bytes)
  | .strValue => bytes.length = trail ∧ t = .str bytes
  | .binValue => bytes.length = trail ∧ t = .bin bytes

/-- A content is an item as soon as it is there. -/
theorem Completes.of_value {what : Reading} {value : List UInt8 → Token} {trail : ℕ+}
    {s : List UInt8} {t : Token} (h : Completes (.reading what trail) s t)
    (hwhat : ∀ s, lexBody what s = .token (value s)) : s.length = trail ∧ t = value s := by
  cases h with
  | body hn hlex => exact ⟨hn, (Lexed.token.inj ((hwhat s).symm.trans hlex)).symm⟩
  | further hn hlex hbytes => cases (hwhat _).symm.trans hlex

/-- A content after its length. -/
theorem completes_content {what inner : Reading} {value : List UInt8 → Token} {trail : ℕ+}
    (hlex : ∀ n, lexBody what n = lexContent (load n) inner (value []))
    (hinner : ∀ s, lexBody inner s = .token (value s)) {bytes : List UInt8} {t : Token} :
    Completes (.reading what trail) bytes t ↔
      ∃ n s, bytes = n ++ s ∧ n.length = trail ∧ s.length = load n ∧ t = value s := by
  refine ⟨fun h => ?_, ?_⟩
  · cases h with
    | body hn htoken =>
      rw [hlex, lexContent] at htoken
      split_ifs at htoken with hpos
      obtain rfl := Lexed.token.inj htoken
      exact ⟨bytes, [], (List.append_nil _).symm, hn, (Nat.eq_zero_of_not_pos hpos).symm, rfl⟩
    | @further _ what' n s _ trail' _ hn hbody hs =>
      rw [hlex, lexContent] at hbody
      split_ifs at hbody with hpos
      obtain ⟨rfl, rfl⟩ := Lexed.body.inj hbody
      obtain ⟨hlen, rfl⟩ := hs.of_value hinner
      exact ⟨n, s, rfl, hn, hlen, rfl⟩
  · rintro ⟨n, s, rfl, hn, hs, rfl⟩
    rcases Nat.eq_zero_or_pos (load n) with hzero | hpos
    · obtain rfl := List.length_eq_zero_iff.mp (hs.trans hzero)
      rw [List.append_nil]
      exact .body hn (by rw [hlex, lexContent, dif_neg hzero.not_gt])
    · have hcontent : Completes (.reading inner ⟨load n, hpos⟩) s (value s) := .body hs (hinner s)
      exact .further hn (by rw [hlex, lexContent, dif_pos hpos]) hcontent

theorem completes_reading_iff {what : Reading} {trail : ℕ+} {bytes : List UInt8} {t : Token} :
    Completes (.reading what trail) bytes t ↔ CompletesBody what trail bytes t := by
  cases what with
  | uint | int | float | double | fixext | array | map | strValue | binValue | extValue =>
    refine ⟨fun h => h.of_value fun _ => rfl, ?_⟩
    rintro ⟨hn, rfl⟩
    exact .body hn rfl
  | str => exact completes_content (fun _ => rfl) fun _ => rfl
  | bin => exact completes_content (fun _ => rfl) fun _ => rfl
  | ext =>
    refine ⟨fun h => ?_, ?_⟩
    · cases h with
      | body hn hlex => cases hlex
      | @further _ what' n s _ trail' _ hn hbody hs =>
        obtain ⟨rfl, rfl⟩ := Lexed.body.inj hbody
        obtain ⟨hlen, rfl⟩ := hs.of_value fun _ => rfl
        exact ⟨n, s, rfl, hn, hlen, rfl⟩
    · rintro ⟨n, s, rfl, hn, hs, rfl⟩
      exact .further hn rfl (.body hs rfl)

/-- The low bits of a selector are its place in its family. -/
theorem add_and {base n : ℕ} (k : ℕ) (hbase : base % 2 ^ k = 0) (hn : n < 2 ^ k) :
    base + n &&& (2 ^ k - 1) = n := by
  rw [Nat.and_two_pow_sub_one_eq_mod, Nat.add_mod, hbase, Nat.zero_add, Nat.mod_mod,
    Nat.mod_eq_of_lt hn]

/-- A selector by its place in its family. -/
theorem eq_ofNat {b : UInt8} {n : ℕ} (h : b.toNat = n) : b = UInt8.ofNat n := by
  rw [← h, UInt8.ofNat_toNat]

theorem spells_of_token {b : UInt8} {t : Token} (h : lexHeader b = .token t) : Spells [b] t := by
  cases hbody : bodyOf b.toNat with
  | some p => cases (lexHeader_of_bodyOf hbody).symm.trans h
  | none =>
    rw [lexHeader_of_none hbody, lexContent] at h
    split_ifs at h with hfix hneg hstr hpos harray hmap hfalse htrue hnil <;>
      obtain rfl := Lexed.token.inj h
    · exact .positiveFixint (by omega)
    · exact .negativeFixint hneg
    · obtain ⟨n, hn⟩ := Nat.exists_eq_add_of_le hstr.1
      have hand : 0xa0 + n &&& 0x1f = n := add_and 5 (by norm_num) (by omega)
      rw [hn, hand] at hpos
      obtain rfl := Nat.eq_zero_of_not_pos hpos
      rw [eq_ofNat hn]
      exact .fixstr (s := []) (Nat.succ_pos _)
    · obtain ⟨n, hn⟩ := Nat.exists_eq_add_of_le harray.1
      have hand : 0x90 + n &&& 0x0f = n := add_and 4 (by norm_num) (by omega)
      rw [hn, hand, eq_ofNat hn]
      exact .fixarray (by omega)
    · obtain ⟨n, hn⟩ := Nat.exists_eq_add_of_le hmap.1
      have hand : 0x80 + n &&& 0x0f = n := add_and 4 (by norm_num) (by omega)
      rw [hn, hand, eq_ofNat hn]
      exact .fixmap (by omega)
    · rw [eq_ofNat hfalse]
      exact .false
    · rw [eq_ofNat htrue]
      exact .true
    · rw [eq_ofNat hnil]
      exact .nil

/-- The short strings carry their length in the selector. -/
theorem lexHeader_fixstr {b : UInt8} {what : Reading} {trail : ℕ+}
    (h : lexHeader b = .body what trail) (hbody : bodyOf b.toNat = none) :
    what = .strValue ∧ trail.val < 32 ∧ b = UInt8.ofNat (0xa0 + trail.val) := by
  rw [lexHeader_of_none hbody, lexContent] at h
  split_ifs at h with hfix hneg hstr hpos harray hmap
  obtain ⟨n, hn⟩ := Nat.exists_eq_add_of_le hstr.1
  have hand : 0xa0 + n &&& 0x1f = n := add_and 5 (by norm_num) (by omega)
  obtain ⟨rfl, rfl⟩ := Lexed.body.inj h
  have hval : b.toNat &&& 0x1f = n := by rw [hn, hand]
  refine ⟨rfl, ?_, eq_ofNat ?_⟩
  · change b.toNat &&& 0x1f < 32
    omega
  · change b.toNat = 0xa0 + (b.toNat &&& 0x1f)
    rw [hval, hn]

theorem spells_of_completesBody {b : UInt8} {what : Reading} {trail : ℕ} {bytes : List UInt8}
    {t : Token} (hb : Announces b.toNat what trail) (h : CompletesBody what trail bytes t) :
    Spells (b :: bytes) t := by
  cases what with
  | uint =>
    obtain ⟨k, hsel, rfl⟩ := hb
    obtain ⟨hn, rfl⟩ := h
    rw [eq_ofNat hsel]
    exact .uint k hn
  | int =>
    obtain ⟨k, hsel, rfl⟩ := hb
    obtain ⟨hn, rfl⟩ := h
    rw [eq_ofNat hsel]
    exact .int k hn
  | float =>
    obtain ⟨hsel, rfl⟩ := hb
    obtain ⟨hn, rfl⟩ := h
    rw [eq_ofNat hsel]
    exact .float hn
  | double =>
    obtain ⟨hsel, rfl⟩ := hb
    obtain ⟨hn, rfl⟩ := h
    rw [eq_ofNat hsel]
    exact .double hn
  | fixext =>
    obtain ⟨k, hsel, rfl⟩ := hb
    obtain ⟨hn, rfl⟩ := h
    rw [eq_ofNat hsel]
    exact .fixext k hn
  | str =>
    obtain ⟨k, hsel, rfl⟩ := hb
    obtain ⟨n, s, rfl, hn, hs, rfl⟩ := h
    rw [eq_ofNat hsel]
    exact .str k hn hs
  | bin =>
    obtain ⟨k, hsel, rfl⟩ := hb
    obtain ⟨n, s, rfl, hn, hs, rfl⟩ := h
    rw [eq_ofNat hsel]
    exact .bin k hn hs
  | ext =>
    obtain ⟨k, hsel, rfl⟩ := hb
    obtain ⟨n, s, rfl, hn, hs, rfl⟩ := h
    rw [eq_ofNat hsel]
    exact .ext k hn hs
  | array =>
    obtain ⟨k, hsel, rfl⟩ := hb
    obtain ⟨hn, rfl⟩ := h
    rw [eq_ofNat hsel]
    exact .array k hn
  | map =>
    obtain ⟨k, hsel, rfl⟩ := hb
    obtain ⟨hn, rfl⟩ := h
    rw [eq_ofNat hsel]
    exact .map k hn
  | strValue | binValue | extValue => exact hb.elim

theorem toNat_ofNat {n : ℕ} (h : n < 256) : (UInt8.ofNat n).toNat = n := by
  rw [UInt8.toNat_ofNat', Nat.mod_eq_of_lt h]

theorem lexHeader_ofNat_fixstr {n : ℕ} (h : n < 32) :
    lexHeader (UInt8.ofNat (0xa0 + n)) = lexContent n .strValue (.str []) := by
  have hsel : (UInt8.ofNat (0xa0 + n)).toNat = 0xa0 + n := toNat_ofNat (by omega)
  have hand : 0xa0 + n &&& 0x1f = n :=
    add_and 5 (by norm_num) (by omega)
  rw [lexHeader_of_none (bodyOf_eq_none (by omega)), hsel, if_neg (by omega), if_neg (by omega),
    if_pos (by omega), hand]

theorem lexHeader_ofNat_fixarray {n : ℕ} (h : n < 16) :
    lexHeader (UInt8.ofNat (0x90 + n)) = .token (.array n) := by
  have hsel : (UInt8.ofNat (0x90 + n)).toNat = 0x90 + n := toNat_ofNat (by omega)
  have hand : 0x90 + n &&& 0x0f = n :=
    add_and 4 (by norm_num) (by omega)
  rw [lexHeader_of_none (bodyOf_eq_none (by omega)), hsel, if_neg (by omega), if_neg (by omega),
    if_neg (by omega), if_pos (by omega), hand]

theorem lexHeader_ofNat_fixmap {n : ℕ} (h : n < 16) :
    lexHeader (UInt8.ofNat (0x80 + n)) = .token (.map n) := by
  have hsel : (UInt8.ofNat (0x80 + n)).toNat = 0x80 + n := toNat_ofNat (by omega)
  have hand : 0x80 + n &&& 0x0f = n :=
    add_and 4 (by norm_num) (by omega)
  rw [lexHeader_of_none (bodyOf_eq_none (by omega)), hsel, if_neg (by omega), if_neg (by omega),
    if_neg (by omega), if_neg (by omega), if_pos (by omega), hand]

theorem completes_announced (what : Reading) {n trail : ℕ} {bytes : List UInt8} {t : Token}
    (hn : n < 256) (hannounces : Announces n what trail) (h : CompletesBody what trail bytes t) :
    Completes .header (UInt8.ofNat n :: bytes) t :=
  .announced (lexHeader_of_bodyOf (bodyOf_of_announces ((toNat_ofNat hn).symm ▸ hannounces)))
    (completes_reading_iff.mpr h)

theorem completes_of_spells {bytes : List UInt8} {t : Token} (h : Spells bytes t) :
    Completes .header bytes t := by
  cases h with
  | @positiveFixint b h =>
    refine .selector ?_
    rw [lexHeader_of_none (bodyOf_eq_none (by omega)), if_pos (by omega)]
  | @negativeFixint b h =>
    refine .selector ?_
    have hbody : bodyOf b.toNat = none := by
      rw [Option.eq_none_iff_forall_ne_some]
      intro p hp
      have hrange := bodyOf_range hp
      omega
    rw [lexHeader_of_none hbody, if_neg (by omega), if_pos h]
  | nil | false | true => exact .selector rfl
  | float h => exact completes_announced .float (by norm_num) ⟨rfl, rfl⟩ ⟨h, rfl⟩
  | double h => exact completes_announced .double (by norm_num) ⟨rfl, rfl⟩ ⟨h, rfl⟩
  | uint k h => exact completes_announced .uint (by omega) ⟨k, rfl, rfl⟩ ⟨h, rfl⟩
  | int k h => exact completes_announced .int (by omega) ⟨k, rfl, rfl⟩ ⟨h, rfl⟩
  | @fixstr s h =>
    have hlex := lexHeader_ofNat_fixstr h
    rcases s with _ | ⟨b, s⟩
    · exact .selector hlex
    · exact .announced hlex (completes_reading_iff.mpr ⟨rfl, rfl⟩)
  | @str n s k h hs =>
    exact completes_announced .str (by omega) ⟨k, rfl, rfl⟩ ⟨n, s, rfl, h, hs, rfl⟩
  | @bin n s k h hs =>
    exact completes_announced .bin (by omega) ⟨k, rfl, rfl⟩ ⟨n, s, rfl, h, hs, rfl⟩
  | fixext k h => exact completes_announced .fixext (by omega) ⟨k, rfl, rfl⟩ ⟨h, rfl⟩
  | @ext n s k h hs =>
    exact completes_announced .ext (by omega) ⟨k, rfl, rfl⟩ ⟨n, s, rfl, h, hs, rfl⟩
  | fixarray h => exact .selector (lexHeader_ofNat_fixarray h)
  | array k h => exact completes_announced .array (by omega) ⟨k, rfl, rfl⟩ ⟨h, rfl⟩
  | fixmap h => exact .selector (lexHeader_ofNat_fixmap h)
  | map k h => exact completes_announced .map (by omega) ⟨k, rfl, rfl⟩ ⟨h, rfl⟩

/-- **What a machine completes from the header state is what the format spells.** -/
theorem completes_header_iff {bytes : List UInt8} {t : Token} :
    Completes .header bytes t ↔ Spells bytes t := by
  refine ⟨fun h => ?_, completes_of_spells⟩
  cases h with
  | selector h => exact spells_of_token h
  | @announced b what trail bytes _ h hbytes =>
    have hbody := completes_reading_iff.mp hbytes
    cases hb : bodyOf b.toNat with
    | some p =>
      obtain ⟨rfl, rfl⟩ := Lexed.body.inj ((lexHeader_of_bodyOf hb).symm.trans h)
      exact spells_of_completesBody (announces_of_bodyOf hb) hbody
    | none =>
      obtain ⟨rfl, hlt, rfl⟩ := lexHeader_fixstr h hb
      obtain ⟨hlen, rfl⟩ := hbody
      rw [← hlen] at hlt ⊢
      exact .fixstr hlt

/-! ## Too little -/

/-- A body that is short is the beginning of one. -/
theorem exists_completesBody (what : Reading) {trail : ℕ} {n : List UInt8}
    (h : n.length < trail) : ∃ more t, more ≠ [] ∧ CompletesBody what trail (n ++ more) t := by
  obtain ⟨fill, hfill, hlen⟩ : ∃ fill, fill ≠ [] ∧ (n ++ fill).length = trail := by
    refine ⟨List.replicate (trail - n.length) 0, ?_, ?_⟩
    · rw [ne_eq, List.replicate_eq_nil_iff]
      omega
    · rw [List.length_append, List.length_replicate]
      omega
  have hcontent : ∀ size : ℕ, ∃ more s, more ≠ [] ∧ n ++ more = n ++ fill ++ s ∧ s.length = size :=
    fun size => ⟨fill ++ List.replicate size 0, List.replicate size 0,
      List.append_ne_nil_of_left_ne_nil hfill _, (List.append_assoc ..).symm, List.length_replicate⟩
  cases what with
  | uint | int | float | double | fixext | array | map | strValue | binValue | extValue =>
    exact ⟨fill, _, hfill, hlen, rfl⟩
  | str | bin =>
    obtain ⟨more, s, hmore, heq, hs⟩ := hcontent (load (n ++ fill))
    exact ⟨more, _, hmore, _, s, heq, hlen, hs, rfl⟩
  | ext =>
    obtain ⟨more, s, hmore, heq, hs⟩ := hcontent (load (n ++ fill) + 1)
    exact ⟨more, _, hmore, _, s, heq, hlen, hs, rfl⟩

/-- On a body, a machine finds an item or too little of one. -/
theorem reading_cases (what : Reading) (trail : ℕ+) (xs : List UInt8) :
    (∃ bytes rest t, xs = bytes ++ rest ∧ Completes (.reading what trail) bytes t) ∨
    ((∃ cs rest, ∀ {κ γ : Type} (handle : κ → Token → Handled κ γ) (bad : κ → γ) (k : κ),
        (machine handle bad).read (.reading what trail, k) xs = .waiting (cs, k) rest) ∧
      ∃ more t, more ≠ [] ∧ Completes (.reading what trail) (xs ++ more) t) := by
  induction hn : xs.length using Nat.strongRecOn generalizing what trail xs with
  | ind n ih =>
    rcases lt_or_ge xs.length trail with hlt | hge
    · obtain ⟨more, t, hmore, hcompletes⟩ := exists_completesBody what hlt
      refine .inr ⟨⟨.reading what trail, xs, fun handle bad k => ?_⟩, more, t, hmore,
        completes_reading_iff.mpr hcompletes⟩
      exact Reader.read_of_wait (machine_step_wait hlt)
    · have htake : (xs.take trail).length = trail := List.length_take_of_le hge
      have hsplit : xs.take trail ++ xs.drop trail = xs := List.take_append_drop ..
      cases hlex : lexBody what (xs.take trail) with
      | token t => exact .inl ⟨xs.take trail, xs.drop trail, t, hsplit.symm, .body htake hlex⟩
      | reserved =>
        cases what with
        | str | bin =>
          rw [lexBody, lexContent] at hlex
          split_ifs at hlex
        | _ => cases hlex
      | body what' trail' =>
        have hlt : (xs.drop trail).length < n := by
          have hpos := trail.pos
          rw [List.length_drop]
          omega
        rcases ih _ hlt what' trail' (xs.drop trail) rfl with
          ⟨bytes, rest, t, hrest, hbytes⟩ | ⟨⟨cs, rest, hwait⟩, more, t, hmore, hbytes⟩
        · refine .inl ⟨xs.take trail ++ bytes, rest, t, ?_, .further htake hlex hbytes⟩
          rw [List.append_assoc, ← hrest, hsplit]
        · refine .inr ⟨⟨cs, rest, fun handle bad k => ?_⟩, more, t, hmore, ?_⟩
          · rw [← hwait handle bad k]
            refine Reader.read_of_next ((machine_step_body hge).trans ?_)
            rw [hlex, settle]
          · rw [← hsplit, List.append_assoc]
            exact .further htake hlex hbytes

/-- **On any bytes a machine finds a spelled item, the reserved selector, or too little** — and
too little is the beginning of an item. -/
theorem spelled_cases (xs : List UInt8) :
    (∃ bytes rest t, xs = bytes ++ rest ∧ Spells bytes t) ∨
    (∃ b rest, xs = b :: rest ∧ lexHeader b = .reserved) ∨
    ((∃ cs rest, ∀ {κ γ : Type} (handle : κ → Token → Handled κ γ) (bad : κ → γ) (k : κ),
        (machine handle bad).read (.header, k) xs = .waiting (cs, k) rest) ∧
      ∃ more t, more ≠ [] ∧ Spells (xs ++ more) t) := by
  match xs with
  | [] =>
    refine .inr (.inr ⟨⟨.header, [], fun handle bad k => rfl⟩, [0xc0], .nil, ?_, .nil⟩)
    exact List.cons_ne_nil _ _
  | b :: rest =>
    cases hlex : lexHeader b with
    | token t => exact .inl ⟨[b], rest, t, rfl, spells_of_token hlex⟩
    | reserved => exact .inr (.inl ⟨b, rest, rfl, hlex⟩)
    | body what trail =>
      rcases reading_cases what trail rest with
        ⟨bytes, rest', t, rfl, hbytes⟩ | ⟨⟨cs, rest', hwait⟩, more, t, hmore, hbytes⟩
      · exact .inl ⟨b :: bytes, rest', t, rfl, completes_header_iff.mp (.announced hlex hbytes)⟩
      · refine .inr (.inr ⟨⟨cs, rest', fun handle bad k => ?_⟩, more, t, hmore,
          completes_header_iff.mp (.announced hlex hbytes)⟩)
        rw [← hwait handle bad k]
        refine Reader.read_of_next ((machine_step_header b rest).trans ?_)
        rw [hlex]
        rfl

theorem read_reserved {κ γ : Type} {handle : κ → Token → Handled κ γ} {bad : κ → γ} {k : κ}
    (rest : List UInt8) : (machine handle bad).read (.header, k) (0xc1 :: rest)
      = .halted (bad k) (0xc1 :: rest) :=
  Reader.read_of_halt (machine_step_header 0xc1 rest)

theorem bodyOf_ne_none {n : ℕ} (hlo : 0xc4 ≤ n) (hhi : n ≤ 0xdf) : bodyOf n ≠ none := by
  interval_cases n <;> exact Option.some_ne_none _

/-- Only one selector is reserved. -/
theorem lexHeader_reserved {b : UInt8} (h : lexHeader b = .reserved) : b = 0xc1 := by
  cases hbody : bodyOf b.toNat with
  | some p => cases (lexHeader_of_bodyOf hbody).symm.trans h
  | none =>
    have hannounces : ¬(0xc4 ≤ b.toNat ∧ b.toNat ≤ 0xdf) :=
      fun hrange => bodyOf_ne_none hrange.1 hrange.2 hbody
    rw [lexHeader_of_none hbody, lexContent] at h
    split_ifs at h with hfix hneg hstr hpos harray hmap hfalse htrue hnil
    exact eq_ofNat (show b.toNat = 0xc1 by omega)

/-! ## Two machines on the same bytes -/

/-- **Machines that handle items alike read alike**: what relates their states is kept by each
item, until both of them end, or the second one gives up. -/
theorem read_sim {κ γ κ' γ' : Type} {handle : κ → Token → Handled κ γ} {bad : κ → γ}
    {handle' : κ' → Token → Handled κ' γ'} {bad' : κ' → γ'} {R : κ → κ' → List UInt8 → Prop}
    {Q : Reader.Outcome (Cs × κ) UInt8 γ → Reader.Outcome (Cs × κ') UInt8 γ' → Prop}
    (hwait : ∀ {k k' xs} cs rest, R k k' xs → Q (.waiting (cs, k) rest) (.waiting (cs, k') rest))
    (hbad : ∀ {k k' xs}, R k k' xs → Q (.halted (bad k) xs) (.halted (bad' k') xs))
    (htoken : ∀ {k k' bytes rest t}, R k k' (bytes ++ rest) → Spells bytes t →
      (∃ l l', handle k t = .goes l ∧ handle' k' t = .goes l' ∧ R l l' rest) ∨
      (∃ back c c', handle k t = .ends back c ∧ handle' k' t = .ends back c' ∧
        ∀ rest, Q (.halted c rest) (.halted c' rest)) ∨
      (∃ back c', handle' k' t = .ends back c' ∧ ∀ rest', Q
        ((machine handle bad).read (.header, k) (bytes ++ rest)) (.halted c' rest')))
    {k : κ} {k' : κ'} {xs : List UInt8} (h : R k k' xs) :
    Q ((machine handle bad).read (.header, k) xs)
      ((machine handle' bad').read (.header, k') xs) := by
  induction hn : xs.length using Nat.strongRecOn generalizing k k' xs with
  | ind n ih =>
    rcases spelled_cases xs with ⟨bytes, rest, t, rfl, ht⟩ | ⟨b, rest, rfl, hlex⟩ |
      ⟨⟨cs, rest, hwaiting⟩, -⟩
    · have hcompletes := completes_of_spells ht
      rcases htoken h ht with ⟨l, l', hgoes, hgoes', hrel⟩ | ⟨back, c, c', hends, hends', hq⟩ |
        ⟨back, c', hends', hq⟩
      · have hlt : rest.length < n := by
          have hpos := List.length_pos_iff.mpr hcompletes.ne_nil
          rw [← hn, List.length_append]
          omega
        rw [hcompletes.read_goes hgoes, hcompletes.read_goes hgoes']
        exact ih _ hlt hrel rfl
      · rw [hcompletes.read_ends hends, hcompletes.read_ends hends']
        exact hq _
      · rw [hcompletes.read_ends hends']
        exact hq _
    · obtain rfl := lexHeader_reserved hlex
      rw [read_reserved, read_reserved]
      exact hbad h
    · rw [hwaiting, hwaiting]
      exact hwait cs rest h

/-- What each item keeps holds where reading ends. -/
theorem read_rule {κ γ : Type} {handle : κ → Token → Handled κ γ} {bad : κ → γ} {I : κ → Prop}
    {Q : Reader.Outcome (Cs × κ) UInt8 γ → Prop}
    (hwait : ∀ {k} cs rest, I k → Q (.waiting (cs, k) rest))
    (hbad : ∀ {k} rest, I k → Q (.halted (bad k) rest))
    (htoken : ∀ {k} t, I k → (∃ l, handle k t = .goes l ∧ I l) ∨
      ∃ back c, handle k t = .ends back c ∧ ∀ rest, Q (.halted c rest))
    {k : κ} (h : I k) (xs : List UInt8) : Q ((machine handle bad).read (.header, k) xs) := by
  have hsim :
      (machine handle bad).read (.header, k) xs = (machine handle bad).read (.header, k) xs ∧
        Q ((machine handle bad).read (.header, k) xs) := by
    refine read_sim (R := fun k k' _ => k = k' ∧ I k) (Q := fun o o' => o = o' ∧ Q o) ?_ ?_ ?_
      ⟨rfl, h⟩
    · rintro k k' xs cs rest ⟨rfl, hk⟩
      exact ⟨rfl, hwait cs rest hk⟩
    · rintro k k' xs ⟨rfl, hk⟩
      exact ⟨rfl, hbad xs hk⟩
    · rintro k k' bytes rest t ⟨rfl, hk⟩ -
      rcases htoken t hk with ⟨l, hgoes, hl⟩ | ⟨back, c, hends, hq⟩
      · exact .inl ⟨l, l, hgoes, hgoes, rfl, hl⟩
      · exact .inr (.inl ⟨back, c, c, hends, hends, fun rest => ⟨rfl, hq rest⟩⟩)
  exact hsim.2

end Msgpack

end RaftCore
