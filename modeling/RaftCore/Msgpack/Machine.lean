import Mathlib.Data.PNat.Basic
import RaftCore.Machinery.Reader
import RaftCore.Msgpack.Delivery

/-!
# Msgpack/Machine — the parsers as readers

Every parser of the library runs the same switch: a selector is an item, or it announces a body,
and a body is an item or announces a further one (`lexHeader`, `lexBody`).  What differs is what is
done with an item (a `Handled`).  So there is one machine for all of them (`machine`), which reads
its bytes as a `Reader` does — it resumes where it was short of bytes.

`context` is the machine of `v1/unpack.hpp`, and `execute_eq_read` says so: `execute` returns what
the machine reads, as soon as it has a round for each byte.
-/

namespace RaftCore

namespace Msgpack

open BigEndian

/-- An item, or the start of one: what a selector and its bodies amount to. -/
inductive Token where
  | nil
  | boolean (b : Bool)
  | uint (u64 : UInt64)
  | int (d : ℤ)
  | float (bits : UInt32)
  | double (bits : UInt64)
  | str (bytes : List UInt8)
  | bin (bytes : List UInt8)
  | ext (bytes : List UInt8)
  | array (size : ℕ)
  | map (size : ℕ)

/-- What the switch finds: an item, the body to wait for, or the one selector with no meaning. -/
inductive Lexed where
  | token (t : Token)
  | body (what : Reading) (trail : ℕ+)
  | reserved

theorem bodyOf_pos {n trail : ℕ} {what : Reading} (h : bodyOf n = some (what, trail)) :
    0 < trail := by
  unfold bodyOf at h
  split at h
  case h_29 => cases h
  all_goals
    obtain rfl : _ = trail := congrArg Prod.snd (Option.some.inj h)
    exact Nat.succ_pos _

/-- A content of `size` bytes; there is no body without bytes. -/
def lexContent (size : ℕ) (what : Reading) (empty : Token) : Lexed :=
  if h : 0 < size then .body what ⟨size, h⟩ else .token empty

/-- The switch on a selector. -/
def lexHeader (b : UInt8) : Lexed :=
  let selector := b.toNat
  if selector ≤ 0x7f then .token (.uint b.toUInt64)
  else if 0xe0 ≤ selector then .token (.int (loadSigned [b]))
  else match h : bodyOf selector with
    | some (what, trail) => .body what ⟨trail, bodyOf_pos h⟩
    | none =>
      if 0xa0 ≤ selector ∧ selector ≤ 0xbf then lexContent (selector &&& 0x1f) .strValue (.str [])
      else if 0x90 ≤ selector ∧ selector ≤ 0x9f then .token (.array (selector &&& 0x0f))
      else if 0x80 ≤ selector ∧ selector ≤ 0x8f then .token (.map (selector &&& 0x0f))
      else if selector = 0xc2 then .token (.boolean false)
      else if selector = 0xc3 then .token (.boolean true)
      else if selector = 0xc0 then .token .nil
      else .reserved

theorem lexHeader_of_bodyOf {b : UInt8} {what : Reading} {trail : ℕ}
    (h : bodyOf b.toNat = some (what, trail)) :
    lexHeader b = .body what ⟨trail, bodyOf_pos h⟩ := by
  have hrange := bodyOf_range h
  unfold lexHeader
  dsimp only
  rw [if_neg (by omega), if_neg (by omega)]
  split
  next what' trail' h' =>
    obtain ⟨rfl, rfl⟩ : what' = what ∧ trail' = trail := by simpa using h'.symm.trans h
    rfl
  next h' => cases h'.symm.trans h

theorem lexHeader_of_none {b : UInt8} (h : bodyOf b.toNat = none) : lexHeader b =
    if b.toNat ≤ 0x7f then .token (.uint b.toUInt64)
    else if 0xe0 ≤ b.toNat then .token (.int (loadSigned [b]))
    else if 0xa0 ≤ b.toNat ∧ b.toNat ≤ 0xbf then lexContent (b.toNat &&& 0x1f) .strValue (.str [])
    else if 0x90 ≤ b.toNat ∧ b.toNat ≤ 0x9f then .token (.array (b.toNat &&& 0x0f))
    else if 0x80 ≤ b.toNat ∧ b.toNat ≤ 0x8f then .token (.map (b.toNat &&& 0x0f))
    else if b.toNat = 0xc2 then .token (.boolean false)
    else if b.toNat = 0xc3 then .token (.boolean true)
    else if b.toNat = 0xc0 then .token .nil
    else .reserved := by
  unfold lexHeader
  refine if_congr Iff.rfl rfl (if_congr Iff.rfl rfl ?_)
  split
  next what' trail' h' => cases h'.symm.trans h
  next h' => rfl

/-- The switch on a reading state, with its body. -/
def lexBody (what : Reading) (n : List UInt8) : Lexed :=
  match what with
  | .uint => .token (.uint (UInt64.ofNat (load n)))
  | .int => .token (.int (loadSigned n))
  | .float => .token (.float (UInt32.ofNat (load n)))
  | .double => .token (.double (UInt64.ofNat (load n)))
  | .fixext => .token (.ext n)
  | .str => lexContent (load n) .strValue (.str [])
  | .bin => lexContent (load n) .binValue (.bin [])
  | .ext => .body .extValue (load n).succPNat
  | .array => .token (.array (load n))
  | .map => .token (.map (load n))
  | .strValue => .token (.str n)
  | .binValue => .token (.bin n)
  | .extValue => .token (.ext n)

/-- `m_cs` and `m_trail`. -/
inductive Cs where
  | header
  | reading (what : Reading) (trail : ℕ+)

/-- What becomes of a parser that is handed an item: it goes on, or it ends, before or after the
last byte of the item. -/
inductive Handled (κ γ : Type) where
  | goes (k : κ)
  | ends (back : Bool) (result : γ)

variable {κ γ : Type}

/-- The step that has found something in the first `n` bytes of the input. -/
def settle (handle : κ → Token → Handled κ γ) (bad : κ → γ) (k : κ) (xs : List UInt8) (n : ℕ) :
    Lexed → Reader.Step (Cs × κ) UInt8 γ
  | .token t => match handle k t with
    | .goes k' => .next (.header, k') (xs.drop n)
    | .ends back c => .halt c (xs.drop (if back then n - 1 else n))
  | .body what trail => .next (.reading what trail, k) (xs.drop n)
  | .reserved => .halt (bad k) (xs.drop (n - 1))

variable {handle : κ → Token → Handled κ γ} {bad : κ → γ} {k : κ} {xs rest : List UInt8} {n : ℕ}

theorem settle_next {lexed : Lexed} {s : Cs × κ}
    (h : settle handle bad k xs n lexed = .next s rest) : rest = xs.drop n ∧
      ∀ ys, settle handle bad k ys n lexed = .next s (ys.drop n) := by
  cases lexed with
  | token t =>
    simp only [settle] at h ⊢
    cases hh : handle k t with
    | goes k' =>
      rw [hh] at h
      obtain ⟨rfl, rfl⟩ : (Cs.header, k') = s ∧ xs.drop n = rest := by simpa using h
      exact ⟨rfl, fun ys => rfl⟩
    | ends back c =>
      rw [hh] at h
      cases h
  | body what trail =>
    obtain ⟨rfl, rfl⟩ : (Cs.reading what trail, k) = s ∧ xs.drop n = rest := by
      simpa [settle] using h
    exact ⟨rfl, fun ys => rfl⟩
  | reserved => cases h

theorem settle_halt {lexed : Lexed} {c : γ} (h : settle handle bad k xs n lexed = .halt c rest) :
    ∃ m ≤ n, rest = xs.drop m ∧ ∀ ys, settle handle bad k ys n lexed = .halt c (ys.drop m) := by
  cases lexed with
  | token t =>
    simp only [settle] at h ⊢
    cases hh : handle k t with
    | goes k' =>
      rw [hh] at h
      cases h
    | ends back c' =>
      rw [hh] at h
      obtain ⟨rfl, rfl⟩ : c' = c ∧ _ = rest := by simpa using h
      refine ⟨if back then n - 1 else n, ?_, rfl, fun ys => rfl⟩
      split_ifs <;> omega
  | body what trail => cases h
  | reserved =>
    obtain ⟨rfl, rfl⟩ : bad k = c ∧ xs.drop (n - 1) = rest := by simpa [settle] using h
    exact ⟨n - 1, Nat.sub_le _ _, rfl, fun ys => rfl⟩

/-- One step: a selector, or a body that is there. -/
def machineStep (handle : κ → Token → Handled κ γ) (bad : κ → γ) :
    Cs × κ → List UInt8 → Reader.Step (Cs × κ) UInt8 γ
  | (.header, _), [] => .wait
  | (.header, k), b :: rest => settle handle bad k (b :: rest) 1 (lexHeader b)
  | (.reading what trail, k), xs =>
    if xs.length < trail then .wait else settle handle bad k xs trail (lexBody what (xs.take trail))

/-- A step waits, or has found something that it finds whatever follows. -/
theorem machineStep_cases (handle : κ → Token → Handled κ γ) (bad : κ → γ) (s : Cs × κ)
    (xs : List UInt8) : machineStep handle bad s xs = .wait ∨
      ∃ n lexed, 0 < n ∧ n ≤ xs.length ∧
        machineStep handle bad s xs = settle handle bad s.2 xs n lexed ∧
        ∀ ys, machineStep handle bad s (xs ++ ys) = settle handle bad s.2 (xs ++ ys) n lexed := by
  match s, xs with
  | (.header, k), [] => exact .inl rfl
  | (.header, k), b :: rest =>
    exact .inr ⟨1, lexHeader b, Nat.one_pos, by simp, rfl, fun ys => rfl⟩
  | (.reading what trail, k), xs =>
    rcases lt_or_ge xs.length trail with hlt | hge
    · exact .inl (if_pos hlt)
    · refine .inr ⟨trail, lexBody what (xs.take trail), trail.pos, hge, if_neg hge.not_gt,
        fun ys => ?_⟩
      rw [machineStep, if_neg (by rw [List.length_append]; omega),
        List.take_append_of_le_length hge]

theorem machineStep_next {s s' : Cs × κ} (h : machineStep handle bad s xs = .next s' rest) :
    rest.length < xs.length ∧ rest <:+ xs ∧
      ∀ ys, machineStep handle bad s (xs ++ ys) = .next s' (rest ++ ys) := by
  rcases machineStep_cases handle bad s xs with hwait | ⟨n, lexed, hpos, hle, hfound, hmore⟩
  · cases hwait.symm.trans h
  · obtain ⟨rfl, hsame⟩ := settle_next (hfound.symm.trans h)
    refine ⟨by rw [List.length_drop]; omega, List.drop_suffix _ _, fun ys => ?_⟩
    rw [hmore, hsame, List.drop_append_of_le_length hle]

theorem machineStep_halt {s : Cs × κ} {c : γ} (h : machineStep handle bad s xs = .halt c rest) :
    rest <:+ xs ∧ ∀ ys, machineStep handle bad s (xs ++ ys) = .halt c (rest ++ ys) := by
  rcases machineStep_cases handle bad s xs with hwait | ⟨n, lexed, -, hle, hfound, hmore⟩
  · cases hwait.symm.trans h
  · obtain ⟨m, hm, rfl, hsame⟩ := settle_halt (hfound.symm.trans h)
    refine ⟨List.drop_suffix _ _, fun ys => ?_⟩
    rw [hmore, hsame, List.drop_append_of_le_length (hm.trans hle)]

/-- **The machine** of a parser that handles its items by `handle`. -/
def machine (handle : κ → Token → Handled κ γ) (bad : κ → γ) : Reader (Cs × κ) UInt8 γ where
  step := machineStep handle bad
  length_lt h := (machineStep_next h).1
  next_suffix h := (machineStep_next h).2.1
  halt_suffix h := (machineStep_halt h).1
  next_append h := (machineStep_next h).2.2
  halt_append h := (machineStep_halt h).2

theorem machine_step_header (b : UInt8) (rest : List UInt8) :
    (machine handle bad).step (.header, k) (b :: rest)
      = settle handle bad k (b :: rest) 1 (lexHeader b) := rfl

theorem machine_step_wait {what : Reading} {trail : ℕ+} (h : xs.length < trail) :
    (machine handle bad).step (.reading what trail, k) xs = .wait := if_pos h

theorem machine_step_body {what : Reading} {trail : ℕ+} (h : trail ≤ xs.length) :
    (machine handle bad).step (.reading what trail, k) xs
      = settle handle bad k xs trail (lexBody what (xs.take trail)) := if_neg h.not_gt

/-! ## The context of `v1/unpack.hpp` -/

/-- What `push_proc` and `push_aggregate` do with an item. -/
def handleToken (limit : UnpackLimit) (stack : List Frame) : Token →
    Except Error (Object ⊕ List Frame)
  | .nil => .ok (pushItem stack .nil)
  | .boolean b => .ok (pushItem stack (.boolean b))
  | .uint u64 => .ok (pushItem stack (.positiveInteger u64))
  | .int d => .ok (pushItem stack (unpackInt d))
  | .float bits => .ok (pushItem stack (.float32 bits))
  | .double bits => .ok (pushItem stack (.float64 bits))
  | .str bytes => (unpackStr limit bytes).map (pushItem stack)
  | .bin bytes => (unpackBin limit bytes).map (pushItem stack)
  | .ext bytes => (unpackExt limit bytes).map (pushItem stack)
  | .array size =>
    if limit.array < size then .error .arraySizeOverflow
    else if size = 0 then .ok (pushItem stack (.array []))
    else if stack.length + 1 ≤ limit.depth then .ok (.inr (.array [] size :: stack))
    else .error .depthSizeOverflow
  | .map size =>
    if limit.map < size then .error .mapSizeOverflow
    else if size = 0 then .ok (pushItem stack (.map []))
    else if stack.length + 1 ≤ limit.depth then .ok (.inr (.mapKey [] size :: stack))
    else .error .depthSizeOverflow

/-- The parser ends with an object or by throwing. -/
def handled : Except Error (Object ⊕ List Frame) → Handled (List Frame) (Except Error Object)
  | .error e => .ends true (.error e)
  | .ok (.inl obj) => .ends false (.ok obj)
  | .ok (.inr stack) => .goes stack

/-- `context`, on its way from `init` to the object. -/
def context (limit : UnpackLimit) : Reader (Cs × List Frame) UInt8 (Except Error Object) :=
  machine (fun stack t => handled (handleToken limit stack t)) fun _ => .error .parseError

/-- What `unpack` makes of a round of `execute`. -/
def returned : Except Error Signal → Except Error (Object × List UInt8)
  | .error e => .error e
  | .ok (.finished obj rest) => .ok (obj, rest)
  | .ok (.failed _) => .error .parseError
  | .ok (.suspended _) => .error .insufficientBytes
  | .ok (.going ..) => .error .insufficientBytes

/-- What is unpacked of a reading: an object and the bytes after it. -/
def unpacked {σ : Type} : Reader.Outcome σ UInt8 (Except Error Object) →
    Except Error (Object × List UInt8)
  | .waiting _ _ => .error .insufficientBytes
  | .halted (.ok obj) rest => .ok (obj, rest)
  | .halted (.error e) _ => .error e

/-- The round that has found something, with `m_current` on the last byte of it. -/
def lexedSignal (limit : UnpackLimit) (stack : List Frame) (last : List UInt8) :
    Lexed → Except Error Signal
  | .token t => do match ← handleToken limit stack t with
    | .inl obj => .ok (.finished obj (last.drop 1))
    | .inr stack => .ok (.going .header stack false (last.drop 1))
  | .body what trail => .ok (.going (.reading what trail) stack true last)
  | .reserved => .ok (.failed last)

variable {limit : UnpackLimit} {stack : List Frame} {last : List UInt8} {fuel : ℕ}

/-! An item is handled as `execute` does it, whichever switch it came from. -/

theorem lexedSignal_push {t : Token} {obj : Object}
    (h : handleToken limit stack t = .ok (pushItem stack obj)) :
    lexedSignal limit stack last (.token t) = .ok (pushProc stack obj last) := by
  rw [lexedSignal, h, pushProc]
  cases pushItem stack obj <;> rfl

theorem lexedSignal_map {t : Token} {r : Except Error Object}
    (h : handleToken limit stack t = r.map (pushItem stack)) :
    lexedSignal limit stack last (.token t) = r.map fun obj => pushProc stack obj last := by
  cases r with
  | error e =>
    rw [lexedSignal, h]
    rfl
  | ok obj => exact lexedSignal_push h

theorem lexedSignal_array (limit : UnpackLimit) (stack : List Frame) (size : ℕ)
    (last : List UInt8) :
    lexedSignal limit stack last (.token (.array size)) = pushArray limit stack size last := by
  rw [pushArray, pushAggregate, lexedSignal, handleToken, pushProc]
  split_ifs
  · rfl
  · cases pushItem stack (.array []) <;> rfl
  · rfl
  · rfl

theorem lexedSignal_mapToken (limit : UnpackLimit) (stack : List Frame) (size : ℕ)
    (last : List UInt8) :
    lexedSignal limit stack last (.token (.map size)) = pushMap limit stack size last := by
  rw [pushMap, pushAggregate, lexedSignal, handleToken, pushProc]
  split_ifs
  · rfl
  · cases pushItem stack (.map []) <;> rfl
  · rfl
  · rfl

theorem lexedSignal_content (limit : UnpackLimit) (stack : List Frame) (size : ℕ) (what : Reading)
    (empty : Token) (last : List UInt8) :
    lexedSignal limit stack last (lexContent size what empty)
      = if size = 0 then lexedSignal limit stack last (.token empty)
        else .ok (.going (.reading what size) stack true last) := by
  rw [lexContent]
  split_ifs with hpos hzero hzero
  · omega
  · rfl
  · rfl
  · omega

theorem readHeader_eq (limit : UnpackLimit) (stack : List Frame) (b : UInt8) (last : List UInt8) :
    readHeader limit stack b last = lexedSignal limit stack last (lexHeader b) := by
  unfold readHeader
  dsimp only
  cases hbody : bodyOf b.toNat with
  | some p =>
    have hrange := bodyOf_range hbody
    rw [lexHeader_of_bodyOf hbody, if_neg (by omega), if_neg (by omega)]
    rfl
  | none =>
    rw [lexHeader_of_none hbody]
    split_ifs with hfix hneg hstr hzero harray hmap hfalse htrue hnil
    · exact (lexedSignal_push rfl).symm
    · exact (lexedSignal_push rfl).symm
    · rw [lexedSignal_content, if_pos hzero]
      exact (lexedSignal_map (r := unpackStr limit []) rfl).symm
    · rw [lexedSignal_content, if_neg hzero]
    · exact (lexedSignal_array limit stack _ last).symm
    · exact (lexedSignal_mapToken limit stack _ last).symm
    · exact (lexedSignal_push rfl).symm
    · exact (lexedSignal_push rfl).symm
    · exact (lexedSignal_push rfl).symm
    · rfl

theorem readBody_eq (limit : UnpackLimit) (what : Reading) (trail : ℕ+) (stack : List Frame)
    {xs : List UInt8} (h : trail ≤ xs.length) : readBody limit what trail stack xs
      = lexedSignal limit stack (xs.drop (trail - 1)) (lexBody what (xs.take trail)) := by
  rw [readBody, if_neg h.not_gt]
  cases what with
  | uint | int | float | double => exact (lexedSignal_push rfl).symm
  | fixext | strValue | binValue | extValue => exact (lexedSignal_map rfl).symm
  | str | bin =>
    dsimp only [lexBody]
    rw [lexedSignal_content]
    split_ifs
    · exact (lexedSignal_map rfl).symm
    · rfl
  | ext => rfl
  | array => exact (lexedSignal_array limit stack _ _).symm
  | map => exact (lexedSignal_mapToken limit stack _ _).symm

/-- With so much fuel, `execute` returns what the machine reads. -/
def ReadsAlike (limit : UnpackLimit) (fuel : ℕ) : Prop :=
  (∀ stack xs, xs.length ≤ fuel → returned (execute limit fuel .header stack false xs)
    = unpacked ((context limit).read (.header, stack) xs)) ∧
  ∀ what (trail : ℕ+) stack xs b, xs.length < fuel →
    returned (execute limit fuel (.reading what trail) stack true (b :: xs))
      = unpacked ((context limit).read (.reading what trail, stack) xs)

/-- A round that has found something in the first `n` bytes, and the rounds after it. -/
theorem returned_lexed (hreads : ReadsAlike limit fuel) {s : Cs × List Frame} {xs : List UInt8}
    {n : ℕ} {lexed : Lexed} {b : UInt8} (hlast : last = b :: xs.drop n)
    (hfuel : (xs.drop n).length ≤ fuel)
    (hbody : ∀ what trail, lexed = .body what trail → (xs.drop n).length < fuel)
    (hstep : (context limit).step s xs = settle (fun stack t => handled (handleToken limit stack t))
      (fun _ => .error .parseError) stack xs n lexed) :
    returned (do match ← lexedSignal limit stack last lexed with
      | .going state stack again rest =>
        if rest = [] then .ok (.suspended rest) else execute limit fuel state stack again rest
      | signal => .ok signal) = unpacked ((context limit).read s xs) := by
  subst hlast
  cases lexed with
  | token t =>
    rw [lexedSignal]
    rw [settle] at hstep
    match hhandle : handleToken limit stack t with
    | .error e =>
      rw [hhandle] at hstep
      rw [Reader.read_of_halt hstep]
      rfl
    | .ok (.inl obj) =>
      rw [hhandle] at hstep
      rw [Reader.read_of_halt hstep]
      rfl
    | .ok (.inr stack') =>
      rw [hhandle] at hstep
      rw [Reader.read_of_next hstep, ← hreads.1 stack' _ hfuel]
      change returned (if xs.drop n = [] then .ok (.suspended (xs.drop n))
        else execute limit fuel .header stack' false (xs.drop n)) = _
      split_ifs with hnil
      · rw [hnil]
        cases fuel <;> rfl
      · rfl
  | body what trail =>
    rw [Reader.read_of_next hstep, ← hreads.2 what trail stack _ b (hbody what trail rfl)]
    rfl
  | reserved =>
    rw [Reader.read_of_halt hstep]
    rfl

/-- A selector without a body ends its round. -/
theorem executeOnce_lexed {b : UInt8} (h : ∀ what trail, lexHeader b ≠ .body what trail)
    (stack : List Frame) (rest : List UInt8) :
    executeOnce limit .header stack false (b :: rest)
      = lexedSignal limit stack (b :: rest) (lexHeader b) := by
  rw [executeOnce, readHeader_eq]
  cases hlex : lexHeader b with
  | body what trail => exact absurd hlex (h what trail)
  | reserved => rfl
  | token t =>
    rw [lexedSignal]
    rcases handleToken limit stack t with _ | _ | _ <;> rfl

/-- A selector with a body goes on as if it had been read before. -/
theorem execute_header_of_body {b : UInt8} {what : Reading} {trail : ℕ+}
    (h : lexHeader b = .body what trail) (stack : List Frame) (rest : List UInt8) :
    execute limit (fuel + 1) .header stack false (b :: rest)
      = execute limit (fuel + 1) (.reading what trail) stack true (b :: rest) := by
  have hround : executeOnce limit .header stack false (b :: rest)
      = executeOnce limit (.reading what trail) stack true (b :: rest) := by
    change _ = readBody limit what trail stack rest
    rw [executeOnce, readHeader_eq, h]
    rfl
  rw [execute_succ, execute_succ, hround]

theorem readsAlike (limit : UnpackLimit) (fuel : ℕ) : ReadsAlike limit fuel := by
  induction fuel with
  | zero =>
    refine ⟨fun stack xs h => ?_, fun what trail stack xs b h => absurd h (Nat.not_lt_zero _)⟩
    obtain rfl := List.length_eq_zero_iff.mp (Nat.le_zero.mp h)
    rfl
  | succ fuel ih =>
    have hreading : ∀ what (trail : ℕ+) stack xs b, xs.length < fuel + 1 →
        returned (execute limit (fuel + 1) (.reading what trail) stack true (b :: xs))
          = unpacked ((context limit).read (.reading what trail, stack) xs) := by
      intro what trail stack xs b h
      rw [execute_succ, executeOnce, if_pos rfl, List.drop_one, List.tail_cons]
      rcases lt_or_ge xs.length trail with hlt | hge
      · have hstep : (context limit).step (.reading what trail, stack) xs = .wait :=
          machine_step_wait hlt
        rw [Reader.read_of_wait hstep, readBody, if_pos hlt]
        rfl
      · have hpos := trail.pos
        have hlen : (xs.drop trail).length + 1 ≤ xs.length := by
          rw [List.length_drop]
          omega
        have hlast : xs.drop (trail - 1) = xs.get ⟨trail - 1, by omega⟩ :: xs.drop trail := by
          rw [List.drop_eq_getElem_cons (by omega), Nat.sub_add_cancel hpos]
          rfl
        rw [readBody_eq _ _ _ _ hge]
        exact returned_lexed ih hlast (by omega) (fun _ _ _ => by omega) (machine_step_body hge)
    refine ⟨fun stack xs h => ?_, hreading⟩
    cases xs with
    | nil => rfl
    | cons b rest =>
      have hlen : rest.length < fuel + 1 := h
      by_cases hbody : ∃ what trail, lexHeader b = .body what trail
      · obtain ⟨what, trail, hlex⟩ := hbody
        have hstep : (context limit).step (.header, stack) (b :: rest)
            = .next (.reading what trail, stack) rest :=
          (machine_step_header b rest).trans (by rw [hlex]; rfl)
        rw [Reader.read_of_next hstep, execute_header_of_body hlex]
        exact hreading what trail stack rest b hlen
      · have hfuel : ((b :: rest).drop 1).length ≤ fuel := Nat.lt_succ_iff.mp hlen
        rw [execute_succ, executeOnce_lexed fun what trail hlex => hbody ⟨what, trail, hlex⟩]
        exact returned_lexed ih rfl hfuel (fun what trail hlex => absurd ⟨what, trail, hlex⟩ hbody)
          (machine_step_header b rest)

/-- **`unpack` is what the machine reads** from the offset on. -/
theorem unpack_eq_read (limit : UnpackLimit) (data : List UInt8) (off : ℕ) :
    unpack limit data off = (unpacked ((context limit).read (.header, []) (data.drop off))).map
      fun p => (p.1, data.length - p.2.length) := by
  have hreads := (readsAlike limit (data.length - off)).1 [] (data.drop off) (by simp)
  rw [← hreads, unpack]
  split_ifs with hend
  · rw [List.drop_of_length_le hend, Nat.sub_eq_zero_of_le hend]
    rfl
  · rcases execute limit (data.length - off) .header [] false (data.drop off) with
      _ | _ | _ | _ | _ <;> rfl

end Msgpack

end RaftCore
