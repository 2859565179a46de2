import RaftCore.Msgpack.Spelling

/-!
# Msgpack/Format — the bytes that are accepted

The format of an object: an item, or the start of a container with so many encoded items behind it,
nested at most so deep (`Encodes`).  `unpack` accepts exactly this (`unpack_eq_ok_iff`).

Soundness is an invariant of the machine: the bytes before its position are what its open
containers have taken in so far (`Pending`), and pushing an item keeps that (`Pending.push`).
Completeness is by induction on the depth (`Encodes.read`): the items of a container are read one
after another, and the last one closes it.
-/

namespace RaftCore

namespace Msgpack

open BigEndian

/-- What goes into a container. -/
def Token.arity : Token → ℕ
  | .array size => size
  | .map size => 2 * size
  | _ => 0

def pairs : List Object → List (Object × Object)
  | key :: val :: items => (key, val) :: pairs items
  | _ => []

/-- The object with these items in it. -/
def Token.build (items : List Object) : Token → Object
  | .nil => .nil
  | .boolean b => .boolean b
  | .uint u64 => .positiveInteger u64
  | .int d => unpackInt d
  | .float bits => .float32 bits
  | .double bits => .float64 bits
  | .str bytes => .str bytes
  | .bin bytes => .bin bytes
  | .ext bytes => .ext bytes
  | .array _ => .array items
  | .map _ => .map (pairs items)

/-- The sizes the limits let in. -/
def UnpackLimit.Admits (limit : UnpackLimit) : Token → Prop
  | .str bytes => bytes.length ≤ limit.str
  | .bin bytes => bytes.length ≤ limit.bin
  | .ext bytes => bytes.length ≤ limit.ext
  | .array size => size ≤ limit.array
  | .map size => size ≤ limit.map
  | _ => True

/-- **The bytes encode the object**, with containers that are not empty at most `depth` deep. -/
def Encodes (limit : UnpackLimit) : ℕ → List UInt8 → Object → Prop
  | 0 => fun bytes obj => ∃ t, Spells bytes t ∧ limit.Admits t ∧ t.arity = 0 ∧ obj = t.build []
  | depth + 1 => fun bytes obj => ∃ t head parts items, Spells head t ∧ limit.Admits t ∧
    items.length = t.arity ∧ List.Forall₂ (Encodes limit depth) parts items ∧
    bytes = head ++ parts.flatten ∧ obj = t.build items

variable {limit : UnpackLimit} {depth : ℕ} {bytes before : List UInt8} {obj : Object} {t : Token}

/-- An item without items in it. -/
theorem Encodes.of_spells (h : Spells bytes t) (hlimit : limit.Admits t) (hzero : t.arity = 0) :
    Encodes limit depth bytes (t.build []) := by
  cases depth with
  | zero => exact ⟨t, h, hlimit, hzero, rfl⟩
  | succ depth =>
    exact ⟨t, bytes, [], [], h, hlimit, hzero.symm, .nil, (List.append_nil _).symm, rfl⟩

/-- Wider limits let in what narrower ones do. -/
theorem Encodes.of_admits {limit' : UnpackLimit} (hlimit : ∀ t, limit.Admits t → limit'.Admits t)
    (h : Encodes limit depth bytes obj) : Encodes limit' depth bytes obj := by
  induction depth generalizing bytes obj with
  | zero =>
    obtain ⟨t, ht, hadmits, hzero, rfl⟩ := h
    exact ⟨t, ht, hlimit t hadmits, hzero, rfl⟩
  | succ depth ih =>
    obtain ⟨t, head, parts, items, ht, hadmits, harity, hparts, rfl, rfl⟩ := h
    exact ⟨t, head, parts, items, ht, hlimit t hadmits, harity, hparts.imp fun _ _ => ih, rfl, rfl⟩

/-! ## Open containers -/

/-- The start of an open container. -/
def Frame.token : Frame → Token
  | .array items count => .array (items.length + count)
  | .mapKey items count => .map (items.length + count)
  | .mapValue items _ count => .map (items.length + count)

/-- What is in it already. -/
def Frame.filled : Frame → List Object
  | .array items _ => items
  | .mapKey items _ => items.flatMap fun p => [p.1, p.2]
  | .mapValue items key _ => (items.flatMap fun p => [p.1, p.2]) ++ [key]

/-- How many items are still to come. -/
def Frame.missing : Frame → ℕ
  | .array _ count => count
  | .mapKey _ count => 2 * count
  | .mapValue _ _ count => 2 * count - 1

theorem length_flatMap_pair (items : List (Object × Object)) :
    (items.flatMap fun p => [p.1, p.2]).length = 2 * items.length := by
  induction items with
  | nil => rfl
  | cons p items ih =>
    rw [List.flatMap_cons, List.length_append, ih, List.length_cons]
    exact Nat.add_comm ..

theorem pairs_flatMap (items : List (Object × Object)) :
    pairs (items.flatMap fun p => [p.1, p.2]) = items := by
  induction items with
  | nil => rfl
  | cons p items ih => rw [List.flatMap_cons, List.cons_append, List.cons_append, pairs,
      List.nil_append, ih]

theorem flatMap_pairs {n : ℕ} {items : List Object} (h : items.length = 2 * n) :
    ((pairs items).flatMap fun p => [p.1, p.2]) = items ∧ (pairs items).length = n := by
  induction n generalizing items with
  | zero =>
    rw [List.length_eq_zero_iff.mp h]
    exact ⟨rfl, rfl⟩
  | succ n ih =>
    match items, h with
    | key :: val :: items, h =>
      simp only [List.length_cons] at h
      obtain ⟨hflat, hlength⟩ := @ih items (by omega)
      exact ⟨congrArg (fun l => key :: val :: l) hflat, congrArg (· + 1) hlength⟩

theorem Frame.length_filled {f : Frame} (h : 0 < f.missing) :
    f.filled.length + f.missing = f.token.arity := by
  cases f with
  | array items count => rfl
  | mapKey items count =>
    rw [Frame.filled, Frame.missing, Frame.token, Token.arity, length_flatMap_pair]
    omega
  | mapValue items key count =>
    rw [Frame.missing] at h
    rw [Frame.filled, Frame.missing, Frame.token, Token.arity, List.length_append,
      length_flatMap_pair, List.length_singleton]
    omega

/-- **The last item closes the container.** -/
theorem pushItem_last {f : Frame} (h : f.missing = 1) (stack : List Frame) (obj : Object) :
    pushItem (f :: stack) obj = pushItem stack (f.token.build (f.filled ++ [obj])) := by
  cases f with
  | array items count =>
    obtain rfl : count = 1 := h
    rfl
  | mapKey items count =>
    rw [Frame.missing] at h
    omega
  | mapValue items key count =>
    obtain rfl : count = 1 := by
      rw [Frame.missing] at h
      omega
    have hpairs := pairs_flatMap (items ++ [(key, obj)])
    rw [List.flatMap_append] at hpairs
    rw [Frame.token, Frame.filled, Token.build, List.append_assoc, List.singleton_append,
      show [key, obj] = [(key, obj)].flatMap fun p => [p.1, p.2] from rfl, hpairs]
    rfl

/-- **Another item goes into it.** -/
theorem pushItem_more {f : Frame} (h : 1 < f.missing) (stack : List Frame) (obj : Object) :
    ∃ f', pushItem (f :: stack) obj = .inr (f' :: stack) ∧ f'.token = f.token ∧
      f'.filled = f.filled ++ [obj] ∧ f'.missing = f.missing - 1 := by
  cases f with
  | array items count =>
    have hcount : count - 1 ≠ 0 := Nat.sub_ne_zero_of_lt h
    refine ⟨.array (items ++ [obj]) (count - 1), if_neg hcount, ?_, rfl, rfl⟩
    rw [Frame.missing] at h
    rw [Frame.token, Frame.token, List.length_append, List.length_singleton]
    exact congrArg Token.array (by omega)
  | mapKey items count => exact ⟨.mapValue items obj count, rfl, rfl, rfl, rfl⟩
  | mapValue items key count =>
    rw [Frame.missing] at h
    have hcount : count - 1 ≠ 0 := by omega
    refine ⟨.mapKey (items ++ [(key, obj)]) (count - 1), if_neg hcount, ?_, ?_, ?_⟩
    · rw [Frame.token, Frame.token, List.length_append, List.length_singleton]
      exact congrArg Token.map (by omega)
    · rw [Frame.filled, Frame.filled, List.flatMap_append, List.append_assoc]
      rfl
    · rw [Frame.missing, Frame.missing]
      omega

/-! ## The items of a context -/

theorem handleToken_refused (h : ¬limit.Admits t) (stack : List Frame) :
    ∃ e, e ≠ .insufficientBytes ∧ e ≠ .parseError ∧ handleToken limit stack t = .error e := by
  cases t with
  | nil | boolean | uint | int | float | double => exact absurd trivial h
  | str s =>
    refine ⟨.strSizeOverflow, by decide, by decide, ?_⟩
    rw [handleToken, unpackStr, if_pos (not_le.mp h)]
    rfl
  | bin s =>
    refine ⟨.binSizeOverflow, by decide, by decide, ?_⟩
    rw [handleToken, unpackBin, if_pos (not_le.mp h)]
    rfl
  | ext s =>
    refine ⟨.extSizeOverflow, by decide, by decide, ?_⟩
    rw [handleToken, unpackExt, if_pos (not_le.mp h)]
    rfl
  | array n => exact ⟨.arraySizeOverflow, by decide, by decide, if_pos (not_le.mp h)⟩
  | map n => exact ⟨.mapSizeOverflow, by decide, by decide, if_pos (not_le.mp h)⟩

theorem handleToken_item (h : limit.Admits t) (hzero : t.arity = 0) (stack : List Frame) :
    handleToken limit stack t = .ok (pushItem stack (t.build [])) := by
  cases t with
  | nil | boolean | uint | int | float | double => rfl
  | str s =>
    rw [handleToken, unpackStr, if_neg (not_lt.mpr h)]
    rfl
  | bin s =>
    rw [handleToken, unpackBin, if_neg (not_lt.mpr h)]
    rfl
  | ext s =>
    rw [handleToken, unpackExt, if_neg (not_lt.mpr h)]
    rfl
  | array n => exact (if_neg (not_lt.mpr h)).trans (if_pos hzero)
  | map n =>
    rw [Token.arity] at hzero
    exact (if_neg (not_lt.mpr h)).trans (if_pos (by omega))

theorem handleToken_open (h : limit.Admits t) (hpos : 0 < t.arity) {stack : List Frame}
    (hdepth : stack.length + 1 ≤ limit.depth) :
    ∃ f, handleToken limit stack t = .ok (.inr (f :: stack)) ∧ f.token = t ∧ f.filled = [] ∧
      f.missing = t.arity := by
  cases t with
  | nil | boolean | uint | int | float | double | str | bin | ext => exact absurd hpos (lt_irrefl 0)
  | array n =>
    refine ⟨.array [] n, ?_, congrArg Token.array (Nat.zero_add n), rfl, rfl⟩
    rw [Token.arity] at hpos
    rw [handleToken, if_neg (not_lt.mpr h), if_neg (by omega), if_pos hdepth]
  | map n =>
    refine ⟨.mapKey [] n, ?_, congrArg Token.map (Nat.zero_add n), rfl, rfl⟩
    rw [Token.arity] at hpos
    rw [handleToken, if_neg (not_lt.mpr h), if_neg (by omega), if_pos hdepth]

theorem handleToken_deep (h : limit.Admits t) (hpos : 0 < t.arity) {stack : List Frame}
    (hdepth : ¬stack.length + 1 ≤ limit.depth) :
    handleToken limit stack t = .error .depthSizeOverflow := by
  cases t with
  | nil | boolean | uint | int | float | double | str | bin | ext => exact absurd hpos (lt_irrefl 0)
  | array n | map n =>
    rw [Token.arity] at hpos
    rw [handleToken, if_neg (not_lt.mpr h), if_neg (by omega), if_neg hdepth]

/-! ## Soundness -/

/-- The bytes before the position of the machine are what its containers have taken in. -/
def Pending (limit : UnpackLimit) : List Frame → List UInt8 → Prop
  | [], before => before = []
  | f :: stack, before => ∃ outer head parts, Pending limit stack outer ∧ Spells head f.token ∧
    limit.Admits f.token ∧ 0 < f.missing ∧ stack.length + 1 ≤ limit.depth ∧
    List.Forall₂ (Encodes limit (limit.depth - (stack.length + 1))) parts f.filled ∧
    before = outer ++ (head ++ parts.flatten)

theorem forall₂_concat {α β : Type*} {R : α → β → Prop} {xs : List α} {ys : List β} {x : α} {y : β}
    (h : List.Forall₂ R xs ys) (hlast : R x y) : List.Forall₂ R (xs ++ [x]) (ys ++ [y]) :=
  List.rel_append h (.cons hlast .nil)

/-- The bytes so far are an object, or what is open. -/
def Taken (limit : UnpackLimit) (before : List UInt8) : Object ⊕ List Frame → Prop
  | .inl obj => Encodes limit limit.depth before obj
  | .inr stack => Pending limit stack before

/-- **Pushing an encoded item takes it in.** -/
theorem Pending.push {stack : List Frame} (h : Pending limit stack before)
    (hobj : Encodes limit (limit.depth - stack.length) bytes obj) :
    Taken limit (before ++ bytes) (pushItem stack obj) := by
  induction stack generalizing bytes obj before with
  | nil =>
    obtain rfl : before = [] := h
    exact hobj
  | cons f stack ih =>
    obtain ⟨outer, head, parts, houter, hhead, hlimit, hmissing, hdepth, hparts, rfl⟩ := h
    have hitems := forall₂_concat hparts hobj
    have hbytes : outer ++ (head ++ parts.flatten) ++ bytes
        = outer ++ (head ++ (parts ++ [bytes]).flatten) := by
      rw [List.flatten_append, List.flatten_singleton, List.append_assoc, List.append_assoc]
    rcases Nat.lt_or_ge 1 f.missing with hmore | hlast
    · obtain ⟨f', hpush, htoken, hfilled, hcount⟩ := pushItem_more hmore stack obj
      rw [hpush]
      refine ⟨outer, head, parts ++ [bytes], houter, htoken ▸ hhead, htoken ▸ hlimit, by omega,
        hdepth, ?_, hbytes⟩
      rw [hfilled]
      exact hitems
    · have hfilled := Frame.length_filled hmissing
      rw [pushItem_last (by omega), hbytes]
      refine ih houter ?_
      rw [show limit.depth - stack.length = limit.depth - (stack.length + 1) + 1 by omega]
      refine ⟨f.token, head, parts ++ [bytes], f.filled ++ [obj], hhead, hlimit, ?_, hitems, rfl,
        rfl⟩
      rw [List.length_append, List.length_singleton]
      omega

/-- An item of the context is taken in, or its size is refused. -/
theorem Pending.handle {stack : List Frame} (h : Pending limit stack before) (ht : Spells bytes t) :
    (∃ e, handleToken limit stack t = .error e ∧ e ≠ .insufficientBytes ∧ e ≠ .parseError) ∨
      ∃ r, handleToken limit stack t = .ok r ∧ Taken limit (before ++ bytes) r := by
  by_cases hlimit : limit.Admits t
  · rcases Nat.eq_zero_or_pos t.arity with hzero | hpos
    · exact .inr ⟨_, handleToken_item hlimit hzero stack,
        h.push (Encodes.of_spells ht hlimit hzero)⟩
    · by_cases hdepth : stack.length + 1 ≤ limit.depth
      · obtain ⟨f, hopen, htoken, hfilled, hmissing⟩ := handleToken_open hlimit hpos hdepth
        refine .inr ⟨_, hopen, before, bytes, [], h, htoken ▸ ht, htoken ▸ hlimit, by omega,
          hdepth, ?_, ?_⟩
        · rw [hfilled]
          exact .nil
        · rw [List.flatten_nil, List.append_nil]
      · exact .inl ⟨_, handleToken_deep hlimit hpos hdepth, by decide, by decide⟩
  · obtain ⟨e, hinsufficient, hparse, herror⟩ := handleToken_refused hlimit stack
    exact .inl ⟨e, herror, hinsufficient, hparse⟩

theorem read_of_error {stack : List Frame} {e : Error} (ht : Spells bytes t)
    (h : handleToken limit stack t = .error e) (rest : List UInt8) : ∃ rest',
    (context limit).read (.header, stack) (bytes ++ rest) = .halted (.error e) rest' :=
  ⟨_, (completes_of_spells ht).read_ends (by rw [h]; rfl) rest⟩

theorem read_of_result {stack : List Frame} (ht : Spells bytes t)
    (h : handleToken limit stack t = .ok (.inl obj)) (rest : List UInt8) :
    (context limit).read (.header, stack) (bytes ++ rest) = .halted (.ok obj) rest := by
  have hends : handled (handleToken limit stack t) = .ends false (.ok obj) := by
    rw [h]
    rfl
  have hread : (context limit).read (.header, stack) (bytes ++ rest) = .halted (.ok obj)
      ((bytes ++ rest).drop (if false then bytes.length - 1 else bytes.length)) :=
    (completes_of_spells ht).read_ends hends rest
  rwa [if_neg Bool.false_ne_true, List.drop_left] at hread

theorem read_of_stack {stack stack' : List Frame} (ht : Spells bytes t)
    (h : handleToken limit stack t = .ok (.inr stack')) (rest : List UInt8) :
    (context limit).read (.header, stack) (bytes ++ rest)
      = (context limit).read (.header, stack') rest :=
  (completes_of_spells ht).read_goes (by rw [h]; rfl) rest

/-- What a verdict says about the bytes `xs` behind `before`. -/
def Means (limit : UnpackLimit) (before xs : List UInt8) :
    Reader.Outcome (Cs × List Frame) UInt8 (Except Error Object) → Prop
  | .halted (.ok obj) rest => ∃ bytes, xs = bytes ++ rest ∧
      Encodes limit limit.depth (before ++ bytes) obj
  | .halted (.error e) _ => e ≠ .insufficientBytes ∧ (e = .parseError → ∃ mid rest stack,
      xs = mid ++ 0xc1 :: rest ∧ Pending limit stack (before ++ mid))
  | .waiting _ _ => ∃ mid tail stack more t, xs = mid ++ tail ∧
      Pending limit stack (before ++ mid) ∧ more ≠ [] ∧ Spells (tail ++ more) t

theorem Means.after {xs : List UInt8}
    {o : Reader.Outcome (Cs × List Frame) UInt8 (Except Error Object)}
    (h : Means limit (before ++ bytes) xs o) : Means limit before (bytes ++ xs) o := by
  match o with
  | .halted (.ok obj) rest =>
    obtain ⟨more, rfl, hencodes⟩ := h
    exact ⟨bytes ++ more, (List.append_assoc ..).symm, by rwa [← List.append_assoc]⟩
  | .halted (.error e) _ =>
    refine ⟨h.1, fun hparse => ?_⟩
    obtain ⟨mid, rest, stack, rfl, hpending⟩ := h.2 hparse
    exact ⟨bytes ++ mid, rest, stack, (List.append_assoc ..).symm, by rwa [← List.append_assoc]⟩
  | .waiting _ _ =>
    obtain ⟨mid, tail, stack, more, t, rfl, hpending, hmore, ht⟩ := h
    exact ⟨bytes ++ mid, tail, stack, more, t, (List.append_assoc ..).symm,
      by rwa [← List.append_assoc], hmore, ht⟩

/-- **What the machine reads is sound**, from any containers on. -/
theorem Pending.read {stack : List Frame} (h : Pending limit stack before) (xs : List UInt8) :
    Means limit before xs ((context limit).read (.header, stack) xs) := by
  induction hn : xs.length using Nat.strongRecOn generalizing before stack xs with
  | ind n ih =>
    rcases spelled_cases xs with ⟨bytes, rest, t, rfl, ht⟩ | ⟨b, rest, rfl, hlex⟩ |
      ⟨⟨cs, rest, hwait⟩, more, t, hmore, ht⟩
    · rcases h.handle ht with ⟨e, herror, hsize⟩ | ⟨obj | stack', hok, htaken⟩
      · obtain ⟨rest', hread⟩ := read_of_error ht herror rest
        rw [hread]
        exact ⟨hsize.1, fun hparse => absurd hparse hsize.2⟩
      · rw [read_of_result ht hok]
        exact ⟨bytes, rfl, htaken⟩
      · rw [read_of_stack ht hok]
        have hlt : rest.length < n := by
          have hpos := List.length_pos_iff.mpr (completes_of_spells ht).ne_nil
          rw [← hn, List.length_append]
          omega
        exact (ih _ hlt htaken rest rfl).after
    · obtain rfl := lexHeader_reserved hlex
      have hread : (context limit).read (.header, stack) (0xc1 :: rest)
          = .halted (.error .parseError) (0xc1 :: rest) := read_reserved rest
      rw [hread]
      exact ⟨by decide, fun _ => ⟨[], rest, stack, rfl, by rwa [List.append_nil]⟩⟩
    · have hread : (context limit).read (.header, stack) xs = .waiting (cs, stack) rest := hwait ..
      rw [hread]
      exact ⟨[], xs, stack, more, t, rfl, by rwa [List.append_nil], hmore, ht⟩

/-! ## Completeness -/

/-- Reading on once an item has been pushed. -/
def afterPush (limit : UnpackLimit) (stack : List Frame) (obj : Object) (rest : List UInt8) :
    Reader.Outcome (Cs × List Frame) UInt8 (Except Error Object) :=
  match pushItem stack obj with
  | .inl obj => .halted (.ok obj) rest
  | .inr stack => (context limit).read (.header, stack) rest

theorem read_item {stack : List Frame} (ht : Spells bytes t) (hlimit : limit.Admits t)
    (hzero : t.arity = 0) (rest : List UInt8) :
    (context limit).read (.header, stack) (bytes ++ rest)
      = afterPush limit stack (t.build []) rest := by
  have hhandle := handleToken_item hlimit hzero stack
  rw [afterPush]
  cases hpush : pushItem stack (t.build []) with
  | inl result => exact read_of_result ht (hhandle.trans (congrArg Except.ok hpush)) rest
  | inr stack' => exact read_of_stack ht (hhandle.trans (congrArg Except.ok hpush)) rest

/-- The items of an open container, once each of them is read by pushing it. -/
theorem read_items {parts : List (List UInt8)} {items : List Object} {stack : List Frame}
    {f : Frame} (h : List.Forall₂ (fun part item => ∀ (f : Frame) (rest : List UInt8),
      (context limit).read (.header, f :: stack) (part ++ rest)
        = afterPush limit (f :: stack) item rest) parts items)
    (hcount : f.missing = items.length) (hne : items ≠ []) (rest : List UInt8) :
    (context limit).read (.header, f :: stack) (parts.flatten ++ rest)
      = afterPush limit stack (f.token.build (f.filled ++ items)) rest := by
  induction h generalizing f with
  | nil => exact absurd rfl hne
  | @cons part item parts items hpart hparts ih =>
    rw [List.flatten_cons, List.append_assoc, hpart, afterPush]
    rcases eq_or_ne items [] with rfl | hitems
    · cases hparts
      rw [pushItem_last hcount]
      rfl
    · have hpos := List.length_pos_iff.mpr hitems
      rw [List.length_cons] at hcount
      obtain ⟨f', hpush, htoken, hfilled, hmissing⟩ := pushItem_more (show 1 < f.missing by omega)
        stack item
      rw [hpush]
      dsimp only
      rw [ih (by omega) hitems, htoken, hfilled, List.append_assoc, List.singleton_append]

/-- **An encoding is read by pushing its object**, as deep as the limits let it in. -/
theorem Encodes.read (h : Encodes limit depth bytes obj) {stack : List Frame}
    (hdepth : stack.length + depth ≤ limit.depth) (rest : List UInt8) :
    (context limit).read (.header, stack) (bytes ++ rest) = afterPush limit stack obj rest := by
  induction depth generalizing bytes obj stack rest with
  | zero =>
    obtain ⟨t, ht, hlimit, hzero, rfl⟩ := h
    exact read_item ht hlimit hzero rest
  | succ depth ih =>
    obtain ⟨t, head, parts, items, ht, hlimit, harity, hparts, rfl, rfl⟩ := h
    rcases eq_or_ne items [] with rfl | hitems
    · cases hparts
      rw [List.flatten_nil, List.append_nil]
      exact read_item ht hlimit harity.symm rest
    · have hpos := List.length_pos_iff.mpr hitems
      obtain ⟨f, hopen, htoken, hfilled, hmissing⟩ := handleToken_open hlimit (by omega)
        (show stack.length + 1 ≤ limit.depth by omega)
      have heach : List.Forall₂ (fun part item => ∀ (f : Frame) (rest : List UInt8),
          (context limit).read (.header, f :: stack) (part ++ rest)
            = afterPush limit (f :: stack) item rest) parts items :=
        hparts.imp fun part item hpart f rest => ih hpart (by rw [List.length_cons]; omega) rest
      rw [List.append_assoc, read_of_stack ht hopen, read_items heach (by omega) hitems, htoken,
        hfilled, List.nil_append]

/-- An encoding from the header state, with no container open. -/
theorem Encodes.read_nil (h : Encodes limit limit.depth bytes obj) (rest : List UInt8) :
    (context limit).read (.header, []) (bytes ++ rest) = .halted (.ok obj) rest :=
  h.read (by simp) rest

theorem Encodes.ne_nil (h : Encodes limit depth bytes obj) : bytes ≠ [] := by
  cases depth with
  | zero =>
    obtain ⟨t, ht, -⟩ := h
    exact (completes_of_spells ht).ne_nil
  | succ depth =>
    obtain ⟨t, head, parts, items, ht, -, -, -, rfl, -⟩ := h
    exact List.append_ne_nil_of_left_ne_nil (completes_of_spells ht).ne_nil _

/-- A container is known by its start, what is in it and what is to come. -/
theorem Frame.eq_of_filled {f f' : Frame} (htoken : f.token = f'.token)
    (hfilled : f.filled = f'.filled) : f = f' := by
  have hpairs : ∀ {items items' : List (Object × Object)},
      (items.flatMap fun p => [p.1, p.2]) = (items'.flatMap fun p => [p.1, p.2]) →
        items = items' := fun {items items'} h => by
    rw [← pairs_flatMap items, h, pairs_flatMap]
  have hparity : ∀ {items items' : List (Object × Object)} {key : Object},
      (items.flatMap fun p => [p.1, p.2]) ≠ (items'.flatMap fun p => [p.1, p.2]) ++ [key] :=
    fun {items items' key} h => by
      have hlen := congrArg List.length h
      rw [List.length_append, length_flatMap_pair, length_flatMap_pair,
        List.length_singleton] at hlen
      omega
  cases f with
  | array items count =>
    cases f' with
    | array items' count' =>
      obtain rfl : items = items' := hfilled
      have hcount := Token.array.inj htoken
      exact congrArg _ (by omega)
    | mapKey | mapValue => cases htoken
  | mapKey items count =>
    cases f' with
    | array => cases htoken
    | mapKey items' count' =>
      obtain rfl := hpairs hfilled
      have hcount := Token.map.inj htoken
      exact congrArg _ (by omega)
    | mapValue items' key' count' => exact absurd hfilled hparity
  | mapValue items key count =>
    cases f' with
    | array => cases htoken
    | mapKey items' count' => exact absurd hfilled.symm hparity
    | mapValue items' key' count' =>
      obtain ⟨hitems, hkey⟩ := List.append_inj' hfilled rfl
      obtain rfl := hpairs hitems
      obtain rfl : key = key' := (List.cons.inj hkey).1
      have hcount := Token.map.inj htoken
      exact congrArg _ (by omega)

/-- Items that do not fill the container leave it open. -/
theorem read_filled {parts : List (List UInt8)} {items : List Object} {f : Frame}
    (stack : List Frame) (h : List.Forall₂ (Encodes limit depth) parts items)
    (hdepth : stack.length + 1 + depth ≤ limit.depth) (hcount : items.length < f.missing)
    (rest : List UInt8) : ∃ f', f'.token = f.token ∧ f'.filled = f.filled ++ items ∧
      (context limit).read (.header, f :: stack) (parts.flatten ++ rest)
        = (context limit).read (.header, f' :: stack) rest := by
  induction h generalizing f with
  | nil => exact ⟨f, rfl, (List.append_nil _).symm, rfl⟩
  | @cons part item parts items hpart _ ih =>
    rw [List.length_cons] at hcount
    obtain ⟨f', hpush, htoken, hfilled, hmissing⟩ := pushItem_more (show 1 < f.missing by omega)
      stack item
    obtain ⟨f'', htoken', hfilled', hread⟩ := ih (f := f') (by omega)
    refine ⟨f'', htoken'.trans htoken, ?_, ?_⟩
    · rw [hfilled', hfilled, List.append_assoc, List.singleton_append]
    · rw [List.flatten_cons, List.append_assoc, hpart.read (by simpa using hdepth), afterPush,
        hpush]
      exact hread

/-- **The machine gets to the containers that have taken in its bytes.** -/
theorem Pending.read_from {stack : List Frame} (h : Pending limit stack before)
    (rest : List UInt8) : (context limit).read (.header, []) (before ++ rest)
      = (context limit).read (.header, stack) rest := by
  induction stack generalizing before rest with
  | nil =>
    obtain rfl : before = [] := h
    rfl
  | cons f stack ih =>
    obtain ⟨outer, head, parts, houter, hhead, hlimit, hmissing, hdepth, hparts, rfl⟩ := h
    have hfilled := Frame.length_filled hmissing
    obtain ⟨f₀, hopen, htoken₀, hfilled₀, hmissing₀⟩ :=
      handleToken_open hlimit (by omega) hdepth
    have hcount : f.filled.length < f₀.missing := by omega
    obtain ⟨f', htoken', hfilled', hread⟩ := read_filled stack hparts (by omega) hcount
      rest
    have heq : f' = f :=
      Frame.eq_of_filled (htoken'.trans htoken₀) (by rw [hfilled', hfilled₀]; rfl)
    rw [List.append_assoc, ih houter, List.append_assoc, read_of_stack hhead hopen, hread, heq]

/-! ## What is unpacked -/

/-- The offset behind what was read. -/
theorem length_sub_of_drop {data rest : List UInt8} {off : ℕ} (h : data.drop off = bytes ++ rest)
    (hne : bytes ≠ []) : data.length - rest.length = off + bytes.length := by
  have hpos := List.length_pos_iff.mpr hne
  have hlen := congrArg List.length h
  rw [List.length_drop, List.length_append] at hlen
  omega

/-- **What is unpacked was encoded.** -/
theorem encodes_of_unpack {data : List UInt8} {off off' : ℕ}
    (h : unpack limit data off = .ok (obj, off')) : ∃ bytes rest, data.drop off = bytes ++ rest ∧
      Encodes limit limit.depth bytes obj ∧ off' = off + bytes.length := by
  have hnil : Pending limit [] [] := rfl
  have hmeans := hnil.read (data.drop off)
  rw [unpack_eq_read] at h
  match hread : (context limit).read (.header, []) (data.drop off), hmeans with
  | .halted (.ok obj') rest, ⟨bytes, hbytes, hencodes⟩ =>
    rw [hread] at h
    obtain ⟨rfl, rfl⟩ := Prod.mk.inj (Except.ok.inj h)
    exact ⟨bytes, rest, hbytes, hencodes, length_sub_of_drop hbytes hencodes.ne_nil⟩
  | .halted (.error e) rest, _ =>
    rw [hread] at h
    cases h
  | .waiting s rest, _ =>
    rw [hread] at h
    cases h

/-- **What is encoded is unpacked.** -/
theorem Encodes.unpack {data rest : List UInt8} {off : ℕ} (h : Encodes limit limit.depth bytes obj)
    (hdata : data.drop off = bytes ++ rest) :
    Msgpack.unpack limit data off = .ok (obj, off + bytes.length) := by
  rw [unpack_eq_read, hdata, h.read_nil, ← length_sub_of_drop hdata h.ne_nil]
  rfl

/-- **`unpack` accepts exactly the format**: it returns an object, and the offset behind its bytes,
if and only if the bytes from the offset on begin with an encoding of that object. -/
theorem unpack_eq_ok_iff {data : List UInt8} {off off' : ℕ} :
    unpack limit data off = .ok (obj, off') ↔ ∃ bytes rest, data.drop off = bytes ++ rest ∧
      Encodes limit limit.depth bytes obj ∧ off' = off + bytes.length := by
  refine ⟨encodes_of_unpack, ?_⟩
  rintro ⟨bytes, rest, hdata, hencodes, rfl⟩
  exact hencodes.unpack hdata

/-- The machine that stops at the first item. -/
def speller : Reader (Cs × Unit) UInt8 (Option Token) :=
  machine (fun _ t => .ends false (some t)) fun _ => none

theorem speller_read (h : Spells bytes t) (rest : List UInt8) :
    speller.read (.header, ()) (bytes ++ rest) = .halted (some t) rest := by
  have hread : speller.read (.header, ()) (bytes ++ rest) = .halted (some t)
      ((bytes ++ rest).drop (if false then bytes.length - 1 else bytes.length)) :=
    (completes_of_spells h).read_ends (by rfl) rest
  rwa [if_neg Bool.false_ne_true, List.drop_left] at hread

/-- A spelled item is not the beginning of another. -/
theorem Spells.eq_of_append {more : List UInt8} {t' : Token} (h : Spells bytes t)
    (h' : Spells (bytes ++ more) t') : more = [] ∧ t = t' := by
  have hread := speller_read h' []
  rw [List.append_nil, speller_read h more] at hread
  exact ⟨(Reader.Outcome.halted.inj hread).2, Option.some.inj (Reader.Outcome.halted.inj hread).1⟩

/-- The reserved selector spells nothing. -/
theorem not_spells_reserved (rest : List UInt8) : ¬Spells (0xc1 :: rest) t := by
  intro h
  have hread := speller_read h []
  have hreserved : speller.read (.header, ()) (0xc1 :: rest) = .halted none (0xc1 :: rest) :=
    read_reserved rest
  rw [List.append_nil, hreserved] at hread
  cases hread

/-- The beginning of an item is too little, for whatever machine. -/
theorem Spells.read_waiting {tail more : List UInt8} (h : Spells (tail ++ more) t)
    (hmore : more ≠ []) (stack : List Frame) : ∃ cs rest,
      (context limit).read (.header, stack) tail = .waiting (cs, stack) rest := by
  rcases spelled_cases tail with ⟨bytes, rest, t', rfl, ht'⟩ | ⟨b, rest, rfl, hlex⟩ |
    ⟨⟨cs, rest, hwait⟩, -⟩
  · rw [List.append_assoc] at h
    exact absurd (List.append_eq_nil_iff.mp (ht'.eq_of_append h).1).2 hmore
  · rw [lexHeader_reserved hlex] at h
    exact absurd h (not_spells_reserved _)
  · exact ⟨cs, rest, hwait ..⟩

/-- **When `unpack` runs short**: the bytes from the offset on are what some containers have taken
in, and the beginning of one more item. -/
theorem unpack_eq_insufficientBytes_iff {data : List UInt8} {off : ℕ} :
    unpack limit data off = .error .insufficientBytes ↔ ∃ mid tail stack more t,
      data.drop off = mid ++ tail ∧ Pending limit stack mid ∧ more ≠ [] ∧
        Spells (tail ++ more) t := by
  have hnil : Pending limit [] [] := rfl
  have hmeans := hnil.read (data.drop off)
  rw [unpack_eq_read]
  refine ⟨fun h => ?_, ?_⟩
  · match hread : (context limit).read (.header, []) (data.drop off), hmeans with
    | .halted (.ok obj) rest, _ =>
      rw [hread] at h
      cases h
    | .halted (.error e) rest, hmeans =>
      rw [hread] at h
      exact absurd (Except.error.inj h) hmeans.1
    | .waiting s rest, hmeans => exact hmeans
  · rintro ⟨mid, tail, stack, more, t, hdata, hpending, hmore, ht⟩
    obtain ⟨cs, rest, hwait⟩ := ht.read_waiting hmore stack
    rw [hdata, hpending.read_from, hwait]
    rfl

/-- **When `unpack` fails to parse**: at the one reserved selector, in the place of an item. -/
theorem unpack_eq_parseError_iff {data : List UInt8} {off : ℕ} :
    unpack limit data off = .error .parseError ↔ ∃ mid rest stack,
      data.drop off = mid ++ 0xc1 :: rest ∧ Pending limit stack mid := by
  have hnil : Pending limit [] [] := rfl
  have hmeans := hnil.read (data.drop off)
  rw [unpack_eq_read]
  refine ⟨fun h => ?_, ?_⟩
  · match hread : (context limit).read (.header, []) (data.drop off), hmeans with
    | .halted (.ok obj) rest, _ =>
      rw [hread] at h
      cases h
    | .halted (.error e) rest, hmeans =>
      rw [hread] at h
      exact hmeans.2 (Except.error.inj h)
    | .waiting s rest, _ =>
      rw [hread] at h
      cases h
  · rintro ⟨mid, rest, stack, hdata, hpending⟩
    have hreserved : (context limit).read (.header, stack) (0xc1 :: rest)
        = .halted (.error .parseError) (0xc1 :: rest) := read_reserved rest
    rw [hdata, hpending.read_from, hreserved]
    rfl

/-- **No encoding is the beginning of another**, and no bytes have a second reading. -/
theorem Encodes.unique {more : List UInt8} {obj' : Object} (h : Encodes limit depth bytes obj)
    (h' : Encodes limit depth (bytes ++ more) obj') : more = [] ∧ obj = obj' := by
  let deep : UnpackLimit := { limit with depth := depth }
  have hdeep : ∀ t, limit.Admits t → deep.Admits t := fun t ht => by cases t <;> exact ht
  have hread := (h'.of_admits hdeep).read_nil []
  rw [List.append_nil, (h.of_admits hdeep).read_nil more] at hread
  exact ⟨(Reader.Outcome.halted.inj hread).2, Except.ok.inj (Reader.Outcome.halted.inj hread).1⟩

theorem encodes_five : Encodes {} 1 [0x91, 0x05] (.array [.positiveInteger 5]) :=
  ⟨.array 1, [0x91], [[0x05]], [.positiveInteger 5],
    @Spells.fixarray 1 (by decide), show 1 ≤ 0xffffffff by decide, rfl,
    .cons (.of_spells (.positiveFixint (by decide)) trivial rfl) .nil, rfl, rfl⟩

theorem Encodes.unique_five :
    ([] : List UInt8) = [] ∧ Object.array [.positiveInteger 5] = .array [.positiveInteger 5] :=
  Encodes.unique encodes_five encodes_five

/-- **An encoding that is cut short is short of bytes**, wherever it is cut. -/
theorem unpack_truncated {data more : List UInt8} {off : ℕ}
    (h : Encodes limit limit.depth (data.drop off ++ more) obj) (hmore : more ≠ []) :
    unpack limit data off = .error .insufficientBytes := by
  rw [unpack_eq_read]
  match hread : (context limit).read (.header, []) (data.drop off) with
  | .waiting s rest => rfl
  | .halted c rest =>
    have hfull := h.read_nil []
    rw [List.append_nil, Reader.read_append_of_halted hread] at hfull
    exact absurd (List.append_eq_nil_iff.mp (Reader.Outcome.halted.inj hfull).2).2 hmore

theorem unpack_truncated_five : unpack { depth := 1 } [0x91] 0 = .error .insufficientBytes :=
  @unpack_truncated { depth := 1 } _ [0x91] [0x05] 0
    (encodes_five.of_admits fun t ht => by cases t <;> exact ht) (List.cons_ne_nil _ _)

end Msgpack

end RaftCore
