import RaftCore.Msgpack.Pack

/-!
# Msgpack/Unpack — the machine that reads the bytes

`v1/unpack.hpp`: `context::execute` reads one item after another.  An item starts in the header
state with a selector byte; a selector with a body puts the machine into a reading state, in which
it waits for `trail` bytes.  A finished item goes to the innermost open container (`pushItem`),
closing as many as it fills, and with none left open it is the result.

`rest` is what lies from `m_current` on.  `m_current` stays on the last byte of an item until the
item is pushed, and on the byte before a body when the body is asked for (`again`).  The containers
of `m_stack` are the frames, innermost first; its last element, always blank, is left out.  A float
is kept as the bits it was sent as.
-/

namespace RaftCore

namespace Msgpack

open BigEndian

/-- `msgpack::object`. -/
inductive Object where
  | nil
  | boolean (b : Bool)
  | positiveInteger (u64 : UInt64)
  | negativeInteger (i64 : Int64)
  | float32 (bits : UInt32)
  | float64 (bits : UInt64)
  | str (bytes : List UInt8)
  | bin (bytes : List UInt8)
  | ext (bytes : List UInt8)
  | array (items : List Object)
  | map (items : List (Object × Object))

structure UnpackLimit where
  array : ℕ := 0xffffffff
  map : ℕ := 0xffffffff
  str : ℕ := 0xffffffff
  bin : ℕ := 0xffffffff
  ext : ℕ := 0xffffffff
  depth : ℕ := 0xffffffff

/-- What the bytes of a body are: a value, a length or size, or what a length announced. -/
inductive Reading where
  | uint
  | int
  | float
  | double
  | fixext
  | str
  | bin
  | ext
  | array
  | map
  | strValue
  | binValue
  | extValue
  deriving DecidableEq, Repr

/-- `m_cs`, with the `m_trail` a reading state waits for. -/
inductive State where
  | header
  | reading (what : Reading) (trail : ℕ)
  deriving DecidableEq, Repr

/-- An open container: what it holds, and the items still to come. -/
inductive Frame where
  | array (items : List Object) (count : ℕ)
  | mapKey (items : List (Object × Object)) (count : ℕ)
  | mapValue (items : List (Object × Object)) (key : Object) (count : ℕ)

/-- How a step of the machine ends. -/
inductive Signal where
  /-- An item is complete and no container is open: 1 is returned. -/
  | finished (obj : Object) (rest : List UInt8)
  /-- No item starts like this: -1 is returned. -/
  | failed (rest : List UInt8)
  /-- There are not enough bytes: 0 is returned. -/
  | suspended (rest : List UInt8)
  /-- The machine goes on. -/
  | going (state : State) (stack : List Frame) (again : Bool) (rest : List UInt8)

/-! ## Items -/

def unpackInt (d : ℤ) : Object :=
  if 0 ≤ d then .positiveInteger (UInt64.ofNat d.toNat) else .negativeInteger (Int64.ofInt d)

def unpackStr (limit : UnpackLimit) (bytes : List UInt8) : Except Error Object :=
  if limit.str < bytes.length then .error .strSizeOverflow else .ok (.str bytes)

def unpackBin (limit : UnpackLimit) (bytes : List UInt8) : Except Error Object :=
  if limit.bin < bytes.length then .error .binSizeOverflow else .ok (.bin bytes)

def unpackExt (limit : UnpackLimit) (bytes : List UInt8) : Except Error Object :=
  if limit.ext < bytes.length then .error .extSizeOverflow else .ok (.ext bytes)

/-- An item goes into the innermost container, or is the result (`.inl`). -/
def pushItem : List Frame → Object → Object ⊕ List Frame
  | [], obj => .inl obj
  | .array items count :: stack, obj =>
    if count - 1 = 0 then pushItem stack (.array (items ++ [obj]))
    else .inr (.array (items ++ [obj]) (count - 1) :: stack)
  | .mapKey items count :: stack, obj => .inr (.mapValue items obj count :: stack)
  | .mapValue items key count :: stack, obj =>
    if count - 1 = 0 then pushItem stack (.map (items ++ [(key, obj)]))
    else .inr (.mapKey (items ++ [(key, obj)]) (count - 1) :: stack)

/-- `push_proc`: `m_current` moves past the item. -/
def pushProc (stack : List Frame) (obj : Object) (rest : List UInt8) : Signal :=
  match pushItem stack obj with
  | .inl obj => .finished obj (rest.drop 1)
  | .inr stack => .going .header stack false (rest.drop 1)

/-- `push_aggregate`, once the size is read and the empty container is made. -/
def pushAggregate (limit : UnpackLimit) (stack : List Frame) (empty : Object) (frame : Frame)
    (size : ℕ) (rest : List UInt8) : Except Error Signal :=
  if size = 0 then .ok (pushProc stack empty rest)
  else if stack.length + 1 ≤ limit.depth then
    .ok (.going .header (frame :: stack) false (rest.drop 1))
  else .error .depthSizeOverflow

def pushArray (limit : UnpackLimit) (stack : List Frame) (size : ℕ) (rest : List UInt8) :
    Except Error Signal :=
  if limit.array < size then .error .arraySizeOverflow
  else pushAggregate limit stack (.array []) (.array [] size) size rest

def pushMap (limit : UnpackLimit) (stack : List Frame) (size : ℕ) (rest : List UInt8) :
    Except Error Signal :=
  if limit.map < size then .error .mapSizeOverflow
  else pushAggregate limit stack (.map []) (.mapKey [] size) size rest

/-! ## One round of the loop -/

/-- The table of `trail`, with the state each selector leads to. -/
def bodyOf : ℕ → Option (Reading × ℕ)
  | 0xc4 => some (.bin, 1)
  | 0xc5 => some (.bin, 2)
  | 0xc6 => some (.bin, 4)
  | 0xc7 => some (.ext, 1)
  | 0xc8 => some (.ext, 2)
  | 0xc9 => some (.ext, 4)
  | 0xca => some (.float, 4)
  | 0xcb => some (.double, 8)
  | 0xcc => some (.uint, 1)
  | 0xcd => some (.uint, 2)
  | 0xce => some (.uint, 4)
  | 0xcf => some (.uint, 8)
  | 0xd0 => some (.int, 1)
  | 0xd1 => some (.int, 2)
  | 0xd2 => some (.int, 4)
  | 0xd3 => some (.int, 8)
  | 0xd4 => some (.fixext, 2)
  | 0xd5 => some (.fixext, 3)
  | 0xd6 => some (.fixext, 5)
  | 0xd7 => some (.fixext, 9)
  | 0xd8 => some (.fixext, 17)
  | 0xd9 => some (.str, 1)
  | 0xda => some (.str, 2)
  | 0xdb => some (.str, 4)
  | 0xdc => some (.array, 2)
  | 0xdd => some (.array, 4)
  | 0xde => some (.map, 2)
  | 0xdf => some (.map, 4)
  | _ => none

/-- The header state on the selector `b`, which `rest` starts with. -/
def readHeader (limit : UnpackLimit) (stack : List Frame) (b : UInt8) (rest : List UInt8) :
    Except Error Signal :=
  let selector := b.toNat
  if selector ≤ 0x7f then .ok (pushProc stack (.positiveInteger b.toUInt64) rest)
  else if 0xe0 ≤ selector then .ok (pushProc stack (unpackInt (loadSigned [b])) rest)
  else match bodyOf selector with
    | some (what, trail) => .ok (.going (.reading what trail) stack true rest)
    | none =>
      if 0xa0 ≤ selector ∧ selector ≤ 0xbf then
        let trail := selector &&& 0x1f
        if trail = 0 then (unpackStr limit []).map fun obj => pushProc stack obj rest
        else .ok (.going (.reading .strValue trail) stack true rest)
      else if 0x90 ≤ selector ∧ selector ≤ 0x9f then pushArray limit stack (selector &&& 0x0f) rest
      else if 0x80 ≤ selector ∧ selector ≤ 0x8f then pushMap limit stack (selector &&& 0x0f) rest
      else if selector = 0xc2 then .ok (pushProc stack (.boolean false) rest)
      else if selector = 0xc3 then .ok (pushProc stack (.boolean true) rest)
      else if selector = 0xc0 then .ok (pushProc stack .nil rest)
      else .ok (.failed rest)

/-- A reading state on `rest`, which starts with the body. -/
def readBody (limit : UnpackLimit) (what : Reading) (trail : ℕ) (stack : List Frame)
    (rest : List UInt8) : Except Error Signal :=
  if rest.length < trail then .ok (.suspended rest)
  else
    let n := rest.take trail
    let last := rest.drop (trail - 1)
    match what with
    | .uint => .ok (pushProc stack (.positiveInteger (UInt64.ofNat (load n))) last)
    | .int => .ok (pushProc stack (unpackInt (loadSigned n)) last)
    | .float => .ok (pushProc stack (.float32 (UInt32.ofNat (load n))) last)
    | .double => .ok (pushProc stack (.float64 (UInt64.ofNat (load n))) last)
    | .fixext => (unpackExt limit n).map fun obj => pushProc stack obj last
    | .str =>
      if load n = 0 then (unpackStr limit []).map fun obj => pushProc stack obj last
      else .ok (.going (.reading .strValue (load n)) stack true last)
    | .bin =>
      if load n = 0 then (unpackBin limit []).map fun obj => pushProc stack obj last
      else .ok (.going (.reading .binValue (load n)) stack true last)
    | .ext => .ok (.going (.reading .extValue (load n + 1)) stack true last)
    | .array => pushArray limit stack (load n) last
    | .map => pushMap limit stack (load n) last
    | .strValue => (unpackStr limit n).map fun obj => pushProc stack obj last
    | .binValue => (unpackBin limit n).map fun obj => pushProc stack obj last
    | .extValue => (unpackExt limit n).map fun obj => pushProc stack obj last

/-- The body of the loop of `execute`. -/
def executeOnce (limit : UnpackLimit) (state : State) (stack : List Frame) (again : Bool)
    (rest : List UInt8) : Except Error Signal :=
  match state with
  | .reading what trail => readBody limit what trail stack (if again then rest.drop 1 else rest)
  | .header => match rest with
    | [] => .ok (.suspended rest)
    | b :: _ => do match ← readHeader limit stack b rest with
      | .going (.reading what trail) stack again rest =>
        readBody limit what trail stack (if again then rest.drop 1 else rest)
      | signal => .ok signal

/-- `context::execute`; a round that goes on has used up a byte, so a round for each byte is fuel
enough. -/
def execute (limit : UnpackLimit) : ℕ → State → List Frame → Bool → List UInt8 →
    Except Error Signal
  | 0, _, _, _, rest => .ok (.suspended rest)
  | fuel + 1, state, stack, again, rest => do
    match ← executeOnce limit state stack again rest with
    | .going state stack again rest =>
      if rest = [] then .ok (.suspended rest) else execute limit fuel state stack again rest
    | signal => .ok signal

/-- `unpack` from an offset on: the object, and the offset after it.  Memory is taken to be there:
a container has its items allocated at its header, all of them, and the `bad_alloc` of that is left
out. -/
def unpack (limit : UnpackLimit) (data : List UInt8) (off : ℕ) : Except Error (Object × ℕ) :=
  if data.length ≤ off then .error .insufficientBytes
  else do match ← execute limit (data.length - off) .header [] false (data.drop off) with
    | .finished obj rest => .ok (obj, data.length - rest.length)
    | .failed _ => .error .parseError
    | .suspended _ | .going .. => .error .insufficientBytes

end Msgpack

end RaftCore
