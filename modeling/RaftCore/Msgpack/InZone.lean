import RaftCore.Machinery.Memory
import RaftCore.Msgpack.CreateObject
import RaftCore.Msgpack.PackObject
import RaftCore.Msgpack.Zone

/-!
# Msgpack/InZone — an object where it stands

`create_object_visitor` has no object to build: it has pointers.  An array is a type, a size and a
pointer to a piece of the zone with one slot for each of its items; `m_stack` points to the slot of
the array, and on top of that to the slot its next item goes to; strings are copied to pieces of
their own.  Here the visitor writes to a memory (`zoneVisitor`), and so does `v3::unpack` with it
(`unpackZone`).

What it leaves there is an object as a reader of pointers finds it (`ObjectsAt`).  The invariant has
the pieces of the zone in two lists: those that are written to once and for all (`frozen`), and for
each open container what is left of the slots of its items (`todo`).  A call makes a frozen piece of
the slot it writes, so that nothing that stands is ever written over (`Placed.write`).
-/

namespace RaftCore

namespace Msgpack

open Extent Memory

/-! ## The visitor in memory -/

/-- `msgpack::object`: what `via` is for its type.  Pointers are addresses. -/
inductive Slot where
  | nil
  | boolean (b : Bool)
  | positiveInteger (u64 : UInt64)
  | negativeInteger (i64 : Int64)
  | float32 (bits : UInt32)
  | float64 (bits : UInt64)
  | str (size : UInt32) (ptr : ℕ)
  | bin (size : UInt32) (ptr : ℕ)
  | ext (size : UInt32) (ptr : ℕ)
  | array (size : UInt32) (ptr : ℕ)
  | map (size : UInt32) (ptr : ℕ)

/-- `sizeof(msgpack::object)`. -/
def sizeofObject : ℕ := 24

/-- `sizeof(msgpack::object_kv)`: a key, and behind it its value. -/
def sizeofObjectKv : ℕ := 48

/-- `MSGPACK_ZONE_ALIGNOF(msgpack::object)`, and of `object_kv`. -/
def alignofObject : ℕ := 8

/-- What is thrown, by the visitor or by the zone; what a `noexcept` constructor throws is the end
of the program. -/
inductive Thrown where
  | error (e : Error)
  | badAlloc
  | terminates
  deriving DecidableEq, Repr

/-- `sizeof(zone)`. -/
def sizeofZone : ℕ := 56

/-- `new zone(chunk_size)`: memory for the zone itself, and then its constructor. -/
def newZone (malloc : List (Extent ℕ) → ℕ → Option ℕ) (chunkSize : ℕ) :
    Except Thrown (Extent ℕ × Zone Empty) :=
  match malloc [] sizeofZone with
  | none => .error .badAlloc
  | some p =>
    match Zone.construct (malloc [malloced sizeofZone p]) chunkSize with
    | none => .error .terminates
    | some zone => .ok (malloced sizeofZone p, zone)

/-- What `malloc` answers where a block has been handed out before. -/
def behind (block : Extent ℕ) (malloc : List (Extent ℕ) → ℕ → Option ℕ) (blocks : List (Extent ℕ)) :
    ℕ → Option ℕ :=
  malloc (blocks ++ [block])

/-- The visitor with the memory it writes to: `m_stack.back()`, and the pointers below. -/
structure ZoneVisitor where
  memory : Memory Slot
  zone : Zone Empty
  back : ℕ
  below : List ℕ

namespace ZoneVisitor

/-- `*m_stack.back()` is assigned to. -/
def write (slot : Slot) (s : ZoneVisitor) : ZoneVisitor :=
  { s with memory := s.memory.store sizeofObject s.back slot }

def put (slot : Slot) (s : ZoneVisitor) : Except Thrown (Bool × ZoneVisitor) :=
  .ok (true, s.write slot)

/-- `zone().allocate_align`; what `malloc` answers may depend on the chunks there are. -/
def allocate (malloc : List (Extent ℕ) → ℕ → Option ℕ) (size align : ℕ) (s : ZoneVisitor) :
    Except Thrown (ℕ × ZoneVisitor) :=
  match s.zone.allocateAlign (malloc s.zone.chunks) size align with
  | some (ptr, zone) => .ok (ptr, { s with zone := zone })
  | none => .error .badAlloc

/-- A string, or the like, is copied to the zone. -/
def putBytes (malloc : List (Extent ℕ) → ℕ → Option ℕ) (v : List UInt8) (slot : ℕ → Slot)
    (s : ZoneVisitor) : Except Thrown (Bool × ZoneVisitor) := do
  let (tmp, s) ← s.allocate malloc v.length 1
  put (slot tmp) { s with memory := s.memory.copy tmp v }

/-- `m_stack.push_back`, once the container is written. -/
def push (slot : ℕ → Slot) (ptr : ℕ) (s : ZoneVisitor) : Except Thrown (Bool × ZoneVisitor) :=
  .ok (true, { s.write (slot ptr) with back := ptr, below := s.back :: s.below })

/-- The room for the items of a container, if it has any. -/
def start (malloc : List (Extent ℕ) → ℕ → Option ℕ) (n sizeof : ℕ) (overflow : Error)
    (slot : ℕ → Slot) (s : ZoneVisitor) : Except Thrown (Bool × ZoneVisitor) :=
  if n = 0 then s.push slot 0
  else
    let size := n * sizeof % 2 ^ 64
    if size / sizeof ≠ n then .error (.error overflow)
    else do
      let (ptr, s) ← s.allocate malloc size alignofObject
      s.push slot ptr

/-- `++m_stack.back()`. -/
def advance (s : ZoneVisitor) : ZoneVisitor := { s with back := s.back + sizeofObject }

/-- `m_stack.pop_back()`. -/
def finish (s : ZoneVisitor) : ZoneVisitor :=
  match s.below with
  | back :: below => { s with back := back, below := below }
  | [] => s

@[simp] theorem finish_zone (s : ZoneVisitor) : s.finish.zone = s.zone := by
  rw [finish]
  split <;> rfl

end ZoneVisitor

/-- `create_object_visitor`, without a reference function. -/
def zoneVisitor (malloc : List (Extent ℕ) → ℕ → Option ℕ) (limit : UnpackLimit) :
    Visitor Thrown ZoneVisitor where
  visit call s := match call with
    | .visitNil => s.put .nil
    | .visitBoolean b => s.put (.boolean b)
    | .visitPositiveInteger v => s.put (.positiveInteger v)
    | .visitNegativeInteger v =>
      if 0 ≤ v then s.put (.positiveInteger v.toUInt64) else s.put (.negativeInteger v)
    | .visitFloat32 bits => s.put (.float32 bits)
    | .visitFloat64 bits => s.put (.float64 bits)
    | .visitStr v =>
      if limit.str < v.length then .error (.error .strSizeOverflow)
      else s.putBytes malloc v (.str (UInt32.ofNat v.length))
    | .visitBin v =>
      if limit.bin < v.length then .error (.error .binSizeOverflow)
      else s.putBytes malloc v (.bin (UInt32.ofNat v.length))
    | .visitExt v =>
      if limit.ext < v.length then .error (.error .extSizeOverflow)
      else s.putBytes malloc v (.ext (UInt32.ofNat v.length - 1))
    | .startArray n =>
      if limit.array < n then .error (.error .arraySizeOverflow)
      else if limit.depth < s.below.length + 1 then .error (.error .depthSizeOverflow)
      else s.start malloc n sizeofObject .arraySizeOverflow (.array (UInt32.ofNat n))
    | .startMap n =>
      if limit.map < n then .error (.error .mapSizeOverflow)
      else if limit.depth < s.below.length + 1 then .error (.error .depthSizeOverflow)
      else s.start malloc n sizeofObjectKv .mapSizeOverflow (.map (UInt32.ofNat n))
    | .startArrayItem | .startMapKey | .startMapValue => .ok (true, s)
    | .endArrayItem | .endMapKey | .endMapValue => .ok (true, s.advance)
    | .endArray | .endMap => .ok (true, s.finish)
  parseError _ _ _ := .error (.error .parseError)
  insufficientBytes _ _ _ := .error (.error .insufficientBytes)

/-- `MSGPACK_ZONE_CHUNK_SIZE`. -/
def zoneChunkSize : ℕ := 8192

/-- `v3::unpack`, and `off` after it: `m_obj` is at `root`, and the zone is a new one.  Where the
parser stops short, it is an empty handle that is returned. -/
def unpackZone (malloc : List (Extent ℕ) → ℕ → Option ℕ) (limit : UnpackLimit) (root : ℕ)
    (mem : Memory Slot) (data : List UInt8) (off : ℕ) : Except Thrown (Option ZoneVisitor) × ℕ :=
  match newZone malloc zoneChunkSize with
  | .error e => (.error e, off)
  | .ok (block, zone) =>
    match parseImp (zoneVisitor (behind block malloc) limit)
      ⟨mem.store sizeofObject root .nil, zone, root, []⟩ data off with
    | (.ok (.success, s), off) => (.ok (some s), off)
    | (.ok (.extraBytes, s), off) => (.ok (some s), off)
    | (.ok _, off) => (.ok none, off)
    | (.error e, off) => (.error e, off)

/-! ## Where `malloc` refuses -/

section Refusals

variable {malloc : List (Extent ℕ) → ℕ → Option ℕ} {chunkSize : ℕ} {asks : List (ℕ × ℕ)}

/-- `malloc` has memory for a zone, but not for the first chunk of it. -/
def NoFirstChunk (malloc : List (Extent ℕ) → ℕ → Option ℕ) (chunkSize : ℕ) : Prop :=
  ∃ p, malloc [] sizeofZone = some p ∧
    malloc [malloced sizeofZone p] (sizeofChunk + chunkSize) = none

/-- There is a zone, but `malloc` has no chunk for one of these allocations from it. -/
def NoPiece (malloc : List (Extent ℕ) → ℕ → Option ℕ) (chunkSize : ℕ) (asks : List (ℕ × ℕ)) :
    Prop :=
  ∃ block zone, newZone malloc chunkSize = .ok (block, zone) ∧
    zone.allocateAll (behind block malloc) asks = none

/-- **How `new zone` goes.** -/
theorem newZone_cases (malloc : List (Extent ℕ) → ℕ → Option ℕ) (hsize : chunkSize ≤ 2 ^ 62) :
    newZone malloc chunkSize = .error .badAlloc ∧ malloc [] sizeofZone = none ∨
      newZone malloc chunkSize = .error .terminates ∧ NoFirstChunk malloc chunkSize ∨
      ∃ block zone, newZone malloc chunkSize = .ok (block, zone) ∧
        Zone.construct (behind block malloc []) chunkSize = some zone := by
  rw [newZone]
  cases hp : malloc [] sizeofZone with
  | none => exact .inl ⟨rfl, rfl⟩
  | some p =>
    dsimp only
    cases hzone : Zone.construct (malloc [malloced sizeofZone p]) chunkSize with
    | none =>
      have hnone := Option.map_eq_none_iff.mp hzone
      rw [Nat.mod_eq_of_lt (show sizeofChunk + chunkSize < 2 ^ 64 by rw [sizeofChunk]; omega)]
        at hnone
      exact .inr (.inl ⟨rfl, p, hp, hnone⟩)
    | some zone => exact .inr (.inr ⟨_, zone, rfl, hzone⟩)

theorem chunkSize_newZone {block : Extent ℕ} {zone : Zone Empty}
    (h : newZone malloc chunkSize = .ok (block, zone)) : zone.chunkSize = chunkSize := by
  rw [newZone] at h
  split at h
  · cases h
  · split at h
    · cases h
    · rename_i hzone
      obtain ⟨-, rfl⟩ := Prod.mk.inj (Except.ok.inj h)
      obtain ⟨c, -, rfl⟩ := Option.map_eq_some_iff.mp hzone
      rfl

/-- **It is `malloc` that refuses**, a chunk for one of them and of so many bytes at most. -/
theorem NoPiece.exists_refused (h : NoPiece malloc chunkSize asks) : ∃ ask ∈ asks, ∃ blocks,
    ∃ n ≤ sizeofChunk + max chunkSize (2 * (ask.1 + ask.2)), malloc blocks n = none := by
  obtain ⟨block, zone, hnew, hnone⟩ := h
  obtain ⟨done, size, align, more, z', rfl, -, n, hn, hrefused⟩ := Zone.allocateAll_eq_none hnone
  rw [chunkSize_newZone hnew] at hn
  exact ⟨(size, align), List.mem_append_right _ List.mem_cons_self, _, n, hn, hrefused⟩

/-- What is behind a block keeps the same promises. -/
theorem promises_behind {others : List (Extent ℕ)} (block : Extent ℕ)
    (h : ∀ blocks, Promises (malloc blocks) (blocks ++ others)) (blocks : List (Extent ℕ)) :
    Promises (behind block malloc blocks) (blocks ++ others) := by
  intro size c hc
  obtain ⟨hstop, hapart⟩ := h (blocks ++ [block]) size c hc
  refine ⟨hstop, fun b hb => hapart b ?_⟩
  rcases List.mem_append.mp hb with hb | hb
  · exact List.mem_append_left _ (List.mem_append_left _ hb)
  · exact List.mem_append_right _ hb

end Refusals

/-! ## Objects that stand in memory -/

/-- What an object is where it stands, with a pointer to what is in it. -/
def Object.slot (ptr : ℕ) : Object → Slot
  | .nil => .nil
  | .boolean b => .boolean b
  | .positiveInteger u64 => .positiveInteger u64
  | .negativeInteger i64 => .negativeInteger i64
  | .float32 bits => .float32 bits
  | .float64 bits => .float64 bits
  | .str bytes => .str (UInt32.ofNat bytes.length) ptr
  | .bin bytes => .bin (UInt32.ofNat bytes.length) ptr
  | .ext bytes => .ext (UInt32.ofNat bytes.length - 1) ptr
  | .array items => .array (UInt32.ofNat items.length) ptr
  | .map items => .map (UInt32.ofNat items.length) ptr

/-- The bytes behind its pointer. -/
def Object.content : Object → List UInt8
  | .str bytes => bytes
  | .bin bytes => bytes
  | .ext bytes => bytes
  | _ => []

/-- A slot that was written as one of the pieces. -/
def SlotAt (mem : Memory Slot) (pieces : List Piece) (p : ℕ) (slot : Slot) : Prop :=
  ⟨p, sizeofObject, alignofObject⟩ ∈ pieces ∧ mem.HasValue sizeofObject p slot

/-- Bytes that were, if there are any. -/
def BytesAt (mem : Memory Slot) (pieces : List Piece) (p : ℕ) (bytes : List UInt8) : Prop :=
  bytes = [] ∨ ⟨p, bytes.length, 1⟩ ∈ pieces ∧ mem.HasBytes p bytes

/-- **Objects that stand behind each other**, from `p` on: the slot of each, the bytes or the items
behind its pointer, and the others behind it. -/
inductive ObjectsAt (mem : Memory Slot) (pieces : List Piece) : ℕ → List Object → Prop where
  | nil (p : ℕ) : ObjectsAt mem pieces p []
  | cons {p ptr : ℕ} {obj : Object} {objs : List Object}
    (hslot : SlotAt mem pieces p (obj.slot ptr)) (hsized : obj.token.Sized)
    (hcontent : BytesAt mem pieces ptr obj.content) (hitems : ObjectsAt mem pieces ptr obj.items)
    (hobjs : ObjectsAt mem pieces (p + sizeofObject) objs) : ObjectsAt mem pieces p (obj :: objs)

section Frame

variable {mem mem' : Memory Slot} {pieces pieces' : List Piece} {p : ℕ} {slot : Slot}
  {bytes : List UInt8} {objs more : List Object}

theorem SlotAt.mono (h : SlotAt mem pieces p slot) (hsub : pieces ⊆ pieces')
    (hsame : ∀ q ∈ pieces, SameOn q.extent mem mem') : SlotAt mem' pieces' p slot :=
  ⟨hsub h.1, h.2.of_sameOn (by decide) (hsame _ h.1)⟩

theorem BytesAt.mono (h : BytesAt mem pieces p bytes) (hsub : pieces ⊆ pieces')
    (hsame : ∀ q ∈ pieces, SameOn q.extent mem mem') : BytesAt mem' pieces' p bytes :=
  h.imp_right fun h => ⟨hsub h.1, h.2.of_sameOn (hsame _ h.1)⟩

/-- **The frame**: what leaves the pieces alone leaves the objects where they are. -/
theorem ObjectsAt.mono (h : ObjectsAt mem pieces p objs) (hsub : pieces ⊆ pieces')
    (hsame : ∀ q ∈ pieces, SameOn q.extent mem mem') : ObjectsAt mem' pieces' p objs := by
  induction h with
  | nil p => exact .nil p
  | cons hslot hsized hcontent _ _ ihitems ihobjs =>
    exact .cons (hslot.mono hsub hsame) hsized (hcontent.mono hsub hsame) ihitems ihobjs

theorem ObjectsAt.append (h : ObjectsAt mem pieces p objs)
    (hmore : ObjectsAt mem pieces (p + sizeofObject * objs.length) more) :
    ObjectsAt mem pieces p (objs ++ more) := by
  induction h with
  | nil p => exact hmore
  | @cons p ptr obj objs hslot hsized hcontent hitems hobjs ihitems ihobjs =>
    refine .cons hslot hsized hcontent hitems (ihobjs ?_)
    rwa [List.length_cons, Nat.mul_succ, Nat.add_comm (sizeofObject * _), ← Nat.add_assoc] at hmore

end Frame

/-! ## Containers that are open -/

/-- The slot of a container. -/
def Token.header (ptr : ℕ) : Token → Slot
  | .array size => .array (UInt32.ofNat size) ptr
  | .map size => .map (UInt32.ofNat size) ptr
  | _ => .nil

/-- **The pointers of the containers that are open**, for the context's view of them: `back` is
where the next item of the innermost goes, behind those that are in it, and `todo` is what each has
left behind that slot. -/
inductive OpenAt (mem : Memory Slot) (pieces : List Piece) (root : ℕ) :
    List Frame → ℕ → List ℕ → List Piece → Prop where
  | root : OpenAt mem pieces root [] root [] []
  | item {f : Frame} {stack : List Frame} {a p back : ℕ} {below : List ℕ} {todo : List Piece}
    (hopen : OpenAt mem pieces root stack a below todo)
    (hslot : SlotAt mem pieces a (f.token.header p)) (hsized : f.token.Sized)
    (hmissing : 0 < f.missing) (hfilled : ObjectsAt mem pieces p f.filled)
    (hback : back = p + sizeofObject * f.filled.length) :
    OpenAt mem pieces root (f :: stack) back (a :: below)
      (⟨back + sizeofObject, sizeofObject * (f.missing - 1), alignofObject⟩ :: todo)

theorem OpenAt.mono {mem mem' : Memory Slot} {pieces pieces' : List Piece} {root back : ℕ}
    {stack : List Frame} {below : List ℕ} {todo : List Piece}
    (h : OpenAt mem pieces root stack back below todo) (hsub : pieces ⊆ pieces')
    (hsame : ∀ q ∈ pieces, SameOn q.extent mem mem') :
    OpenAt mem' pieces' root stack back below todo := by
  induction h with
  | root => exact .root
  | item _ hslot hsized hmissing hfilled hback ih =>
    exact .item ih (hslot.mono hsub hsame) hsized hmissing (hfilled.mono hsub hsame) hback

theorem OpenAt.missing_pos {mem : Memory Slot} {pieces : List Piece} {root back : ℕ} {f : Frame}
    {stack : List Frame} {below : List ℕ} {todo : List Piece}
    (h : OpenAt mem pieces root (f :: stack) back below todo) : 0 < f.missing := by
  cases h with
  | item _ _ _ hmissing _ _ => exact hmissing

theorem OpenAt.length_below {mem : Memory Slot} {pieces : List Piece} {root back : ℕ}
    {stack : List Frame} {below : List ℕ} {todo : List Piece}
    (h : OpenAt mem pieces root stack back below todo) : below.length = stack.length := by
  induction h with
  | root => rfl
  | item _ _ _ _ _ _ ih => exact congrArg (· + 1) ih

/-- `m_obj`, which is in no zone. -/
def rootPiece (root : ℕ) : Piece := ⟨root, sizeofObject, alignofObject⟩

/-- Nothing was written to but the pieces. -/
def Untouched (before mem : Memory Slot) (pieces : List Piece) : Prop :=
  ∀ x, (∀ q ∈ pieces, x < q.ptr ∨ q.ptr + q.size ≤ x) → mem x = before x

section Untouched

variable {before mem mem' : Memory Slot} {pieces pieces' : List Piece}

theorem Untouched.mono (h : Untouched before mem pieces) (hsub : pieces ⊆ pieces') :
    Untouched before mem pieces' :=
  fun x hx => h x fun q hq => hx q (hsub hq)

theorem Untouched.trans (h : Untouched before mem pieces) (h' : Untouched mem mem' pieces) :
    Untouched before mem' pieces :=
  fun x hx => (h' x hx).trans (h x hx)

/-- What is apart from the pieces is what it was. -/
theorem Untouched.sameOn {e : Extent ℕ} (h : Untouched before mem pieces)
    (hapart : ∀ q ∈ pieces, q.extent.Apart e) : SameOn e before mem := by
  refine fun x hle hlt => h x fun q hq => ?_
  rcases hapart q hq with hstop | hstart
  · exact .inr (hstop.trans hle)
  · exact .inl (hlt.trans_le hstart)

theorem store_untouched (p : ℕ) (slot : Slot) (mem : Memory Slot) :
    Untouched mem (mem.store sizeofObject p slot) [⟨p, sizeofObject, alignofObject⟩] := by
  intro x hx
  have hslot := List.forall_mem_singleton.mp hx
  dsimp only [store] at hslot ⊢
  rw [if_neg (by rw [sizeofObject] at hslot; omega), if_neg (by omega)]

end Untouched

/-- **The invariant of the visitor**, with the slot it is to write to now, if it is (`now`). -/
structure Placed (before : Memory Slot) (root : ℕ) (stack : List Frame)
    (now todo frozen : List Piece) (s : ZoneVisitor) : Prop where
  inv : ZoneUse.Inv [(rootPiece root).extent] ⟨s.zone, now ++ (todo ++ frozen), []⟩
  opened : OpenAt s.memory frozen root stack s.back s.below todo
  untouched : Untouched before s.memory (now ++ (todo ++ frozen))

/-- An item is to be written. -/
def Ready (before : Memory Slot) (root : ℕ) (stack : List Frame) (s : ZoneVisitor) : Prop :=
  ∃ todo frozen,
    Placed before root stack [⟨s.back, sizeofObject, alignofObject⟩] todo frozen s

/-- An item has been written. -/
def Done (before : Memory Slot) (root : ℕ) (stack : List Frame) (s : ZoneVisitor) (obj : Object) :
    Prop :=
  ∃ todo frozen, Placed before root stack [] todo frozen s ∧
    ObjectsAt s.memory frozen s.back [obj]

section Pieces

variable {φ : Type} {others : List (Extent ℕ)} {z : Zone φ} {pieces pieces' : List Piece}
  {fins : List φ} {p m n align : ℕ}

theorem ZoneUse.Inv.perm (h : ZoneUse.Inv others ⟨z, pieces, fins⟩) (hperm : pieces.Perm pieces') :
    ZoneUse.Inv others ⟨z, pieces', fins⟩ := by
  refine h.divide ?_ (fun q hq => ⟨q, hperm.mem_iff.mpr hq, .refl _⟩)
    fun q hq => h.aligned q (hperm.mem_iff.mpr hq)
  exact ((hperm.map _).pairwise_iff fun hab => hab.symm).mp h.parcelled.taken_apart

/-- A piece of no size is forgotten, or any other. -/
theorem ZoneUse.Inv.forget {q : Piece} (h : ZoneUse.Inv others ⟨z, q :: pieces, fins⟩) :
    ZoneUse.Inv others ⟨z, pieces, fins⟩ :=
  h.divide (List.pairwise_cons.mp h.parcelled.taken_apart).2
    (fun r hr => ⟨r, List.mem_cons_of_mem q hr, .refl _⟩)
    fun r hr => h.aligned r (List.mem_cons_of_mem q hr)

/-- **A piece is cut in two.** -/
theorem ZoneUse.Inv.cut (h : ZoneUse.Inv others ⟨z, ⟨p, m + n, align⟩ :: pieces, fins⟩)
    (halign : align ∣ m) :
    ZoneUse.Inv others ⟨z, ⟨p, m, align⟩ :: ⟨p + m, n, align⟩ :: pieces, fins⟩ := by
  have hwhole : (⟨p, m + n, align⟩ : Piece) ∈ ⟨p, m + n, align⟩ :: pieces := List.mem_cons_self
  have hfirst : Extent.Within ⟨p, p + m⟩ ⟨p, p + (m + n)⟩ := ⟨le_rfl, by dsimp only; omega⟩
  have hsecond : Extent.Within ⟨p + m, p + m + n⟩ ⟨p, p + (m + n)⟩ :=
    ⟨Nat.le_add_right p m, (Nat.add_assoc p m n).le⟩
  obtain ⟨hpiece, hapart⟩ := List.pairwise_cons.mp h.parcelled.taken_apart
  have hp := h.aligned _ hwhole
  refine h.divide ?_ ?_ ?_
  · refine List.pairwise_cons.mpr ⟨List.forall_mem_cons.mpr ⟨.inl le_rfl, fun e he => ?_⟩,
      List.pairwise_cons.mpr ⟨fun e he => ?_, hapart⟩⟩
    · exact (hpiece e he).mono hfirst (.refl e)
    · exact (hpiece e he).mono hsecond (.refl e)
  · exact List.forall_mem_cons.mpr ⟨⟨_, hwhole, hfirst⟩, List.forall_mem_cons.mpr
      ⟨⟨_, hwhole, hsecond⟩, fun r hr => ⟨r, List.mem_cons_of_mem _ hr, .refl _⟩⟩⟩
  · exact List.forall_mem_cons.mpr ⟨hp, List.forall_mem_cons.mpr
      ⟨Nat.dvd_add hp halign, fun r hr => h.aligned r (List.mem_cons_of_mem _ hr)⟩⟩

end Pieces

/-! ## What a call keeps -/

/-- A container that is full has the slot it was started with. -/
theorem slot_build {t : Token} {items : List Object} (hpos : 0 < t.arity)
    (hitems : items.length = t.arity) (p : ℕ) :
    (t.build items).slot p = t.header p ∧ (t.build items).token = t ∧
      (t.build items).items = items ∧ (t.build items).content = [] := by
  cases t with
  | array n =>
    obtain rfl : items.length = n := hitems
    exact ⟨rfl, rfl, rfl, rfl⟩
  | map n =>
    obtain ⟨hflat, rfl⟩ := flatMap_pairs hitems
    exact ⟨rfl, rfl, hflat, rfl⟩
  | _ => exact absurd hpos (lt_irrefl 0)

section Calls

variable {malloc : List (Extent ℕ) → ℕ → Option ℕ} {before : Memory Slot} {root : ℕ}
  {stack : List Frame} {now todo frozen : List Piece} {s : ZoneVisitor} {obj : Object}

/-- What is written to the slot of the next item is in nobody's way. -/
theorem Placed.write_sameOn (slot : Slot)
    (h : Placed before root stack [⟨s.back, sizeofObject, alignofObject⟩] todo frozen s) :
    ∀ q ∈ frozen, SameOn q.extent s.memory (s.write slot).memory := by
  intro q hq
  obtain ⟨hslot, -⟩ := List.pairwise_cons.mp h.inv.parcelled.taken_apart
  have hmem : q ∈ todo ++ frozen := List.mem_append_right _ hq
  exact store_sameOn (hslot q.extent (List.mem_map_of_mem hmem)) (Nat.succ_pos 23) slot s.memory

/-- …and it is nowhere else. -/
theorem Placed.write_untouched (slot : Slot) {pieces : List Piece}
    (h : Placed before root stack [⟨s.back, sizeofObject, alignofObject⟩] todo frozen s)
    (hpieces : [⟨s.back, sizeofObject, alignofObject⟩] ++ (todo ++ frozen) ⊆ pieces) :
    Untouched before (s.write slot).memory pieces := by
  have hwrite := store_untouched s.back slot s.memory
  exact (h.untouched.mono hpieces).trans
    (hwrite.mono fun _ hq => hpieces (List.mem_append_left _ hq))

/-- **An item is written** to its slot, with what is in it in its place already. -/
theorem Placed.write
    (h : Placed before root stack [⟨s.back, sizeofObject, alignofObject⟩] todo frozen s)
    (ptr : ℕ) (hsized : obj.token.Sized) (hcontent : BytesAt s.memory frozen ptr obj.content)
    (hitems : ObjectsAt s.memory frozen ptr obj.items) :
    Done before root stack (s.write (obj.slot ptr)) obj := by
  have hsame := h.write_sameOn (obj.slot ptr)
  let slot : Piece := ⟨s.back, sizeofObject, alignofObject⟩
  have hsub : frozen ⊆ slot :: frozen := List.subset_cons_self _ _
  have hperm : (slot :: (todo ++ frozen)).Perm (todo ++ slot :: frozen) := List.perm_middle.symm
  refine ⟨todo, slot :: frozen, ⟨h.inv.perm hperm, h.opened.mono hsub hsame,
    h.write_untouched _ hperm.subset⟩, ?_⟩
  exact .cons ⟨List.mem_cons_self, store_hasValue _ _ _ _⟩ hsized (hcontent.mono hsub hsame)
    (hitems.mono hsub hsame) (.nil _)

/-- What a call answers that allocates so much, unless `malloc` refuses. -/
def Yields (malloc : List (Extent ℕ) → ℕ → Option ℕ) (asks : List (ℕ × ℕ)) (s : ZoneVisitor)
    (r : Except Thrown (Bool × ZoneVisitor)) (P : ZoneVisitor → Prop) : Prop :=
  r = .error .badAlloc ∧ s.zone.allocateAll malloc asks = none ∨
    ∃ s', r = .ok (true, s') ∧ s.zone.allocateAll malloc asks = some s'.zone ∧ P s'

/-- An item with nothing in it. -/
theorem Ready.put (h : Ready before root stack s) (hsized : obj.token.Sized)
    (hcontent : obj.content = []) (hitems : obj.items = []) :
    Yields malloc [] s (s.put (obj.slot 0)) fun s => Done before root stack s obj := by
  obtain ⟨todo, frozen, h⟩ := h
  refine .inr ⟨_, rfl, rfl, h.write 0 hsized (.inl hcontent) ?_⟩
  rw [hitems]
  exact .nil 0

/-- **A piece of the zone**, or `bad_alloc`. -/
theorem Placed.allocate (h : Placed before root stack now todo frozen s)
    (hmalloc : ∀ chunks, Promises (malloc chunks) (chunks ++ [(rootPiece root).extent]))
    {size align : ℕ} (halign : 0 < align) (hsize : size + align ≤ 2 ^ 62) :
    s.allocate malloc size align = .error .badAlloc ∧
        s.zone.allocateAll malloc [(size, align)] = none ∨
      ∃ x zone, s.allocate malloc size align = .ok (x, { s with zone := zone }) ∧
        s.zone.allocateAll malloc [(size, align)] = some zone ∧
        ZoneUse.Inv [(rootPiece root).extent]
          ⟨zone, ⟨x, size, align⟩ :: (now ++ (todo ++ frozen)), []⟩ := by
  rw [ZoneVisitor.allocate, Zone.allocateAll]
  cases hcall : s.zone.allocateAlign (malloc s.zone.chunks) size align with
  | none => exact .inl ⟨rfl, rfl⟩
  | some r =>
    obtain ⟨x, zone⟩ := r
    exact .inr ⟨x, zone, rfl, rfl, h.inv.allocateAlign (hmalloc _) halign hsize hcall⟩

/-- **Bytes are copied** to a piece of their own. -/
theorem Placed.copy (h : Placed before root stack now todo frozen s) {x : ℕ} {zone : Zone Empty}
    {v : List UInt8} (hinv : ZoneUse.Inv [(rootPiece root).extent]
      ⟨zone, ⟨x, v.length, 1⟩ :: (now ++ (todo ++ frozen)), []⟩) :
    let s' := { s with zone := zone, memory := s.memory.copy x v }
    Placed before root stack now todo (⟨x, v.length, 1⟩ :: frozen) s' ∧
      BytesAt s'.memory (⟨x, v.length, 1⟩ :: frozen) x v := by
  let piece : Piece := ⟨x, v.length, 1⟩
  have hsub : frozen ⊆ piece :: frozen := List.subset_cons_self _ _
  have hperm : (piece :: (now ++ (todo ++ frozen))).Perm (now ++ (todo ++ piece :: frozen)) := by
    rw [← List.append_assoc, ← List.append_assoc]
    exact List.perm_middle.symm
  obtain ⟨hpiece, -⟩ := List.pairwise_cons.mp hinv.parcelled.taken_apart
  have hsame : ∀ q ∈ frozen, SameOn q.extent s.memory (s.memory.copy x v) := by
    intro q hq
    have hmem : q ∈ now ++ (todo ++ frozen) :=
      List.mem_append_right _ (List.mem_append_right _ hq)
    exact copy_sameOn (hpiece q.extent (List.mem_map_of_mem hmem)) s.memory
  refine ⟨⟨hinv.perm hperm, h.opened.mono hsub hsame, fun y hy => ?_⟩,
    .inr ⟨List.mem_cons_self, copy_hasBytes x v s.memory⟩⟩
  have hbytes := hy _ (hperm.subset List.mem_cons_self)
  have hcopy : s.memory.copy x v y = s.memory y :=
    copy_sameOn (e := ⟨y, y + 1⟩) (hbytes.symm.imp id id) s.memory y le_rfl (Nat.lt_succ_self y)
  exact hcopy.trans (h.untouched y fun q hq => hy q (hperm.subset (List.mem_cons_of_mem _ hq)))

/-- A string, or the like. -/
theorem Ready.putBytes (h : Ready before root stack s)
    (hmalloc : ∀ chunks, Promises (malloc chunks) (chunks ++ [(rootPiece root).extent]))
    {v : List UInt8} (hv : v.length ≤ 2 ^ 32) {slot : ℕ → Slot} (hslot : ∀ p, slot p = obj.slot p)
    (hsized : obj.token.Sized) (hcontent : obj.content = v) (hitems : obj.items = []) :
    Yields malloc [(v.length, 1)] s (s.putBytes malloc v slot)
      fun s => Done before root stack s obj := by
  obtain ⟨todo, frozen, h⟩ := h
  rw [ZoneVisitor.putBytes]
  rcases h.allocate hmalloc Nat.one_pos (show v.length + 1 ≤ 2 ^ 62 by omega) with
    ⟨hbad, hnone⟩ | ⟨x, zone, hx, hsome, hinv⟩
  · rw [hbad]
    exact .inl ⟨rfl, hnone⟩
  · rw [hx]
    obtain ⟨hcopied, hbytes⟩ := h.copy hinv
    refine .inr ⟨_, rfl, hsome, ?_⟩
    rw [hslot]
    refine hcopied.write x hsized (hcontent ▸ hbytes) ?_
    rw [hitems]
    exact .nil x

/-- **A container is opened**: its slot is written, and its items have a piece to go to. -/
theorem Ready.start (h : Ready before root stack s)
    (hmalloc : ∀ chunks, Promises (malloc chunks) (chunks ++ [(rootPiece root).extent]))
    {f : Frame} {n sizeof : ℕ} {overflow : Error} {slot : ℕ → Slot}
    (hslot : ∀ p, slot p = f.token.header p) (hsized : f.token.Sized) (hfilled : f.filled = [])
    (hmissing : 0 < f.missing) (hn : n < 2 ^ 32) (hsizeof : 0 < sizeof ∧ sizeof ≤ 48)
    (hsize : n * sizeof = sizeofObject * f.missing) :
    Yields malloc [(n * sizeof, alignofObject)] s (s.start malloc n sizeof overflow slot)
      (Ready before root (f :: stack)) := by
  obtain ⟨todo, frozen, h⟩ := h
  have hpos : 0 < n * sizeof := hsize ▸ Nat.mul_pos (by decide) hmissing
  have hlt : n * sizeof ≤ 2 ^ 32 * 48 := Nat.mul_le_mul hn.le hsizeof.2
  have hword : n * sizeof % 2 ^ 64 = n * sizeof := Nat.mod_eq_of_lt (by omega)
  rw [ZoneVisitor.start, if_neg (Nat.pos_of_mul_pos_right hpos).ne', hword]
  dsimp only
  rw [if_neg (not_not.mpr (Nat.mul_div_cancel n hsizeof.1))]
  rcases h.allocate hmalloc (show 0 < alignofObject by decide)
    (show n * sizeof + alignofObject ≤ 2 ^ 62 by rw [alignofObject]; omega) with
    ⟨hbad, hnone⟩ | ⟨x, zone, hx, hsome, hinv⟩
  · rw [hbad]
    exact .inl ⟨rfl, hnone⟩
  rw [hx]
  let back : Piece := ⟨s.back, sizeofObject, alignofObject⟩
  have hsplit : n * sizeof = sizeofObject + sizeofObject * (f.missing - 1) := by
    rw [hsize, ← mul_one_add, show 1 + (f.missing - 1) = f.missing by omega]
  rw [hsplit] at hinv
  have hsub : frozen ⊆ back :: frozen := List.subset_cons_self _ _
  have hsame := h.write_sameOn (slot x)
  have hperm : ∀ now rest : Piece, (now :: rest :: back :: (todo ++ frozen)).Perm
      (now :: rest :: (todo ++ back :: frozen)) :=
    fun now rest => (List.perm_middle.symm.cons rest).cons now
  refine .inr ⟨_, rfl, hsome, ⟨_, sizeofObject * (f.missing - 1), alignofObject⟩ :: todo,
    back :: frozen, (hinv.cut (by decide)).perm (hperm _ _), ?_, ?_⟩
  · refine .item (h.opened.mono hsub hsame) (p := x) ⟨List.mem_cons_self, ?_⟩ hsized hmissing ?_ ?_
    · rw [← hslot]
      exact store_hasValue _ _ _ _
    · rw [hfilled]
      exact .nil x
    · rw [hfilled]
      rfl
  · refine h.write_untouched (slot x) fun q hq => (hperm _ _).subset ?_
    exact List.mem_cons_of_mem _ (List.mem_cons_of_mem _ hq)

/-- A container without items is closed at once. -/
theorem Ready.start_empty (h : Ready before root stack s) {sizeof : ℕ} {overflow : Error}
    {slot : ℕ → Slot} (hslot : slot 0 = obj.slot 0) (hsized : obj.token.Sized)
    (hcontent : obj.content = []) (hitems : obj.items = []) :
    Yields malloc [] s (s.start malloc 0 sizeof overflow slot)
      fun s => Done before root stack s.finish obj := by
  obtain ⟨todo, frozen, h⟩ := h
  refine .inr ⟨_, rfl, rfl, ?_⟩
  rw [hslot]
  refine h.write 0 hsized (.inl hcontent) ?_
  rw [hitems]
  exact .nil 0

/-- **The last item of a container**: the container is what has been written then. -/
theorem Done.last {f : Frame} (h : Done before root (f :: stack) s obj) (hlast : f.missing = 1) :
    Done before root stack s.advance.finish (f.token.build (f.filled ++ [obj])) := by
  obtain ⟨todo, frozen, ⟨hinv, hopened, huntouched⟩, hobj⟩ := h
  obtain ⟨memory, zone, back, below⟩ := s
  cases hopened with
  | @item _ _ a p _ below todo hopen hslot hsized hmissing hfilled hback =>
    have hlength : (f.filled ++ [obj]).length = f.token.arity := by
      rw [List.length_append, List.length_singleton, ← hlast]
      exact Frame.length_filled hmissing
    have hpos : 0 < f.token.arity := by
      rw [← hlength, List.length_append, List.length_singleton]
      exact Nat.succ_pos _
    obtain ⟨hbuilt, htoken, hitems, hcontent⟩ := slot_build hpos hlength p
    refine ⟨todo, frozen, ⟨hinv.forget, hopen, fun x hx => huntouched x ?_⟩, ?_⟩
    · refine List.forall_mem_cons.mpr ⟨?_, hx⟩
      dsimp only
      rw [hlast]
      exact Nat.lt_or_ge _ _
    · refine .cons (hbuilt ▸ hslot) (by rwa [htoken]) (.inl hcontent) ?_ (.nil _)
      rw [hitems]
      subst hback
      exact hfilled.append hobj

/-- **Another item** may be written to the slot behind this one. -/
theorem Done.more {f f' : Frame} (h : Done before root (f :: stack) s obj) (hmore : 1 < f.missing)
    (htoken : f'.token = f.token) (hfilled : f'.filled = f.filled ++ [obj])
    (hmissing : f'.missing = f.missing - 1) : Ready before root (f' :: stack) s.advance := by
  obtain ⟨todo, frozen, ⟨hinv, hopened, huntouched⟩, hobj⟩ := h
  obtain ⟨memory, zone, back, below⟩ := s
  cases hopened with
  | @item _ _ a p _ below todo hopen hslot hsized _ hbefore hback =>
    have hsplit : sizeofObject * (f.missing - 1)
        = sizeofObject + sizeofObject * (f'.missing - 1) := by
      rw [← mul_one_add, hmissing]
      congr 1
      omega
    rw [hsplit] at hinv huntouched
    refine ⟨_ :: todo, frozen, hinv.cut (by decide), ?_, fun x hx => huntouched x ?_⟩
    · refine .item hopen (htoken ▸ hslot) (htoken ▸ hsized) (by omega) ?_ ?_
      · rw [hfilled]
        subst hback
        exact hbefore.append hobj
      · subst hback
        rw [hfilled, List.length_append, List.length_singleton, Nat.mul_succ, ← Nat.add_assoc]
        rfl
    · obtain ⟨hnow, hrest⟩ := List.forall_mem_cons.mp hx
      obtain ⟨hleft, hrest⟩ := List.forall_mem_cons.mp hrest
      refine List.forall_mem_cons.mpr ⟨?_, hrest⟩
      dsimp only [ZoneVisitor.advance] at hnow hleft ⊢
      omega

end Calls

end Msgpack

end RaftCore
