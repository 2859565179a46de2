import RaftCore.Machinery.Arena
import RaftCore.Machinery.Doubling
import RaftCore.Machinery.Runs
import RaftCore.Msgpack.Unpacker

/-!
# Msgpack/Zone — the memory pool

`v1/detail/cpp11_zone.hpp`: an unpacked object keeps its strings and its items in a zone, a list of
chunks of which the newest has what room there is.  An allocation moves a pointer forward, or asks
`malloc` for a further chunk; all of it is given back at once (`clear`), which keeps the oldest
chunk and calls the finalizers that were registered, the newest first.

Whatever a user asks for, in whatever order and with whatever failing in between, no two of the
pieces it holds overlap, each is aligned as it was asked for and in a chunk behind its header, and
the finalizers to be called are those of what it holds (`Zone.run_sound`).  Nothing throws but where
something fails (`Zone.answer_threw`): a call asks for one chunk at most, of a size that is known
(`Zone.Asks`), and so do allocations one after the other (`Zone.allocateAll_eq_none`).
-/

namespace RaftCore

namespace Msgpack

open Extent Runs

variable {φ : Type}

/-! ## Finalizers -/

/-- `finalizer_array`: the finalizers from `m_array` to `m_tail`, and how many there is room for. -/
structure FinalizerArray (φ : Type) where
  pushed : List φ
  room : ℕ

/-- `sizeof(finalizer)`. -/
def sizeofFinalizer : ℕ := 16

/-- The room that `push_expand` asks for. -/
def nnext (nused : ℕ) : ℕ :=
  if nused = 0 then if sizeofFinalizer < 72 / 2 then 72 / sizeofFinalizer else 8
  else nused * 2 % 2 ^ 64

/-- `push`, with `push_expand`. -/
def FinalizerArray.push (realloc : Malloc) (f : φ) (fins : FinalizerArray φ) :
    Option (FinalizerArray φ) :=
  if fins.pushed.length = fins.room then
    if realloc.grants (sizeofFinalizer * nnext fins.room % 2 ^ 64) then
      some { pushed := fins.pushed ++ [f], room := nnext fins.room }
    else none
  else some { fins with pushed := fins.pushed ++ [f] }

/-- `call`: from the tail on, backwards. -/
def FinalizerArray.call (fins : FinalizerArray φ) : List φ := fins.pushed.reverse

/-- The array does not hold more than it has room for, and its room was granted. -/
structure FinalizerArray.WellFormed (fins : FinalizerArray φ) : Prop where
  length_le : fins.pushed.length ≤ fins.room
  room_lt : sizeofFinalizer * fins.room < 2 ^ 63

/-- There is more room then, and what is asked for does not wrap around. -/
theorem nnext_spec {nused : ℕ} (h : sizeofFinalizer * nused < 2 ^ 63) :
    nused < nnext nused ∧ sizeofFinalizer * nnext nused < 2 ^ 64 := by
  rw [nnext]
  rw [sizeofFinalizer] at h ⊢
  rcases Nat.eq_zero_or_pos nused with rfl | hpos
  · decide
  · rw [if_neg hpos.ne', Nat.mod_eq_of_lt (by omega)]
    omega

theorem FinalizerArray.push_spec {realloc : Malloc} {f : φ} {fins fins' : FinalizerArray φ}
    (h : fins.WellFormed) (hpush : fins.push realloc f = some fins') :
    fins'.WellFormed ∧ fins'.pushed = fins.pushed ++ [f] := by
  obtain ⟨hlen, hroom⟩ := h
  obtain ⟨hmore, hsize⟩ := nnext_spec hroom
  rw [push] at hpush
  split_ifs at hpush with hfull hgrants
  · obtain rfl := Option.some.inj hpush
    have hlt := realloc.lt_of_grants hgrants
    rw [Nat.mod_eq_of_lt hsize] at hlt
    refine ⟨⟨?_, hlt⟩, rfl⟩
    rw [List.length_append, List.length_singleton, hfull]
    exact hmore
  · obtain rfl := Option.some.inj hpush
    refine ⟨⟨?_, hroom⟩, rfl⟩
    rw [List.length_append, List.length_singleton]
    exact Nat.lt_of_le_of_ne hlen hfull

/-! ## Chunks -/

/-- `sizeof(chunk)`. -/
def sizeofChunk : ℕ := 8

/-- What is behind the header of a chunk. -/
def body (c : Extent ℕ) : Extent ℕ := ⟨c.start + sizeofChunk, c.stop⟩

theorem body_within (c : Extent ℕ) : (body c).Within c := ⟨Nat.le_add_right _ _, le_rfl⟩

/-- `zone`: `m_head` and the chunks it links to, each of them what `malloc` returned. -/
structure Zone (φ : Type) where
  chunkSize : ℕ
  free : ℕ
  ptr : ℕ
  head : Extent ℕ
  next : List (Extent ℕ)
  finalizers : FinalizerArray φ

/-- All the chunks. -/
def Zone.chunks (z : Zone φ) : List (Extent ℕ) := z.head :: z.next

/-- A call of `malloc` that returns this address. -/
def malloced (size c : ℕ) : Extent ℕ := ⟨c, c + size⟩

/-- The constructor.  It is `noexcept`: where `malloc` returns nothing there is no zone, and nobody
to tell. -/
def Zone.construct (malloc : ℕ → Option ℕ) (chunkSize : ℕ) : Option (Zone φ) :=
  let size := (sizeofChunk + chunkSize) % 2 ^ 64
  (malloc size).map fun c =>
    { chunkSize, free := chunkSize, ptr := c + sizeofChunk, head := malloced size c, next := [],
      finalizers := ⟨[], 0⟩ }

/-- `allocate_expand`; what it returns is `m_ptr` then. -/
def Zone.allocateExpand (malloc : ℕ → Option ℕ) (size : ℕ) (z : Zone φ) : Option (Zone φ) :=
  let sz := grow size z.chunkSize
  let size := (sizeofChunk + sz) % 2 ^ 64
  (malloc size).map fun c =>
    { z with head := malloced size c, next := z.chunks, free := sz, ptr := c + sizeofChunk }

/-- `get_aligned`. -/
def getAligned (ptr align : ℕ) : ℕ := (ptr + (align - 1)) % 2 ^ 64 / align * align

/-- The pointer goes forward. -/
def Zone.advance (n : ℕ) (z : Zone φ) : Zone φ := { z with free := z.free - n, ptr := z.ptr + n }

/-- `allocate_align`. -/
def Zone.allocateAlign (malloc : ℕ → Option ℕ) (size align : ℕ) (z : Zone φ) :
    Option (ℕ × Zone φ) :=
  let aligned := getAligned z.ptr align
  let adjustedSize := (size + (aligned - z.ptr)) % 2 ^ 64
  if z.free < adjustedSize then
    let enoughSize := (size + align - 1) % 2 ^ 64
    (z.allocateExpand malloc enoughSize).map fun z =>
      let aligned := getAligned z.ptr align
      (aligned, z.advance ((size + (aligned - z.ptr)) % 2 ^ 64))
  else some (aligned, z.advance adjustedSize)

/-- `allocate_no_align`. -/
def Zone.allocateNoAlign (malloc : ℕ → Option ℕ) (size : ℕ) (z : Zone φ) : Option (ℕ × Zone φ) :=
  if z.free < size then (z.allocateExpand malloc size).map fun z => (z.ptr, z.advance size)
  else some (z.ptr, z.advance size)

/-- `undo_allocate`. -/
def Zone.undoAllocate (size : ℕ) (z : Zone φ) : Zone φ :=
  { z with ptr := z.ptr - size, free := z.free + size }

/-- The loop of `chunk_list::clear`: the chunk it stops at, with the others freed. -/
def lastChunk : Extent ℕ → List (Extent ℕ) → Extent ℕ
  | c, [] => c
  | _, n :: next => lastChunk n next

/-- `chunk_list::clear`, and the array's, which has called its finalizers. -/
def Zone.clear (z : Zone φ) : Zone φ :=
  let last := lastChunk z.head z.next
  { z with head := last, next := [], free := z.chunkSize, ptr := last.start + sizeofChunk,
           finalizers := { z.finalizers with pushed := [] } }

/-! ## A zone in use -/

/-- What is asked of a zone; the object of `allocate` may throw when it is constructed. -/
inductive ZoneCall (φ : Type) where
  | allocateAlign (size align : ℕ)
  | allocateNoAlign (size : ℕ)
  | pushFinalizer (f : φ)
  | allocate (size align : ℕ) (f : φ) (constructs : Bool)
  | clear

inductive ZoneAnswer (φ : Type) where
  | allocated (ptr : ℕ)
  | pushed
  | threw
  | called (fins : List φ)

/-- `allocate`, with what is undone where something throws. -/
def Zone.allocate (malloc : ℕ → Option ℕ) (realloc : Malloc) (size align : ℕ) (f : φ)
    (constructs : Bool) (z : Zone φ) : ZoneAnswer φ × Zone φ :=
  match z.allocateAlign malloc size align with
  | none => (.threw, z)
  | some (x, z) => match z.finalizers.push realloc f with
    | none => (.threw, z.undoAllocate size)
    | some fins =>
      if constructs then (.allocated x, { z with finalizers := fins })
      else (.threw,
        { z with finalizers := { fins with pushed := fins.pushed.dropLast } }.undoAllocate size)

/-- A call, as the memory answers it. -/
def Zone.answer (malloc : ℕ → Option ℕ) (realloc : Malloc) (z : Zone φ) :
    ZoneCall φ → ZoneAnswer φ × Zone φ
  | .allocateAlign size align => match z.allocateAlign malloc size align with
    | some (x, z) => (.allocated x, z)
    | none => (.threw, z)
  | .allocateNoAlign size => match z.allocateNoAlign malloc size with
    | some (x, z) => (.allocated x, z)
    | none => (.threw, z)
  | .pushFinalizer f => match z.finalizers.push realloc f with
    | some fins => (.pushed, { z with finalizers := fins })
    | none => (.threw, z)
  | .allocate size align f constructs => z.allocate malloc realloc size align f constructs
  | .clear => (.called z.finalizers.call, z.clear)

/-- What an allocation has returned. -/
structure Piece where
  ptr : ℕ
  size : ℕ
  align : ℕ

def Piece.extent (p : Piece) : Extent ℕ := ⟨p.ptr, p.ptr + p.size⟩

/-- A zone, what its user holds of it since the last `clear`, and the finalizers that were
registered for that, the newest first. -/
structure ZoneUse (φ : Type) where
  zone : Zone φ
  pieces : List Piece
  finalizers : List φ

/-- What the user holds after a call. -/
def ZoneUse.after (u : ZoneUse φ) (z : Zone φ) : ZoneCall φ → ZoneAnswer φ → ZoneUse φ
  | .allocateAlign size align, .allocated ptr => ⟨z, ⟨ptr, size, align⟩ :: u.pieces, u.finalizers⟩
  | .allocateNoAlign size, .allocated ptr => ⟨z, ⟨ptr, size, 1⟩ :: u.pieces, u.finalizers⟩
  | .allocate size align f _, .allocated ptr =>
    ⟨z, ⟨ptr, size, align⟩ :: u.pieces, f :: u.finalizers⟩
  | .pushFinalizer f, .pushed => ⟨z, u.pieces, f :: u.finalizers⟩
  | _, .called _ => ⟨z, [], []⟩
  | _, _ => ⟨z, u.pieces, u.finalizers⟩

/-- A call, with what `malloc` and `realloc` do then. -/
structure ZoneAction (φ : Type) where
  call : ZoneCall φ
  malloc : ℕ → Option ℕ
  realloc : Malloc

def ZoneUse.step (u : ZoneUse φ) (a : ZoneAction φ) : Option (ZoneUse φ) :=
  let answer := u.zone.answer a.malloc a.realloc a.call
  some (u.after answer.2 a.call answer.1)

/-- The bytes a call asks for, padding included. -/
def ZoneCall.bytes : ZoneCall φ → ℕ
  | .allocateAlign size align | .allocate size align _ _ => size + align
  | .allocateNoAlign size => size
  | _ => 0

/-- The constructor of its object, if it has one, does not throw. -/
def ZoneCall.constructs : ZoneCall φ → Bool
  | .allocate _ _ _ constructs => constructs
  | _ => true

/-- **What `malloc` promises**: memory that is not in use, in the lower half of the addresses. -/
def Promises (malloc : ℕ → Option ℕ) (blocks : List (Extent ℕ)) : Prop :=
  ∀ size c, malloc size = some c →
    (malloced size c).stop ≤ 2 ^ 63 ∧ ∀ b ∈ blocks, (malloced size c).Apart b

/-- Sizes and alignments a caller can mean. -/
def ZoneCall.Sized : ZoneCall φ → Prop
  | .allocateAlign size align | .allocate size align _ _ => 0 < align ∧ size + align ≤ 2 ^ 62
  | .allocateNoAlign size => size ≤ 2 ^ 62
  | _ => True

def ZoneAction.Allowed (u : ZoneUse φ) (a : ZoneAction φ) : Prop :=
  Promises a.malloc u.zone.chunks ∧ a.call.Sized

/-- **The invariant** of a zone in use, beside memory of others that its user holds pieces of. -/
structure ZoneUse.Inv (others : List (Extent ℕ)) (u : ZoneUse φ) : Prop where
  parcelled : Parcelled (u.zone.chunks.map body ++ others) (u.pieces.map Piece.extent)
    ⟨u.zone.ptr, u.zone.ptr + u.zone.free⟩
  chunks_apart : u.zone.chunks.Pairwise Apart
  stop_le : ∀ e ∈ u.zone.chunks ++ others, e.stop ≤ 2 ^ 63
  last_size : (lastChunk u.zone.head u.zone.next).stop
    = (lastChunk u.zone.head u.zone.next).start + (sizeofChunk + u.zone.chunkSize)
  chunkSize_le : u.zone.chunkSize ≤ 2 ^ 62
  aligned : ∀ p ∈ u.pieces, p.align ∣ p.ptr
  pushed_eq : u.zone.finalizers.pushed = u.finalizers.reverse
  wellFormed : u.zone.finalizers.WellFormed

/-! ## What is asked of `malloc` -/

/-- What becomes of a zone that asks for one chunk at most, of at most `most` bytes. -/
inductive Zone.Asks (malloc : ℕ → Option ℕ) (most : ℕ) (z : Zone φ) : Option (Zone φ) → Prop where
  | kept {z' : Zone φ} (hchunks : z'.chunks = z.chunks) (hsize : z'.chunkSize = z.chunkSize)
    (hfins : z'.finalizers = z.finalizers) : Asks malloc most z (some z')
  | served {z' : Zone φ} {n c : ℕ} (hn : n ≤ most) (hc : malloc n = some c)
    (hchunks : z'.chunks = malloced n c :: z.chunks) (hsize : z'.chunkSize = z.chunkSize)
    (hfins : z'.finalizers = z.finalizers) : Asks malloc most z (some z')
  | refused {n : ℕ} (hn : n ≤ most) (hc : malloc n = none) : Asks malloc most z none

section Asks

variable {malloc : ℕ → Option ℕ} {realloc : Malloc} {size align most : ℕ} {z : Zone φ}

theorem Zone.allocateExpand_asks (h : sizeofChunk + max z.chunkSize (2 * size) ≤ most) :
    z.Asks malloc most (z.allocateExpand malloc size) := by
  have hn : (sizeofChunk + grow size z.chunkSize) % 2 ^ 64 ≤ most :=
    (Nat.mod_le _ _).trans ((Nat.add_le_add_left grow_le _).trans h)
  rw [allocateExpand]
  cases hc : malloc ((sizeofChunk + grow size z.chunkSize) % 2 ^ 64) with
  | none => exact .refused hn hc
  | some c => exact .served hn hc rfl rfl rfl

/-- What is done with the room is no matter. -/
theorem Zone.Asks.advance {o : Option (Zone φ)} {α : Type} {f : Zone φ → α × ℕ}
    (h : z.Asks malloc most o) :
    z.Asks malloc most ((o.map fun z => ((f z).1, z.advance (f z).2)).map Prod.snd) := by
  cases h with
  | kept hchunks hsize hfins => exact .kept hchunks hsize hfins
  | served hn hc hchunks hsize hfins => exact .served hn hc hchunks hsize hfins
  | refused hn hc => exact .refused hn hc

theorem Zone.allocateAlign_asks (z : Zone φ) (malloc : ℕ → Option ℕ) (size align : ℕ)
    (h : sizeofChunk + max z.chunkSize (2 * (size + align)) ≤ most) :
    z.Asks malloc most ((z.allocateAlign malloc size align).map Prod.snd) := by
  have henough : (size + align - 1) % 2 ^ 64 ≤ size + align :=
    (Nat.mod_le _ _).trans (Nat.sub_le _ _)
  rw [allocateAlign]
  dsimp only
  split_ifs
  · exact (allocateExpand_asks (by omega)).advance
      (f := fun z => (_, (size + (getAligned z.ptr align - z.ptr)) % 2 ^ 64))
  · exact .kept rfl rfl rfl

theorem Zone.allocateNoAlign_asks (z : Zone φ) (malloc : ℕ → Option ℕ) (size : ℕ)
    (h : sizeofChunk + max z.chunkSize (2 * size) ≤ most) :
    z.Asks malloc most ((z.allocateNoAlign malloc size).map Prod.snd) := by
  rw [allocateNoAlign]
  split_ifs
  · exact (allocateExpand_asks h).advance (f := fun z => (z.ptr, size))
  · exact .kept rfl rfl rfl

theorem FinalizerArray.push_eq_none {fins : FinalizerArray φ} {f : φ}
    (h : fins.push realloc f = none) :
    realloc.grants (sizeofFinalizer * nnext fins.room % 2 ^ 64) = false := by
  rw [push] at h
  split_ifs at h with hfull hgrants
  exact Bool.eq_false_iff.mpr hgrants

theorem Zone.Asks.exists_refused (h : z.Asks malloc most none) : ∃ n ≤ most, malloc n = none := by
  cases h with
  | refused hn hc => exact ⟨_, hn, hc⟩

theorem Zone.Asks.unchanged {z' : Zone φ} (h : z.Asks malloc most (some z')) :
    z'.chunkSize = z.chunkSize ∧ z'.finalizers = z.finalizers := by
  cases h with
  | kept _ hsize hfins => exact ⟨hsize, hfins⟩
  | served _ _ _ hsize hfins => exact ⟨hsize, hfins⟩

/-- **Nothing throws unless something fails**: `malloc` has no chunk, `realloc` no room for another
finalizer, or the object that is allocated throws. -/
theorem Zone.answer_threw {call : ZoneCall φ} (h : (z.answer malloc realloc call).1 = .threw) :
    (∃ n ≤ sizeofChunk + max z.chunkSize (2 * call.bytes), malloc n = none) ∨
      realloc.grants (sizeofFinalizer * nnext z.finalizers.room % 2 ^ 64) = false ∨
      call.constructs = false := by
  cases call with
  | allocateAlign size align =>
    have hasks := z.allocateAlign_asks malloc size align le_rfl
    rw [answer] at h
    cases hcall : z.allocateAlign malloc size align with
    | none => exact .inl (hcall ▸ hasks).exists_refused
    | some r =>
      rw [hcall] at h
      cases h
  | allocateNoAlign size =>
    have hasks := z.allocateNoAlign_asks malloc size le_rfl
    rw [answer] at h
    cases hcall : z.allocateNoAlign malloc size with
    | none => exact .inl (hcall ▸ hasks).exists_refused
    | some r =>
      rw [hcall] at h
      cases h
  | pushFinalizer f =>
    rw [answer] at h
    cases hpush : z.finalizers.push realloc f with
    | none => exact .inr (.inl (FinalizerArray.push_eq_none hpush))
    | some fins =>
      rw [hpush] at h
      cases h
  | allocate size align f constructs =>
    have hasks := z.allocateAlign_asks malloc size align le_rfl
    rw [answer, allocate] at h
    cases hcall : z.allocateAlign malloc size align with
    | none => exact .inl (hcall ▸ hasks).exists_refused
    | some r =>
      obtain ⟨x, z'⟩ := r
      have hfins : z'.finalizers = z.finalizers := (hcall ▸ hasks).unchanged.2
      rw [hcall] at h
      dsimp only at h
      cases hpush : z'.finalizers.push realloc f with
      | none => exact .inr (.inl (hfins ▸ FinalizerArray.push_eq_none hpush))
      | some fins =>
        rw [hpush] at h
        cases constructs with
        | true => cases h
        | false => exact .inr (.inr rfl)
  | clear => cases h

end Asks

/-- Allocations one after the other, of these sizes and alignments; what `malloc` answers may depend
on the chunks there are. -/
def Zone.allocateAll (malloc : List (Extent ℕ) → ℕ → Option ℕ) : List (ℕ × ℕ) → Zone φ →
    Option (Zone φ)
  | [], z => some z
  | (size, align) :: asks, z =>
    (z.allocateAlign (malloc z.chunks) size align).bind fun r => r.2.allocateAll malloc asks

section All

variable {malloc : List (Extent ℕ) → ℕ → Option ℕ} {asks more : List (ℕ × ℕ)} {z : Zone φ}

theorem Zone.allocateAll_append : z.allocateAll malloc (asks ++ more)
    = (z.allocateAll malloc asks).bind (allocateAll malloc more) := by
  induction asks generalizing z with
  | nil => rfl
  | cons ask asks ih =>
    rw [List.cons_append, allocateAll, allocateAll, Option.bind_assoc]
    exact congrArg _ (funext fun r => ih)

/-- **Allocations fail where `malloc` has no chunk for one of them**, those before it done. -/
theorem Zone.allocateAll_eq_none (h : z.allocateAll malloc asks = none) :
    ∃ done size align more z', asks = done ++ (size, align) :: more ∧
      z.allocateAll malloc done = some z' ∧
      ∃ n ≤ sizeofChunk + max z.chunkSize (2 * (size + align)), malloc z'.chunks n = none := by
  induction asks generalizing z with
  | nil => cases h
  | cons ask asks ih =>
    obtain ⟨size, align⟩ := ask
    have hasks := z.allocateAlign_asks (malloc z.chunks) size align le_rfl
    cases hcall : z.allocateAlign (malloc z.chunks) size align with
    | none => exact ⟨[], size, align, asks, z, rfl, rfl, (hcall ▸ hasks).exists_refused⟩
    | some r =>
      rw [allocateAll, hcall] at h
      obtain ⟨done, size', align', more, z', rfl, hdone, hrefused⟩ := ih h
      obtain ⟨hchunkSize, -⟩ := (hcall ▸ hasks : z.Asks _ _ (some r.2)).unchanged
      rw [hchunkSize] at hrefused
      refine ⟨(size, align) :: done, size', align', more, z', rfl, ?_, hrefused⟩
      rw [allocateAll, hcall]
      exact hdone

end All

/-! ## What each call keeps -/

theorem getAligned_spec {ptr align : ℕ} (halign : 0 < align) (h : ptr + align ≤ 2 ^ 64) :
    ptr ≤ getAligned ptr align ∧ getAligned ptr align < ptr + align ∧
      align ∣ getAligned ptr align := by
  have hle := Nat.div_mul_le_self (ptr + (align - 1)) align
  have hlt := Nat.lt_div_mul_add halign (a := ptr + (align - 1))
  rw [getAligned, Nat.mod_eq_of_lt (by omega)]
  exact ⟨by omega, by omega, Nat.dvd_mul_left _ _⟩

variable {others : List (Extent ℕ)} {u : ZoneUse φ} {z : Zone φ} {malloc : ℕ → Option ℕ}
  {realloc : Malloc} {size align pad : ℕ}

/-- The room ends where its chunk does. -/
theorem ZoneUse.Inv.ptr_le (h : u.Inv others) : u.zone.ptr + u.zone.free ≤ 2 ^ 63 := by
  obtain ⟨b, hb, hwithin⟩ := h.parcelled.room_within
  refine hwithin.2.trans ?_
  rcases List.mem_append.mp hb with hb | hb
  · obtain ⟨c, hc, rfl⟩ := List.mem_map.mp hb
    exact h.stop_le c (List.mem_append_left _ hc)
  · exact h.stop_le b (List.mem_append_right _ hb)

/-- **A further chunk** with room for what it was asked for. -/
theorem ZoneUse.Inv.expand (h : u.Inv others) (hmalloc : Promises malloc (u.zone.chunks ++ others))
    (hsize : size ≤ 2 ^ 62) (hz : u.zone.allocateExpand malloc size = some z) :
    ZoneUse.Inv others ⟨z, u.pieces, u.finalizers⟩ ∧ size ≤ z.free := by
  obtain ⟨c, hc, rfl⟩ := Option.map_eq_some_iff.mp hz
  have hroom : grow size u.zone.chunkSize < 2 ^ 63 + 1 := by
    have hchunk := h.chunkSize_le
    rcases Nat.lt_or_ge u.zone.chunkSize size with hlt | hge
    · have hgrow := grow_lt hlt
      omega
    · rw [grow_of_le hge]
      omega
  have hword : (sizeofChunk + grow size u.zone.chunkSize) % 2 ^ 64
      = sizeofChunk + grow size u.zone.chunkSize := Nat.mod_eq_of_lt (by rw [sizeofChunk]; omega)
  obtain ⟨hstop, hapart⟩ := hmalloc _ c hc
  rw [hword] at hstop hapart ⊢
  obtain ⟨hchunks, hothers⟩ := List.forall_mem_append.mp hapart
  refine ⟨⟨h.parcelled.extend (List.forall_mem_append.mpr ⟨?_, fun e he => ?_⟩) ?_,
    List.pairwise_cons.mpr ⟨hchunks, h.chunks_apart⟩,
    List.forall_mem_cons.mpr ⟨hstop, h.stop_le⟩, h.last_size, h.chunkSize_le, h.aligned,
    h.pushed_eq, h.wellFormed⟩, le_grow⟩
  · refine List.forall_mem_map.mpr fun b hb => ?_
    exact (hchunks b hb).mono (body_within _) (body_within b)
  · exact (hothers e he).mono (body_within _) (.refl e)
  · exact ⟨le_rfl, (Nat.add_assoc ..).le⟩

/-- **A piece of the room**, behind what alignment costs. -/
theorem ZoneUse.Inv.take (h : u.Inv others) (hfit : pad + size ≤ u.zone.free)
    (halign : align ∣ u.zone.ptr + pad) : ZoneUse.Inv others ⟨u.zone.advance (pad + size),
      ⟨u.zone.ptr + pad, size, align⟩ :: u.pieces, u.finalizers⟩ := by
  refine ⟨h.parcelled.take ⟨?_, ?_⟩ ⟨?_, ?_⟩ (.inl ?_), h.chunks_apart, h.stop_le, h.last_size,
    h.chunkSize_le, List.forall_mem_cons.mpr ⟨halign, h.aligned⟩, h.pushed_eq, h.wellFormed⟩
  all_goals
    dsimp only [Piece.extent, Zone.advance]
    omega

/-- **Pieces are divided** by their user, or forgotten. -/
theorem ZoneUse.Inv.divide {pieces : List Piece} (h : u.Inv others)
    (hapart : (pieces.map Piece.extent).Pairwise Apart)
    (hwithin : ∀ p ∈ pieces, ∃ q ∈ u.pieces, p.extent.Within q.extent)
    (haligned : ∀ p ∈ pieces, p.align ∣ p.ptr) :
    ZoneUse.Inv others ⟨u.zone, pieces, u.finalizers⟩ := by
  refine ⟨h.parcelled.divide hapart (List.forall_mem_map.mpr fun p hp => ?_), h.chunks_apart,
    h.stop_le, h.last_size, h.chunkSize_le, haligned, h.pushed_eq, h.wellFormed⟩
  obtain ⟨q, hq, hpq⟩ := hwithin p hp
  exact ⟨q.extent, List.mem_map_of_mem hq, hpq⟩

/-- **What is undone** costs its padding. -/
theorem ZoneUse.Inv.undo (h : u.Inv others) (hfit : pad + size ≤ u.zone.free) :
    ZoneUse.Inv others
      ⟨(u.zone.advance (pad + size)).undoAllocate size, u.pieces, u.finalizers⟩ := by
  refine ⟨h.parcelled.waste ⟨?_, ?_⟩, h.chunks_apart, h.stop_le, h.last_size, h.chunkSize_le,
    h.aligned, h.pushed_eq, h.wellFormed⟩
  all_goals
    dsimp only [Zone.undoAllocate, Zone.advance]
    omega

theorem ZoneUse.Inv.register {fins : FinalizerArray φ} {finalizers : List φ} (h : u.Inv others)
    (hwf : fins.WellFormed) (hpushed : fins.pushed = finalizers.reverse) :
    ZoneUse.Inv others ⟨{ u.zone with finalizers := fins }, u.pieces, finalizers⟩ :=
  ⟨h.parcelled, h.chunks_apart, h.stop_le, h.last_size, h.chunkSize_le, h.aligned, hpushed, hwf⟩

/-- **What `allocate_align` does**: padding and a piece from the room, of a further chunk if need
be. -/
theorem ZoneUse.Inv.allocateAlign_cases {x : ℕ} (h : u.Inv others)
    (hmalloc : Promises malloc (u.zone.chunks ++ others)) (halign : 0 < align)
    (hsize : size + align ≤ 2 ^ 62)
    (hcall : u.zone.allocateAlign malloc size align = some (x, z)) : ∃ z₁ pad,
      ZoneUse.Inv others ⟨z₁, u.pieces, u.finalizers⟩ ∧ pad + size ≤ z₁.free ∧
        align ∣ z₁.ptr + pad ∧ x = z₁.ptr + pad ∧ z = z₁.advance (pad + size) := by
  -- The padding is less than the alignment, so that nothing wraps around.
  have hpad : ∀ z₁ : Zone φ, ZoneUse.Inv others ⟨z₁, u.pieces, u.finalizers⟩ →
      ∃ pad < align, getAligned z₁.ptr align = z₁.ptr + pad ∧ align ∣ z₁.ptr + pad ∧
        (size + (getAligned z₁.ptr align - z₁.ptr)) % 2 ^ 64 = pad + size := by
    intro z₁ h₁
    have hptr : z₁.ptr + z₁.free ≤ 2 ^ 63 := h₁.ptr_le
    obtain ⟨hle, hlt, hdvd⟩ := getAligned_spec halign (show z₁.ptr + align ≤ 2 ^ 64 by omega)
    refine ⟨getAligned z₁.ptr align - z₁.ptr, by omega, by omega, ?_, ?_⟩
    · rwa [Nat.add_sub_cancel' hle]
    · rw [Nat.mod_eq_of_lt (by omega), Nat.add_comm]
  rw [Zone.allocateAlign] at hcall
  dsimp only at hcall
  split_ifs at hcall with hfree
  · obtain ⟨z₁, hexpand, heq⟩ := Option.map_eq_some_iff.mp hcall
    rw [Nat.mod_eq_of_lt (show size + align - 1 < 2 ^ 64 by omega)] at hexpand
    obtain ⟨h₁, hroom⟩ := h.expand hmalloc (by omega) hexpand
    obtain ⟨pad, hlt, haligned, hdvd, hadjusted⟩ := hpad z₁ h₁
    rw [hadjusted, haligned] at heq
    obtain ⟨rfl, rfl⟩ := Prod.mk.inj heq
    exact ⟨z₁, pad, h₁, by omega, hdvd, rfl, rfl⟩
  · obtain ⟨pad, -, haligned, hdvd, hadjusted⟩ := hpad u.zone h
    rw [hadjusted] at hfree hcall
    rw [haligned] at hcall
    obtain ⟨rfl, rfl⟩ := Prod.mk.inj (Option.some.inj hcall)
    exact ⟨u.zone, pad, h, not_lt.mp hfree, hdvd, rfl, rfl⟩

/-- So its user holds one piece more. -/
theorem ZoneUse.Inv.allocateAlign {x : ℕ} (h : u.Inv others)
    (hmalloc : Promises malloc (u.zone.chunks ++ others)) (halign : 0 < align)
    (hsize : size + align ≤ 2 ^ 62)
    (hcall : u.zone.allocateAlign malloc size align = some (x, z)) :
    ZoneUse.Inv others ⟨z, ⟨x, size, align⟩ :: u.pieces, u.finalizers⟩ := by
  obtain ⟨z₁, pad, h₁, hfit, hdvd, rfl, rfl⟩ := h.allocateAlign_cases hmalloc halign hsize hcall
  exact h₁.take hfit hdvd

/-- `allocate_no_align` does the same without padding. -/
theorem ZoneUse.Inv.allocateNoAlign_cases {x : ℕ} (h : u.Inv others)
    (hmalloc : Promises malloc (u.zone.chunks ++ others)) (hsize : size ≤ 2 ^ 62)
    (hcall : u.zone.allocateNoAlign malloc size = some (x, z)) : ∃ z₁,
      ZoneUse.Inv others ⟨z₁, u.pieces, u.finalizers⟩ ∧ 0 + size ≤ z₁.free ∧ x = z₁.ptr + 0 ∧
        z = z₁.advance (0 + size) := by
  rw [Zone.allocateNoAlign] at hcall
  split_ifs at hcall with hfree
  · obtain ⟨z₁, hexpand, heq⟩ := Option.map_eq_some_iff.mp hcall
    obtain ⟨h₁, hroom⟩ := h.expand hmalloc hsize hexpand
    obtain ⟨rfl, rfl⟩ := Prod.mk.inj heq
    exact ⟨z₁, h₁, by omega, rfl, by rw [Nat.zero_add]⟩
  · obtain ⟨rfl, rfl⟩ := Prod.mk.inj (Option.some.inj hcall)
    exact ⟨u.zone, h, by omega, rfl, by rw [Nat.zero_add]⟩

theorem lastChunk_mem (c : Extent ℕ) (next : List (Extent ℕ)) : lastChunk c next ∈ c :: next := by
  induction next generalizing c with
  | nil => exact List.mem_singleton_self c
  | cons n next ih => exact List.mem_cons_of_mem _ (ih n)

/-- **The oldest chunk is kept**, all of it. -/
theorem ZoneUse.Inv.clear (h : u.Inv []) : ZoneUse.Inv [] ⟨u.zone.clear, [], []⟩ := by
  refine ⟨Parcelled.first ⟨le_rfl, ?_⟩ .nil fun _ he => absurd he List.not_mem_nil,
    List.pairwise_singleton _ _, ?_, h.last_size, h.chunkSize_le,
    fun _ hp => absurd hp List.not_mem_nil, rfl, Nat.zero_le _, h.wellFormed.room_lt⟩
  · have hlast := h.last_size
    dsimp only [Zone.clear, body]
    omega
  · intro c hc
    obtain rfl := List.mem_singleton.mp hc
    exact h.stop_le _ (List.mem_append_left _ (lastChunk_mem _ _))

/-- `allocate` registers a finalizer with its piece, or leaves nothing behind. -/
theorem ZoneUse.Inv.allocate {f : φ} {constructs : Bool} (h : u.Inv others)
    (hmalloc : Promises malloc (u.zone.chunks ++ others)) (halign : 0 < align)
    (hsize : size + align ≤ 2 ^ 62) :
    let answer := u.zone.allocate malloc realloc size align f constructs
    (u.after answer.2 (.allocate size align f constructs) answer.1).Inv others := by
  rw [Zone.allocate]
  match hcall : u.zone.allocateAlign malloc size align with
  | none => exact h
  | some (x, z) =>
    obtain ⟨z₁, pad, h₁, hfit, hdvd, rfl, rfl⟩ := h.allocateAlign_cases hmalloc halign hsize hcall
    dsimp only
    match hpush : (z₁.advance (pad + size)).finalizers.push realloc f with
    | none => exact h₁.undo hfit
    | some fins =>
      obtain ⟨hwf, hpushed⟩ := FinalizerArray.push_spec h₁.wellFormed hpush
      have hreverse : z₁.finalizers.pushed = u.finalizers.reverse := h₁.pushed_eq
      replace hpushed : fins.pushed = z₁.finalizers.pushed ++ [f] := hpushed
      cases constructs with
      | true =>
        refine (h₁.take hfit hdvd).register hwf ?_
        rw [hpushed, hreverse, List.reverse_cons]
      | false =>
        refine (h₁.undo hfit).register ⟨?_, hwf.room_lt⟩ ?_
        · exact (List.length_dropLast ..).le.trans ((Nat.sub_le _ _).trans hwf.length_le)
        · rw [hpushed, List.dropLast_concat, hreverse]

/-- **A step keeps the invariant.** -/
theorem ZoneUse.Inv.step {u' : ZoneUse φ} {a : ZoneAction φ} (h : u.Inv []) (ha : a.Allowed u)
    (hstep : u.step a = some u') : u'.Inv [] := by
  obtain rfl := Option.some.inj hstep
  obtain ⟨call, malloc, realloc⟩ := a
  obtain ⟨hmalloc, hsized⟩ := ha
  rw [← List.append_nil u.zone.chunks] at hmalloc
  cases call with
  | allocateAlign size align =>
    dsimp only [Zone.answer]
    match hcall : u.zone.allocateAlign malloc size align with
    | none => exact h
    | some (x, z) => exact h.allocateAlign hmalloc hsized.1 hsized.2 hcall
  | allocateNoAlign size =>
    dsimp only [Zone.answer]
    match hcall : u.zone.allocateNoAlign malloc size with
    | none => exact h
    | some (x, z) =>
      obtain ⟨z₁, h₁, hfit, rfl, rfl⟩ := h.allocateNoAlign_cases hmalloc hsized hcall
      exact h₁.take hfit (one_dvd _)
  | pushFinalizer f =>
    dsimp only [Zone.answer]
    match hpush : u.zone.finalizers.push realloc f with
    | none => exact h
    | some fins =>
      obtain ⟨hwf, hpushed⟩ := FinalizerArray.push_spec h.wellFormed hpush
      refine h.register hwf ?_
      rw [hpushed, h.pushed_eq, List.reverse_cons]
  | allocate size align f constructs => exact h.allocate hmalloc hsized.1 hsized.2
  | clear => exact h.clear

/-- **A zone starts** with what its user holds of the memory of others. -/
theorem Zone.construct_inv {chunkSize : ℕ} {pieces : List Piece}
    (h : construct malloc chunkSize = some z)
    (hmalloc : Promises malloc (pieces.map Piece.extent)) (hsize : chunkSize ≤ 2 ^ 62)
    (hapart : (pieces.map Piece.extent).Pairwise Apart)
    (hstop : ∀ e ∈ pieces.map Piece.extent, e.stop ≤ 2 ^ 63)
    (haligned : ∀ p ∈ pieces, p.align ∣ p.ptr) :
    ZoneUse.Inv (pieces.map Piece.extent) ⟨z, pieces, []⟩ := by
  obtain ⟨c, hc, rfl⟩ := Option.map_eq_some_iff.mp h
  obtain ⟨hchunk, hothers⟩ := hmalloc _ c hc
  have hword : (sizeofChunk + chunkSize) % 2 ^ 64 = sizeofChunk + chunkSize :=
    Nat.mod_eq_of_lt (by rw [sizeofChunk]; omega)
  rw [hword] at hchunk hothers ⊢
  refine ⟨Parcelled.first ⟨le_rfl, (Nat.add_assoc ..).le⟩ hapart fun e he => ?_,
    List.pairwise_singleton _ _, List.forall_mem_cons.mpr ⟨hchunk, hstop⟩, rfl, hsize, haligned,
    rfl, le_rfl, show sizeofFinalizer * 0 < 2 ^ 63 by decide⟩
  exact (hothers e he).mono (body_within _) (.refl e)

/-- What the user of a zone relies on. -/
structure ZoneUse.Sound (u : ZoneUse φ) : Prop where
  pieces_apart : (u.pieces.map Piece.extent).Pairwise Apart
  aligned : ∀ p ∈ u.pieces, p.align ∣ p.ptr
  in_chunk : ∀ p ∈ u.pieces, ∃ c ∈ u.zone.chunks, p.extent.Within (body c)
  call_eq : u.zone.finalizers.call = u.finalizers
  length_le : u.zone.finalizers.pushed.length ≤ u.zone.finalizers.room

theorem ZoneUse.Inv.sound (h : u.Inv []) : u.Sound := by
  refine ⟨h.parcelled.taken_apart, h.aligned, fun p hp => ?_, ?_, h.wellFormed.length_le⟩
  · obtain ⟨b, hb, hwithin⟩ := h.parcelled.taken_within _ (List.mem_map_of_mem hp)
    rw [List.append_nil] at hb
    obtain ⟨c, hc, rfl⟩ := List.mem_map.mp hb
    exact ⟨c, hc, hwithin⟩
  · rw [FinalizerArray.call, h.pushed_eq, List.reverse_reverse]

/-- **A zone over any run**: whatever is allocated, registered, thrown and cleared, the pieces that
are held do not overlap, are aligned and lie in chunks, behind their headers; and the finalizers
that `clear` would call are those of what is held, each once and the newest first. -/
theorem Zone.run_sound {chunkSize : ℕ} {actions : List (ZoneAction φ)}
    (hconstruct : construct malloc chunkSize = some z) (hmalloc : Promises malloc [])
    (hsize : chunkSize ≤ 2 ^ 62)
    (hactions : Along ZoneUse.step (fun u a => a.Allowed u) ⟨z, [], []⟩ actions) :
    Always ZoneUse.step ZoneUse.Sound ⟨z, [], []⟩ actions := by
  have hstart : ZoneUse.Inv [] ⟨z, [], []⟩ :=
    @construct_inv _ _ _ _ [] hconstruct hmalloc hsize .nil
      (fun _ he => absurd he List.not_mem_nil) fun _ hp => absurd hp List.not_mem_nil
  have hinv := always_of_inv (fun _ _ _ h ha hstep => ZoneUse.Inv.step h ha hstep) hstart hactions
  exact fun u hu => (hinv u hu).sound

/-- A piece of the first chunk, an object that needs a second one, and a `clear`. -/
theorem Zone.run_sound_two : ∃ (z : Zone ℕ) (actions : List (ZoneAction ℕ)),
    actions.length = 3 ∧ Always ZoneUse.step ZoneUse.Sound ⟨z, [], []⟩ actions := by
  have hpromises : ∀ (base : ℕ) (blocks : List (Extent ℕ)), base ≤ 2 ^ 62 →
      (∀ b ∈ blocks, b.stop ≤ base) →
      Promises (fun n => if n ≤ 4096 then some base else none) blocks := by
    intro base blocks hbase hblocks size c hc
    obtain ⟨hsize, hc⟩ := Option.ite_none_right_eq_some.mp hc
    obtain rfl := Option.some.inj hc
    exact ⟨show base + size ≤ 2 ^ 63 by omega, fun b hb => .inr (hblocks b hb)⟩
  refine ⟨_, [⟨.allocateAlign 60 8, fun n => if n ≤ 4096 then some 20480 else none,
      ⟨fun _ => false, fun h => absurd h Bool.false_ne_true⟩⟩, ⟨.allocate 100 16 7 true,
      fun n => if n ≤ 4096 then some 20480 else none,
      ⟨fun n => decide (n < 2 ^ 63), of_decide_eq_true⟩⟩, ⟨.clear, fun _ => none,
      ⟨fun _ => false, fun h => absurd h Bool.false_ne_true⟩⟩], rfl,
    @run_sound _ _ (fun n => if n ≤ 4096 then some 8192 else none) 64 _ rfl
      (hpromises 8192 [] (by decide) (by simp)) (by decide) ⟨⟨?_, by decide, by decide⟩, ?_⟩⟩
  · exact hpromises 20480 _ (by decide) (List.forall_mem_singleton.mpr (by decide))
  · rintro _ ⟨⟩
    refine ⟨⟨hpromises 20480 _ (by decide) (List.forall_mem_singleton.mpr (by decide)), by decide,
      by decide⟩, ?_⟩
    rintro _ ⟨⟩
    exact ⟨⟨fun _ _ h => (by cases h), trivial⟩, fun _ _ => trivial⟩

end Msgpack

end RaftCore
