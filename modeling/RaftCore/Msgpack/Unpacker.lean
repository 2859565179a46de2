import RaftCore.Machinery.Doubling
import RaftCore.Msgpack.CreateObject

/-!
# Msgpack/Unpacker — the unpacker and its buffer

`v2/parse.hpp` and `v2/unpack.hpp`: `unpacker` owns a buffer that its user writes to
(`reserveBuffer`, then the bytes themselves, then `bufferConsumed`), and `next` parses on from where
it stopped.  The buffer is one allocation, counter first: `m_used` bytes of it are written, of which
`m_off` are parsed, and `m_free` are left.

Room is made by writing from the front again, by a larger allocation, or by moving the bytes that
are not parsed to a new one; none of it loses any (`reserveBuffer_spec`).
-/

namespace RaftCore

namespace Msgpack

/-- `COUNTER_SIZE`. -/
def counterSize : ℕ := 4

/-- What an allocator grants; never more than half of what can be addressed. -/
structure Malloc where
  grants : ℕ → Bool
  lt_of_grants : ∀ {n}, grants n → n < 2 ^ 63

/-- `unpacker`, with its context and its visitor. -/
structure Unpacker where
  buffer : List UInt8
  used : ℕ
  free : ℕ
  off : ℕ
  parsed : ℕ
  initialBufferSize : ℕ
  cs : Cs
  stack : List StackElem
  visitor : CreateObjectVisitor

/-- `m_ctx.init`, with the visitor's. -/
def Unpacker.initContext (u : Unpacker) : Unpacker :=
  { u with cs := .header, stack := [], visitor := ⟨.nil, []⟩ }

/-- The constructor; a fresh allocation is written out as zeros. -/
def Unpacker.construct (m : Malloc) (initialBufferSize : ℕ) : Option Unpacker :=
  let size := if initialBufferSize < counterSize then counterSize else initialBufferSize
  if m.grants size then
    some { buffer := List.replicate size 0, used := counterSize, free := size - counterSize,
           off := counterSize, parsed := 0, initialBufferSize := size, cs := .header, stack := [],
           visitor := ⟨.nil, []⟩ }
  else none

/-- An allocation of this size that begins with these bytes. -/
def allocation (bytes : List UInt8) (size : ℕ) : List UInt8 :=
  (bytes ++ List.replicate (size - bytes.length) 0).take size

/-- The second part of `expand_buffer`: all that was written is kept (`realloc`), or the bytes that
are not parsed are moved to the front of a new allocation. -/
def Unpacker.enlarge (m : Malloc) (size : ℕ) (u : Unpacker) : Option Unpacker :=
  if u.off = counterSize then
    let nextSize := grow ((size + u.used) % 2 ^ 64) ((u.used + u.free) * 2 % 2 ^ 64)
    if m.grants nextSize then
      some { u with buffer := allocation u.buffer nextSize, free := nextSize - u.used }
    else none
  else
    let notParsed := u.used - u.off
    let nextSize := grow ((size + notParsed + counterSize) % 2 ^ 64) u.initialBufferSize
    if m.grants nextSize then
      let moved := List.replicate counterSize 0 ++ (u.buffer.drop u.off).take notParsed
      some { u with buffer := allocation moved nextSize, used := notParsed + counterSize,
                    free := nextSize - (notParsed + counterSize), off := counterSize }
    else none

/-- "rewind buffer". -/
def Unpacker.rewind (u : Unpacker) : Unpacker :=
  { u with free := u.free + (u.used - counterSize), used := counterSize, off := counterSize }

/-- `expand_buffer`; `sole` is what the counter of the buffer and `referenced` say. -/
def Unpacker.expandBuffer (m : Malloc) (sole : Bool) (size : ℕ) (u : Unpacker) : Option Unpacker :=
  if u.used = u.off ∧ sole then
    if size ≤ u.rewind.free then some u.rewind else u.rewind.enlarge m size
  else u.enlarge m size

/-- `reserve_buffer`; it throws `bad_alloc` where there is no memory. -/
def Unpacker.reserveBuffer (m : Malloc) (sole : Bool) (size : ℕ) (u : Unpacker) : Option Unpacker :=
  if size ≤ u.free then some u else u.expandBuffer m sole size

/-- `buffer_consumed`. -/
def Unpacker.bufferConsumed (size : ℕ) (u : Unpacker) : Unpacker :=
  { u with used := u.used + size, free := u.free - size }

/-- What its user does with `buffer()` before that: the bytes go behind those written before. -/
def Unpacker.copyIn (bytes : List UInt8) (u : Unpacker) : Unpacker :=
  { u with buffer := u.buffer.take u.used ++ (bytes ++ u.buffer.drop (u.used + bytes.length)) }

/-- `nonparsed_buffer()`, `nonparsed_size()` bytes of it. -/
def Unpacker.nonparsed (u : Unpacker) : List UInt8 := (u.buffer.take u.used).drop u.off

/-- `message_size`. -/
def Unpacker.messageSize (u : Unpacker) : ℕ := u.parsed + u.used - u.off

/-- `execute_imp`, up to the position it leaves. -/
def Unpacker.advance (rest : List UInt8) (u : Unpacker) : Unpacker :=
  { u with off := u.used - rest.length, parsed := u.parsed + (u.used - rest.length - u.off) }

/-- `next`: an object, or none as yet.  The context is that of `v3/parse.hpp`; the one of
`v2/parse.hpp` differs from it only in the position it leaves where a visitor answers `false`, which
this visitor does not. -/
def Unpacker.next (limit : UnpackLimit) (u : Unpacker) : Except Error (Option Object × Unpacker) :=
  match (parser (createObjectVisitor limit)).read (u.cs, u.stack, u.visitor) u.nonparsed with
  | .waiting (cs, stack, visitor) rest =>
    .ok (none, { u.advance rest with cs := cs, stack := stack, visitor := visitor })
  | .halted (.success s) rest => .ok (some s.obj, { (u.advance rest).initContext with parsed := 0 })
  | .halted (.stopVisitor s) rest => .ok (none, { u.advance rest with visitor := s })
  | .halted (.parseError _) _ => .error .parseError
  | .halted (.threw e) _ => .error e

/-! ## The buffer -/

variable {m : Malloc} {u u' : Unpacker}

/-- The sizes are those of the allocation, in their order. -/
structure Unpacker.WellFormed (u : Unpacker) : Prop where
  counterSize_le : counterSize ≤ u.off
  off_le : u.off ≤ u.used
  length_buffer : u.used + u.free = u.buffer.length
  length_lt : u.buffer.length < 2 ^ 63
  counterSize_le_initial : counterSize ≤ u.initialBufferSize
  initial_lt : u.initialBufferSize < 2 ^ 63

theorem length_allocation (bytes : List UInt8) (size : ℕ) :
    (allocation bytes size).length = size := by
  rw [allocation, List.length_take, List.length_append, List.length_replicate]
  omega

theorem take_allocation {bytes : List UInt8} {n size : ℕ} (hn : n ≤ bytes.length)
    (hsize : n ≤ size) : (allocation bytes size).take n = bytes.take n := by
  rw [allocation, List.take_take, Nat.min_eq_left hsize, List.take_append_of_le_length hn]

/-- What a call leaves alone while it makes room. -/
structure Unpacker.KeepsData (u u' : Unpacker) : Prop where
  nonparsed : u'.nonparsed = u.nonparsed
  context : (u'.cs, u'.stack, u'.visitor) = (u.cs, u.stack, u.visitor)
  parsed : u'.parsed = u.parsed

theorem Unpacker.length_nonparsed (h : u.WellFormed) : u.nonparsed.length = u.used - u.off := by
  have hlen := h.length_buffer
  rw [nonparsed, List.length_drop, List.length_take, Nat.min_eq_left (by omega)]

/-- **More room, with what is not parsed in it.** -/
theorem Unpacker.enlarge_spec (h : u.WellFormed) {size : ℕ} (hsize : size + u.used < 2 ^ 64)
    (henlarge : u.enlarge m size = some u') :
    u'.WellFormed ∧ size ≤ u'.free ∧ u.KeepsData u' := by
  obtain ⟨hcounter, hoff, hlen, hlt, hinitial, hinitialLt⟩ := h
  rw [enlarge] at henlarge
  dsimp only at henlarge
  rcases eq_or_ne u.off counterSize with hfront | hfront
  · rw [if_pos hfront, Nat.mod_eq_of_lt hsize, Nat.mod_eq_of_lt (by omega)] at henlarge
    generalize hnext : grow (size + u.used) ((u.used + u.free) * 2) = next at henlarge
    have hroom : size + u.used ≤ next := hnext ▸ le_grow
    obtain ⟨hgrants, hu'⟩ := Option.ite_none_right_eq_some.mp henlarge
    obtain rfl := Option.some.inj hu'
    have hnextLt := m.lt_of_grants hgrants
    refine ⟨⟨hcounter, hoff, ?_, ?_, hinitial, hinitialLt⟩, Nat.le_sub_of_add_le hroom, ?_, rfl,
      rfl⟩
    · rw [length_allocation]
      exact Nat.add_sub_cancel' (show u.used ≤ next by omega)
    · rwa [length_allocation]
    · exact congrArg (List.drop u.off)
        (take_allocation (show u.used ≤ _ by omega) (show u.used ≤ next by omega))
  · rw [if_neg hfront, Nat.mod_eq_of_lt (by omega)] at henlarge
    generalize hnext : grow (size + (u.used - u.off) + counterSize) u.initialBufferSize = next
      at henlarge
    have hroom : size + (u.used - u.off) + counterSize ≤ next := hnext ▸ le_grow
    obtain ⟨hgrants, hu'⟩ := Option.ite_none_right_eq_some.mp henlarge
    obtain rfl := Option.some.inj hu'
    have hnextLt := m.lt_of_grants hgrants
    have hmoved : (List.replicate counterSize 0
        ++ (u.buffer.drop u.off).take (u.used - u.off)).length = u.used - u.off + counterSize := by
      rw [List.length_append, List.length_replicate, List.length_take, List.length_drop]
      omega
    refine ⟨⟨le_rfl, Nat.le_add_left _ _, ?_, ?_, hinitial, hinitialLt⟩, ?_, ?_, rfl, rfl⟩
    · rw [length_allocation]
      exact Nat.add_sub_cancel' (show u.used - u.off + counterSize ≤ next by omega)
    · rwa [length_allocation]
    · exact Nat.le_sub_of_add_le (show size + (u.used - u.off + counterSize) ≤ next by omega)
    · rw [nonparsed, nonparsed, take_allocation hmoved.ge (by omega), ← hmoved, List.take_length,
        List.drop_left' List.length_replicate, List.drop_take]

/-- Nothing that was not parsed is in a buffer that is rewound. -/
theorem Unpacker.rewind_spec (h : u.WellFormed) (hempty : u.used = u.off) :
    u.rewind.WellFormed ∧ u.KeepsData u.rewind := by
  have hlen := h.length_buffer
  have hcounter := h.counterSize_le
  have hwf : u.rewind.WellFormed :=
    ⟨le_rfl, le_rfl,
      show counterSize + (u.free + (u.used - counterSize)) = u.buffer.length by omega,
      h.length_lt, h.counterSize_le_initial, h.initial_lt⟩
  have hbefore : u.nonparsed = [] :=
    List.length_eq_zero_iff.mp ((length_nonparsed h).trans (by omega))
  have hafter : u.rewind.nonparsed = [] :=
    List.length_eq_zero_iff.mp ((length_nonparsed hwf).trans (Nat.sub_self _))
  exact ⟨hwf, hafter.trans hbefore.symm, rfl, rfl⟩

theorem Unpacker.KeepsData.trans {u'' : Unpacker} (h : u.KeepsData u') (h' : u'.KeepsData u'') :
    u.KeepsData u'' :=
  ⟨h'.nonparsed.trans h.nonparsed, h'.context.trans h.context, h'.parsed.trans h.parsed⟩

/-- **What `reserve_buffer` promises**: the capacity asked for, and nothing that was written
lost. -/
theorem Unpacker.reserveBuffer_spec (h : u.WellFormed) {sole : Bool} {size : ℕ}
    (hsize : size + u.used < 2 ^ 64) (hreserve : u.reserveBuffer m sole size = some u') :
    u'.WellFormed ∧ size ≤ u'.free ∧ u.KeepsData u' := by
  rw [reserveBuffer] at hreserve
  split_ifs at hreserve with hfree
  · obtain rfl := Option.some.inj hreserve
    exact ⟨h, hfree, rfl, rfl, rfl⟩
  rw [expandBuffer] at hreserve
  split_ifs at hreserve with hempty hroom
  · obtain ⟨hwf, hkeeps⟩ := rewind_spec h hempty.1
    obtain rfl := Option.some.inj hreserve
    exact ⟨hwf, hroom, hkeeps⟩
  · obtain ⟨hwf, hkeeps⟩ := rewind_spec h hempty.1
    have hused : u.rewind.used ≤ u.used := h.counterSize_le.trans h.off_le
    obtain ⟨hwf', hfree', hkeeps'⟩ := enlarge_spec hwf (by omega) hreserve
    exact ⟨hwf', hfree', hkeeps.trans hkeeps'⟩
  · exact enlarge_spec h hsize hreserve

/-- What is copied to `buffer()` and reported is there to be parsed. -/
theorem Unpacker.copyIn_spec (h : u.WellFormed) {bytes : List UInt8}
    (hfree : bytes.length ≤ u.free) :
    ((u.copyIn bytes).bufferConsumed bytes.length).WellFormed ∧
      ((u.copyIn bytes).bufferConsumed bytes.length).nonparsed = u.nonparsed ++ bytes := by
  obtain ⟨hcounter, hoff, hlen, hlt, hinitial, hinitialLt⟩ := h
  have htake : (u.buffer.take u.used).length = u.used := List.length_take_of_le (by omega)
  have hlength : (u.copyIn bytes).buffer.length = u.buffer.length := by
    rw [copyIn, List.length_append, List.length_append, htake, List.length_drop]
    omega
  refine ⟨⟨hcounter, hoff.trans (Nat.le_add_right _ _), ?_, hlength ▸ hlt, hinitial,
    hinitialLt⟩, ?_⟩
  · change u.used + bytes.length + (u.free - bytes.length) = (u.copyIn bytes).buffer.length
    omega
  · change ((u.buffer.take u.used ++ (bytes ++ u.buffer.drop (u.used + bytes.length))).take
      (u.used + bytes.length)).drop u.off = (u.buffer.take u.used).drop u.off ++ bytes
    rw [← List.append_assoc, List.take_left' (by rw [List.length_append, htake]),
      List.drop_append_of_le_length (by omega)]

end Msgpack

end RaftCore
