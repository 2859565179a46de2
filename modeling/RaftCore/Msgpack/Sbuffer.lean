import RaftCore.Machinery.Doubling
import RaftCore.Machinery.Runs
import RaftCore.Msgpack.Unpacker

/-!
# Msgpack/Sbuffer — the buffer that is packed into

`v1/sbuffer.hpp`: the bytes of an allocation, so many of them written.  `write` appends, and has
`realloc` enlarge the allocation where it is too small.

After any calls the buffer holds what was written since it was emptied, in the order it was written;
and since it grows by doubling, no more was moved by `realloc` than the allocation is long, which is
at most twice what was written (`Sbuffer.run_holds`).  A `write` throws only where the allocation is
too small and `realloc` refuses to enlarge it (`Sbuffer.write_eq_none_iff`).
-/

namespace RaftCore

namespace Msgpack

open Runs

/-- `MSGPACK_SBUFFER_INIT_SIZE`. -/
def sbufferInitSize : ℕ := 8192

/-- `sbuffer`; a null pointer is an allocation of no bytes. -/
structure Sbuffer where
  size : ℕ
  data : List UInt8
  alloc : ℕ

/-- The constructor. -/
def Sbuffer.construct (m : Malloc) (initsz : ℕ) : Option Sbuffer :=
  if initsz = 0 then some { size := 0, data := [], alloc := 0 }
  else if m.grants initsz then
    some { size := 0, data := List.replicate initsz 0, alloc := initsz }
  else none

/-- The size that `expand_buffer` asks for. -/
def Sbuffer.nsize (len : ℕ) (b : Sbuffer) : ℕ :=
  grow ((b.size + len) % 2 ^ 64) (if 0 < b.alloc then b.alloc * 2 % 2 ^ 64 else sbufferInitSize)

/-- `expand_buffer`. -/
def Sbuffer.expandBuffer (m : Malloc) (len : ℕ) (b : Sbuffer) : Option Sbuffer :=
  if m.grants (b.nsize len) then
    some { b with data := allocation b.data (b.nsize len), alloc := b.nsize len }
  else none

/-- `memcpy` behind what is written, and `m_size += len`. -/
def Sbuffer.append (bytes : List UInt8) (b : Sbuffer) : Sbuffer :=
  { b with data := b.data.take b.size ++ (bytes ++ b.data.drop (b.size + bytes.length)),
           size := b.size + bytes.length }

/-- `write`. -/
def Sbuffer.write (m : Malloc) (bytes : List UInt8) (b : Sbuffer) : Option Sbuffer :=
  if b.alloc - b.size < bytes.length then
    (b.expandBuffer m bytes.length).map fun b => b.append bytes
  else some (b.append bytes)

/-- `data()`, `size()` bytes of it. -/
def Sbuffer.contents (b : Sbuffer) : List UInt8 := b.data.take b.size

/-- `release`, which returns the data. -/
def Sbuffer.release (b : Sbuffer) : List UInt8 × Sbuffer :=
  (b.data, { size := 0, data := [], alloc := 0 })

def Sbuffer.clear (b : Sbuffer) : Sbuffer := { b with size := 0 }

/-- What is written is within the allocation. -/
structure Sbuffer.WellFormed (b : Sbuffer) : Prop where
  size_le : b.size ≤ b.alloc
  length_data : b.data.length = b.alloc
  alloc_lt : b.alloc < 2 ^ 63

variable {m : Malloc} {b b' : Sbuffer} {bytes : List UInt8} {len : ℕ}

/-- An allocation that is too small is at least doubled, and to no more than is called for. -/
theorem Sbuffer.nsize_spec (h : b.WellFormed) (hlen : len < 2 ^ 63)
    (hfull : b.alloc < b.size + len) :
    b.size + len ≤ b.nsize len ∧ 2 * b.alloc ≤ b.nsize len ∧
      b.nsize len ≤ max sbufferInitSize (2 * (b.size + len)) := by
  obtain ⟨hsize, -, halloc⟩ := h
  rw [nsize, Nat.mod_eq_of_lt (show b.size + len < 2 ^ 64 by omega),
    Nat.mod_eq_of_lt (show b.alloc * 2 < 2 ^ 64 by omega)]
  generalize hnext : (if 0 < b.alloc then b.alloc * 2 else sbufferInitSize) = next
  have hdouble : 2 * b.alloc ≤ next ∧ next ≤ max sbufferInitSize (2 * (b.size + len)) := by
    rw [← hnext]
    split_ifs <;> omega
  refine ⟨le_grow, hdouble.1.trans next_le_grow, ?_⟩
  rcases Nat.lt_or_ge next (b.size + len) with hlt | hge
  · exact (grow_lt hlt).le.trans (le_max_right _ _)
  · exact (grow_of_le hge).le.trans hdouble.2

/-- What is appended where there is room for it. -/
theorem Sbuffer.append_spec (h : b.WellFormed) (hroom : b.size + bytes.length ≤ b.alloc) :
    (b.append bytes).WellFormed ∧ (b.append bytes).contents = b.contents ++ bytes := by
  obtain ⟨hsize, hlength, halloc⟩ := h
  have htake : (b.data.take b.size).length = b.size := List.length_take_of_le (by omega)
  refine ⟨⟨hroom, ?_, halloc⟩, ?_⟩
  · change (b.data.take b.size ++ (bytes ++ b.data.drop (b.size + bytes.length))).length = b.alloc
    rw [List.length_append, List.length_append, htake, List.length_drop]
    omega
  · change (b.data.take b.size ++ (bytes ++ b.data.drop (b.size + bytes.length))).take
      (b.size + bytes.length) = b.data.take b.size ++ bytes
    rw [← List.append_assoc, List.take_left' (by rw [List.length_append, htake])]

/-- **What `write` does**: it appends, in the allocation there is or in one that is enlarged. -/
theorem Sbuffer.write_spec (h : b.WellFormed) (hlen : bytes.length < 2 ^ 63)
    (hwrite : b.write m bytes = some b') : b'.WellFormed ∧ b'.contents = b.contents ++ bytes ∧
      b'.size = b.size + bytes.length ∧
      (b'.alloc = b.alloc ∨ 2 * b.alloc ≤ b'.alloc ∧
        b'.alloc ≤ max sbufferInitSize (2 * (b.size + bytes.length))) := by
  have hsize := h.size_le
  rw [write] at hwrite
  split_ifs at hwrite with hfull
  · obtain ⟨b₁, hexpand, rfl⟩ := Option.map_eq_some_iff.mp hwrite
    obtain ⟨hgrants, hb₁⟩ := Option.ite_none_right_eq_some.mp hexpand
    obtain rfl := Option.some.inj hb₁
    obtain ⟨henough, hdouble, hmost⟩ := nsize_spec h hlen (by omega)
    have hlength := h.length_data
    have hwf : Sbuffer.WellFormed { b with
        data := allocation b.data (b.nsize bytes.length), alloc := b.nsize bytes.length } :=
      ⟨show b.size ≤ b.nsize bytes.length by omega, length_allocation _ _, m.lt_of_grants hgrants⟩
    obtain ⟨hwf', hcontents⟩ := append_spec hwf henough
    refine ⟨hwf', hcontents.trans (congrArg (· ++ bytes) ?_), rfl, .inr ⟨hdouble, hmost⟩⟩
    exact take_allocation (show b.size ≤ _ by omega) (show b.size ≤ _ by omega)
  · obtain rfl := Option.some.inj hwrite
    obtain ⟨hwf', hcontents⟩ := append_spec h (show b.size + bytes.length ≤ b.alloc by omega)
    exact ⟨hwf', hcontents, rfl, .inl rfl⟩

/-- **`write` throws only where memory is refused**: of the size that `expand_buffer` asks for. -/
theorem Sbuffer.write_eq_none_iff : b.write m bytes = none ↔
    b.alloc - b.size < bytes.length ∧ m.grants (b.nsize bytes.length) = false := by
  rw [write, expandBuffer]
  split_ifs with hfull hgrants
  · exact iff_of_false (fun h => by cases h) fun h => by rw [hgrants] at h; cases h.2
  · exact iff_of_true rfl ⟨hfull, Bool.eq_false_iff.mpr hgrants⟩
  · exact iff_of_false (fun h => by cases h) fun h => hfull h.1

/-! ## A buffer in use -/

/-- What is called. -/
inductive SbufferCall where
  | write (bytes : List UInt8)
  | clear
  | release

/-- A buffer, with what was written since it was emptied; and since its memory was handed over, how
much was written and how much `realloc` had to move. -/
structure SbufferUse where
  buffer : Sbuffer
  contents : List UInt8
  written : ℕ
  moved : ℕ

/-- A call; a `write` that throws changes nothing. -/
def SbufferUse.step (u : SbufferUse) : SbufferCall × Malloc → Option SbufferUse
  | (.write bytes, m) => match u.buffer.write m bytes with
    | none => some u
    | some b => some { buffer := b, contents := u.contents ++ bytes,
                       written := u.written + bytes.length,
                       moved := if b.alloc = u.buffer.alloc then u.moved
                         else u.moved + u.buffer.alloc }
  | (.clear, _) => some { u with buffer := u.buffer.clear, contents := [] }
  | (.release, _) => some { buffer := u.buffer.release.2, contents := [], written := 0, moved := 0 }

/-- **What the buffer holds and what it has cost.** -/
structure SbufferUse.Holds (initsz : ℕ) (u : SbufferUse) : Prop where
  wellFormed : u.buffer.WellFormed
  contents_eq : u.buffer.contents = u.contents
  size_le : u.buffer.size ≤ u.written
  moved_le : u.moved ≤ u.buffer.alloc
  alloc_le : u.buffer.alloc ≤ max (max initsz sbufferInitSize) (2 * u.written)

/-- What is written at once is in memory. -/
def SbufferCall.Sized : SbufferCall → Prop
  | .write bytes => bytes.length < 2 ^ 63
  | _ => True

theorem SbufferUse.Holds.step {initsz : ℕ} {u u' : SbufferUse} {a : SbufferCall × Malloc}
    (h : u.Holds initsz) (ha : a.1.Sized) (hstep : u.step a = some u') : u'.Holds initsz := by
  obtain ⟨hwf, hcontents, hsize, hmoved, halloc⟩ := h
  obtain ⟨call, m⟩ := a
  cases call with
  | write bytes =>
    rw [SbufferUse.step] at hstep
    match hwrite : u.buffer.write m bytes with
    | none =>
      rw [hwrite] at hstep
      obtain rfl := Option.some.inj hstep
      exact ⟨hwf, hcontents, hsize, hmoved, halloc⟩
    | some b =>
      rw [hwrite] at hstep
      obtain rfl := Option.some.inj hstep
      obtain ⟨hwf', hcontents', hsize', hcases⟩ := Sbuffer.write_spec hwf ha hwrite
      refine ⟨hwf', hcontents'.trans (congrArg (· ++ bytes) hcontents), ?_, ?_, ?_⟩
      · exact hsize'.le.trans (Nat.add_le_add_right hsize _)
      · dsimp only
        split_ifs with hsame
        · omega
        · obtain hsame' | ⟨hdouble, -⟩ := hcases
          · exact absurd hsame' hsame
          · omega
      · dsimp only
        rcases hcases with hsame | ⟨-, hmost⟩ <;> omega
  | clear =>
    obtain rfl := Option.some.inj hstep
    exact ⟨⟨Nat.zero_le _, hwf.length_data, hwf.alloc_lt⟩, rfl, Nat.zero_le _, hmoved, halloc⟩
  | release =>
    obtain rfl := Option.some.inj hstep
    exact ⟨⟨le_rfl, rfl, Nat.two_pow_pos 63⟩, rfl, le_rfl, le_rfl, Nat.zero_le _⟩

theorem Sbuffer.construct_holds {initsz : ℕ} (h : construct m initsz = some b) :
    SbufferUse.Holds initsz ⟨b, [], 0, 0⟩ := by
  rw [construct] at h
  split_ifs at h with hzero hgrants
  · obtain rfl := Option.some.inj h
    exact ⟨⟨le_rfl, rfl, Nat.two_pow_pos 63⟩, rfl, le_rfl, le_rfl, Nat.zero_le _⟩
  · obtain rfl := Option.some.inj h
    exact ⟨⟨Nat.zero_le _, List.length_replicate, m.lt_of_grants hgrants⟩, rfl, le_rfl,
      Nat.zero_le _, (le_max_left _ _).trans (le_max_left _ _)⟩

/-- **A buffer over any run** of writes, `clear` and `release`: it holds what was written since it
was emptied, within its allocation; and no more was moved than twice what was written, but for the
size it started with. -/
theorem Sbuffer.run_holds {initsz : ℕ} {actions : List (SbufferCall × Malloc)}
    (hconstruct : construct m initsz = some b) (hsized : ∀ a ∈ actions, a.1.Sized) :
    Always SbufferUse.step (fun u => u.buffer.contents = u.contents ∧
      u.buffer.size ≤ u.buffer.alloc ∧
      u.moved ≤ max (max initsz sbufferInitSize) (2 * u.written)) ⟨b, [], 0, 0⟩ actions := by
  have hactions : Along SbufferUse.step (fun _ a => a.1.Sized) ⟨b, [], 0, 0⟩ actions :=
    along_of_forall hsized
  have hinv := always_of_inv (fun _ _ _ h ha hstep => SbufferUse.Holds.step h ha hstep)
    (construct_holds hconstruct) hactions
  intro u hu
  have h := hinv u hu
  exact ⟨h.contents_eq, h.wellFormed.size_le, h.moved_le.trans h.alloc_le⟩

theorem Sbuffer.run_holds_two : ∃ b : Sbuffer, Always SbufferUse.step
    (fun u => u.buffer.contents = u.contents ∧ u.buffer.size ≤ u.buffer.alloc ∧
      u.moved ≤ max (max 2 sbufferInitSize) (2 * u.written)) ⟨b, [], 0, 0⟩
    [(.write [1, 2, 3], ⟨fun n => decide (n < 2 ^ 63), of_decide_eq_true⟩),
      (.clear, ⟨fun _ => false, nofun⟩)] :=
  ⟨_, @run_holds ⟨fun n => decide (n < 2 ^ 63), of_decide_eq_true⟩ _ 2 _ rfl (by
    refine List.forall_mem_cons.mpr ⟨?_, List.forall_mem_singleton.mpr trivial⟩
    exact (by decide : 3 < 2 ^ 63))⟩

end Msgpack

end RaftCore
