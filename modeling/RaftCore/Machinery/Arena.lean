import Mathlib.Data.List.Basic
import Mathlib.Order.Basic

/-!
# Machinery/Arena — memory handed out piece by piece

An **arena** owns some blocks of memory, has handed out pieces of them, and has some room left in
one of them (`Parcelled`): no two pieces overlap, and none overlaps the room.

A few moves keep that, and every allocator that only moves forward is made of them: a piece is taken
from the room (`take`), room is given up (`waste`), a new block takes the place of what room there
is (`extend`), pieces are divided (`divide`), and there is one block only (`first`).
-/

namespace RaftCore

/-- The addresses from `start` on, up to `stop`. -/
structure Extent (α : Type*) where
  start : α
  stop : α

namespace Extent

variable {α : Type*} [Preorder α]

/-- No address is in both. -/
def Apart (e f : Extent α) : Prop := e.stop ≤ f.start ∨ f.stop ≤ e.start

def Within (e f : Extent α) : Prop := f.start ≤ e.start ∧ e.stop ≤ f.stop

variable {e e' f f' : Extent α}

theorem Apart.symm (h : e.Apart f) : f.Apart e := Or.symm h

theorem Within.refl (e : Extent α) : e.Within e := ⟨le_rfl, le_rfl⟩

theorem Within.trans {g : Extent α} (h : e.Within f) (h' : f.Within g) : e.Within g :=
  ⟨h'.1.trans h.1, h.2.trans h'.2⟩

/-- What is in one of two extents that are apart is apart from what is in the other. -/
theorem Apart.mono (h : e.Apart f) (he : e'.Within e) (hf : f'.Within f) : e'.Apart f' := by
  rcases h with h | h
  · exact .inl (he.2.trans (h.trans hf.1))
  · exact .inr (hf.2.trans (h.trans he.1))

end Extent

open Extent

variable {α : Type*} [Preorder α]

/-- **The blocks of an arena**, the pieces taken from them, and the room that is left. -/
structure Parcelled (blocks taken : List (Extent α)) (room : Extent α) : Prop where
  blocks_apart : blocks.Pairwise Apart
  taken_apart : taken.Pairwise Apart
  room_apart : ∀ e ∈ taken, e.Apart room
  taken_within : ∀ e ∈ taken, ∃ b ∈ blocks, e.Within b
  room_within : ∃ b ∈ blocks, room.Within b

namespace Parcelled

variable {blocks taken : List (Extent α)} {room room' e b : Extent α}

/-- Room that is given up is in nobody's way. -/
theorem waste (h : Parcelled blocks taken room) (hroom : room'.Within room) :
    Parcelled blocks taken room' := by
  obtain ⟨b, hb, hwithin⟩ := h.room_within
  exact ⟨h.blocks_apart, h.taken_apart, fun e he => (h.room_apart e he).mono (.refl e) hroom,
    h.taken_within, b, hb, hroom.trans hwithin⟩

/-- **A piece is taken from the room**, and the rest of it stays. -/
theorem take (h : Parcelled blocks taken room) (he : e.Within room) (hroom : room'.Within room)
    (hapart : e.Apart room') : Parcelled blocks (e :: taken) room' := by
  obtain ⟨b, hb, hwithin⟩ := h.room_within
  refine ⟨h.blocks_apart, List.pairwise_cons.mpr ⟨fun f hf => ?_, h.taken_apart⟩, ?_, ?_, b, hb,
    hroom.trans hwithin⟩
  · exact ((h.room_apart f hf).mono (.refl f) he).symm
  · exact List.forall_mem_cons.mpr
      ⟨hapart, fun f hf => (h.room_apart f hf).mono (.refl f) hroom⟩
  · exact List.forall_mem_cons.mpr ⟨⟨b, hb, he.trans hwithin⟩, h.taken_within⟩

/-- **A new block** has the room from now on. -/
theorem extend (h : Parcelled blocks taken room) (hb : ∀ b' ∈ blocks, b.Apart b')
    (hroom : room'.Within b) : Parcelled (b :: blocks) taken room' := by
  refine ⟨List.pairwise_cons.mpr ⟨hb, h.blocks_apart⟩, h.taken_apart, fun e he => ?_,
    fun e he => ?_, b, List.mem_cons_self, hroom⟩
  · obtain ⟨b', hb', hwithin⟩ := h.taken_within e he
    exact ((hb b' hb').mono hroom hwithin).symm
  · obtain ⟨b', hb', hwithin⟩ := h.taken_within e he
    exact ⟨b', List.mem_cons_of_mem _ hb', hwithin⟩

/-- **The pieces are divided**, or some of them forgotten. -/
theorem divide {taken' : List (Extent α)} (h : Parcelled blocks taken room)
    (hapart : taken'.Pairwise Apart) (hwithin : ∀ e ∈ taken', ∃ f ∈ taken, e.Within f) :
    Parcelled blocks taken' room := by
  refine ⟨h.blocks_apart, hapart, fun e he => ?_, fun e he => ?_, h.room_within⟩
  · obtain ⟨f, hf, hef⟩ := hwithin e he
    exact (h.room_apart f hf).mono hef (.refl room)
  · obtain ⟨f, hf, hef⟩ := hwithin e he
    obtain ⟨b, hb, hfb⟩ := h.taken_within f hf
    exact ⟨b, hb, hef.trans hfb⟩

/-- **The first block** of an arena, beside blocks that are taken whole. -/
theorem first (hroom : room.Within b) (htaken : taken.Pairwise Apart)
    (hb : ∀ e ∈ taken, b.Apart e) : Parcelled (b :: taken) taken room :=
  ⟨List.pairwise_cons.mpr ⟨hb, htaken⟩, htaken,
    fun e he => ((hb e he).mono hroom (.refl e)).symm,
    fun e he => ⟨e, List.mem_cons_of_mem b he, .refl e⟩, b, List.mem_cons_self, hroom⟩

end Parcelled

end RaftCore
