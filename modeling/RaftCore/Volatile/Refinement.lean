import RaftCore.Machinery.Runs
import RaftCore.Volatile.Contiguous

/-!
# Volatile/Refinement — the volatile state as a log suffix

What the volatile state is for: a suffix of the log, starting at `base` and held without gaps, next
to the snapshot being installed (`Suffix`).  An import overwrites from its first index on, an
acknowledgement removes a prefix, a snapshot replaces everything.

The code is compared with it operation by operation: `Suffix.of` commutes with a step (`Simulates`)
exactly when the step is `Sound`, and a run of sound steps stays contiguous, so

    every state contiguous and every step commuting   ↔   every step sound    (`refinesAlong_iff`)

Three kinds of step are not sound: an import that cuts the held entries off their middle, an import
beyond an empty suffix, and an acknowledgement of the snapshot's own index when nothing is held.
-/

namespace RaftCore

open Window Runs

/-! ## The abstract suffix -/

/-- A log suffix: the entries from `base` on, and the snapshot being installed. -/
structure Suffix where
  snapshot : Option Snapshot
  base : ℕ
  held : List Entry
  deriving DecidableEq

namespace Suffix

/-- Overwrite from the first imported index on; an import that leaves a gap is refused. -/
def append (a : Suffix) (entries : List Entry) (k : ℕ) : Outcome Suffix :=
  match entries[k]? with
  | none => .ok a
  | some first =>
    if first.num ≤ a.base + a.held.length then
      .ok { a with
        held := a.held.filter (fun ent => ent.num < first.num) ++ entries.drop k
        base := min a.base first.num }
    else .error (.panic "gap between local entries and income entries")

/-- Remove what is numbered up to `index`, if the entry held there has this term. -/
def clearEntriesBefore (a : Suffix) (index : ℕ) (term : UInt64) : Suffix :=
  if ∃ ent ∈ a.held, ent.num = index ∧ ent.term = term then
    { a with held := a.held.filter (fun ent => index < ent.num), base := index + 1 }
  else a

/-- Forget the snapshot, if it is the one at this index. -/
def clearSnapshot (a : Suffix) (index : UInt64) : Suffix :=
  match a.snapshot with
  | none => a
  | some s => if s.snapshotMetadata.index = index then { a with snapshot := none } else a

/-- Nothing but the snapshot, and an empty suffix after it. -/
def load (snapshot : Option Snapshot) : Suffix where
  snapshot := snapshot
  base := match snapshot with
    | none => 1
    | some s => s.snapshotMetadata.index.toNat + 1
  held := []

end Suffix

/-! ## The operations -/

/-- One call on a volatile state. -/
inductive VolatileOp where
  | append (entries : List Entry) (offset : UInt64)
  | clearEntriesBefore (index term : UInt64)
  | clearSnapshot (index : UInt64)
  | load (snapshot : Option Snapshot)

/-- The state a call leaves. -/
def VolatileState.step (v : VolatileState) : VolatileOp → Outcome VolatileState
  | .append entries offset => v.append entries offset
  | .clearEntriesBefore index term => (v.clearEntriesBefore index term).map Prod.snd
  | .clearSnapshot index => .ok (v.clearSnapshot index).2
  | .load snapshot => .ok (v.load snapshot)

/-- The same call on the suffix. -/
def Suffix.step (a : Suffix) : VolatileOp → Outcome Suffix
  | .append entries offset => a.append entries offset.toNat
  | .clearEntriesBefore index term => .ok (a.clearEntriesBefore index.toNat term)
  | .clearSnapshot index => .ok (a.clearSnapshot index)
  | .load snapshot => .ok (Suffix.load snapshot)

/-- The suffix a volatile state represents. -/
def Suffix.of (v : VolatileState) : Suffix := ⟨v.snapshot, v.offset.toNat, v.entries⟩

/-- Imports are numbered contiguously, and no index reaches `2^64 - 1`. -/
def VolatileOp.WellNumbered : VolatileOp → Prop
  | .append entries _ => ∃ b, Numbered Entry.num b entries ∧ b + entries.length ≤ 2 ^ 64 - 1
  | .load (some s) => s.snapshotMetadata.index.toNat < 2 ^ 64 - 1
  | _ => True

/-- **A call on the state acts as its counterpart on the suffix.** -/
def Simulates (v : VolatileState) (op : VolatileOp) : Prop :=
  (v.step op).map Suffix.of = (Suffix.of v).step op

/-- **The calls that do**: an import lands right, or leaves a gap after something; an
acknowledgement does not reach the snapshot's term over an empty deque. -/
def VolatileOp.Sound (v : VolatileState) : VolatileOp → Prop
  | .append entries offset => ∀ first, entries[offset.toNat]? = some first →
      v.LandsRight first.num ∨ v.endIndex < first.num ∧ v.entries ≠ []
  | .clearEntriesBefore index term => ¬(v.entries = [] ∧ v.snapshotTerm index = some term)
  | _ => True

instance (v : VolatileState) (op : VolatileOp) : Decidable (Simulates v op) :=
  inferInstanceAs (Decidable ((v.step op).map Suffix.of = (Suffix.of v).step op))

instance decidableSound (v : VolatileState) : ∀ op : VolatileOp, Decidable (op.Sound v)
  | .append entries offset =>
    match h : entries[offset.toNat]? with
    | none => isTrue (by simp [VolatileOp.Sound, h])
    | some first => decidable_of_iff
        (v.LandsRight first.num ∨ v.endIndex < first.num ∧ v.entries ≠ []) (by
          simp [VolatileOp.Sound, h])
  | .clearEntriesBefore index term =>
    inferInstanceAs (Decidable ¬(v.entries = [] ∧ v.snapshotTerm index = some term))
  | .clearSnapshot _ => isTrue trivial
  | .load _ => isTrue trivial

/-! ## One step -/

/-- What the runs keep: contiguity, and room for the next index. -/
structure VolatileState.Inv (v : VolatileState) : Prop where
  contiguous : v.Contiguous
  room : v.endIndex < 2 ^ 64

namespace VolatileState

theorem simulates_append_iff {v : VolatileState} (h : v.Inv) {entries : List Entry}
    {offset : UInt64} (hop : (VolatileOp.append entries offset).WellNumbered) :
    Simulates v (.append entries offset) ↔ (VolatileOp.append entries offset).Sound v := by
  obtain ⟨b, hnum, hb⟩ := hop
  have hlen : entries.length < 2 ^ 64 := by omega
  have hbase : (Suffix.of v).base + (Suffix.of v).held.length = v.endIndex := rfl
  rw [Simulates, step, Suffix.step, Suffix.append]
  cases hent : entries[offset.toNat]? with
  | none =>
    have hle : UInt64.ofNat entries.length ≤ offset := by
      rw [UInt64.le_iff_toNat_le, Word64.toNat_ofNat_of_lt hlen]
      exact List.getElem?_eq_none_iff.mp hent
    simp [append_of_length_le hle, VolatileOp.Sound, hent, Except.map]
  | some first =>
    have h0 : v.endIndex < 2 ^ 64 + first.num := by have := h.room; omega
    have hfilter : (Suffix.of v).held.filter (fun ent => ent.num < first.num)
        = v.entries.take (first.num - v.offset.toNat) := filter_lt_eq_take h.contiguous
    simp only [hbase, hfilter, VolatileOp.Sound, hent, Option.some.injEq, forall_eq']
    by_cases hr : v.LandsRight first.num
    · -- the import lands right: the code splices, and so does the suffix
      refine iff_of_true ?_ (Or.inl hr)
      rw [append_of_landsRight h.contiguous hlen hent h0 hr, if_pos hr.le_endIndex]
      simp only [Except.map, Suffix.of, splice, Word64.toNat_stdMin, Entry.num]
    · have hmid : ¬(first.num ≤ v.offset.toNat ∨ first.num = v.endIndex ∨
          2 * first.num + 1 = 2 * v.offset.toNat + v.entries.length) := hr
      have hne : v.endIndex ≠ first.num := fun he => hmid (Or.inr (Or.inl he.symm))
      have hoff : ¬first.num ≤ v.offset.toNat := fun he => hmid (Or.inl he)
      rw [append_eq h.contiguous hlen hent h0, if_neg hne, if_neg hoff]
      by_cases hgap : v.endIndex < first.num
      · -- a gap: a panic, except that the empty deque has no last element to compare with
        rw [if_neg (by omega : ¬first.num ≤ v.endIndex)]
        by_cases hnil : v.entries = [] <;> simp [hnil, hr, hgap, Except.map]
      · -- a cut off the middle keeps a prefix of the wrong length
        have hnil : v.entries ≠ [] := fun hnil => by
          have hlen0 : v.endIndex = v.offset.toNat := by rw [endIndex, hnil]; rfl
          omega
        rw [if_neg hnil, if_neg hgap, if_pos (by omega : first.num ≤ v.endIndex)]
        refine iff_of_false (fun heq => ?_) (by simp [hr, hgap])
        have hheld : v.entries.take (v.endIndex - 1 - first.num) ++ entries.drop offset.toNat
            = v.entries.take (first.num - v.offset.toNat) ++ entries.drop offset.toNat :=
          congrArg Suffix.held (Except.ok.inj heq)
        have hkept := congrArg List.length (List.append_cancel_right hheld)
        rw [List.length_take, List.length_take] at hkept
        simp only [endIndex] at *
        omega

theorem clearEntriesBefore_of_lookup {v : VolatileState} (h : v.Inv) {index : UInt64}
    {ent : Entry} (hent : lookup v.offset.toNat v.entries index.toNat = some ent) :
    v.clearEntriesBefore index ent.term = .ok (true, { v with
      entries := v.entries.drop (index.toNat + 1 - v.offset.toNat), offset := index + 1 }) := by
  have hin := lookup_eq_some hent
  have hne := lookup_eq_some_ne_nil hent
  have hroom := h.room
  rw [endIndex] at hroom
  have hends : ¬(v.entries = [] ∧ v.snapshotTerm index = some ent.term) := fun hc => hne hc.1
  have hsub := UInt64.toNat_sub_of_le _ _ (UInt64.le_iff_toNat_le.mpr hin.1)
  have hcount : (index - v.offset + 1).toNat = index.toNat + 1 - v.offset.toNat := by
    rw [Word64.toNat_succ (by omega), hsub]
    omega
  rw [h.contiguous.consecutive.clearEntriesBefore_eq, if_neg hends, h.contiguous.heldAt_eq, hent,
    Option.map_some, if_pos rfl, hcount]

theorem clearEntriesBefore_of_lookup_none {v : VolatileState} (h : v.Inv) {index term : UInt64}
    (hnone : lookup v.offset.toNat v.entries index.toNat = none) :
    v.clearEntriesBefore index term =
      if v.entries = [] ∧ v.snapshotTerm index = some term then
        .error (.undefined "begin() of an empty deque")
      else .ok (false, v) := by
  have hnot : ¬(none : Option UInt64) = some term := nofun
  rw [h.contiguous.consecutive.clearEntriesBefore_eq, h.contiguous.heldAt_eq, hnone,
    Option.map_none, if_neg hnot]

theorem simulates_clearEntriesBefore_iff {v : VolatileState} (h : v.Inv) (index term : UInt64) :
    Simulates v (.clearEntriesBefore index term)
      ↔ (VolatileOp.clearEntriesBefore index term).Sound v := by
  have hheld : (∃ ent ∈ (Suffix.of v).held, ent.num = index.toNat ∧ ent.term = term) ↔
      ∃ ent, lookup v.offset.toNat v.entries index.toNat = some ent ∧ ent.term = term :=
    Numbered.exists_mem_iff h.contiguous
  rw [Simulates, step, Suffix.step, Suffix.clearEntriesBefore, VolatileOp.Sound]
  simp only [hheld]
  cases hlook : lookup v.offset.toNat v.entries index.toNat with
  | some ent =>
    refine iff_of_true ?_ fun hc => lookup_eq_some_ne_nil hlook hc.1
    by_cases hterm : ent.term = term
    · subst hterm
      have hin := lookup_eq_some hlook
      have hroom := h.room
      simp only [endIndex] at hroom
      have hsucc : (index + 1).toNat = index.toNat + 1 := Word64.toNat_succ (by omega)
      rw [clearEntriesBefore_of_lookup h hlook, if_pos ⟨ent, rfl, rfl⟩]
      simp only [Suffix.of, Except.map, hsucc, filter_gt_eq_drop h.contiguous]
    · have hends : ¬(v.entries = [] ∧ v.snapshotTerm index = some term) :=
        fun hc => lookup_eq_some_ne_nil hlook hc.1
      have hclear : v.clearEntriesBefore index term = .ok (false, v) := by
        rw [h.contiguous.consecutive.clearEntriesBefore_eq, if_neg hends, h.contiguous.heldAt_eq,
          hlook, Option.map_some, if_neg (by simpa using hterm)]
      rw [hclear, if_neg (by simp [hterm])]
      rfl
  | none =>
    have hnot : ¬∃ ent : Entry, none = some ent ∧ ent.term = term := by simp
    rw [clearEntriesBefore_of_lookup_none h hlook, if_neg hnot]
    by_cases hc : v.entries = [] ∧ v.snapshotTerm index = some term
    · rw [if_pos hc]
      exact iff_of_false (fun heq => by cases heq) (not_not.mpr hc)
    · rw [if_neg hc]
      exact iff_of_true rfl hc

/-- **A call acts as its counterpart exactly when it is sound.** -/
theorem simulates_iff_sound {v : VolatileState} (h : v.Inv) {op : VolatileOp}
    (hop : op.WellNumbered) : Simulates v op ↔ op.Sound v := by
  cases op with
  | append entries offset => exact simulates_append_iff h hop
  | clearEntriesBefore index term => exact simulates_clearEntriesBefore_iff h index term
  | clearSnapshot index =>
    refine iff_of_true ?_ trivial
    rw [Simulates, step, Suffix.step, clearSnapshot, Suffix.clearSnapshot]
    cases hs : v.snapshot with
    | none => simp [Suffix.of, Except.map, hs]
    | some s => by_cases hidx : s.snapshotMetadata.index = index <;>
        simp [Suffix.of, Except.map, hs, hidx]
  | load snapshot =>
    refine iff_of_true ?_ trivial
    cases snapshot with
    | none => rfl
    | some s =>
      have hs : s.snapshotMetadata.index.toNat < 2 ^ 64 - 1 := hop
      have hsucc : (s.snapshotMetadata.index + 1).toNat = s.snapshotMetadata.index.toNat + 1 :=
        Word64.toNat_succ (by omega)
      simp only [Simulates, step, load, Suffix.step, Suffix.load, Except.map, Suffix.of, hsucc]

end VolatileState

/-! ## Runs

Contiguity is a property of the suffix alone, and the abstract operations keep it; the code's
operations keep it as long as they commute. -/

/-- Contiguity of a suffix, with room for the next index. -/
structure Suffix.Inv (a : Suffix) : Prop where
  numbered : Numbered Entry.num a.base a.held
  room : a.base + a.held.length < 2 ^ 64

theorem Suffix.inv_of_iff {v : VolatileState} : (Suffix.of v).Inv ↔ v.Inv :=
  ⟨fun h => ⟨h.numbered, h.room⟩, fun h => ⟨h.contiguous, h.room⟩⟩

theorem Suffix.inv_append {a a' : Suffix} (h : a.Inv) {entries : List Entry} {k b : ℕ}
    (hnum : Numbered Entry.num b entries) (hb : b + entries.length ≤ 2 ^ 64 - 1)
    (hstep : a.append entries k = .ok a') : a'.Inv := by
  rw [Suffix.append] at hstep
  cases hfirst : entries[k]? with
  | none =>
    rw [hfirst] at hstep
    obtain rfl : a = a' := Except.ok.inj hstep
    exact h
  | some first =>
    have hk : k < entries.length := (List.getElem?_eq_some_iff.mp hfirst).1
    have hidx : first.num = b + k := hnum.getElem? hfirst
    simp only [hfirst] at hstep
    by_cases hle : first.num ≤ a.base + a.held.length
    swap
    · rw [if_neg hle] at hstep
      cases hstep
    rw [if_pos hle, filter_lt_eq_take h.numbered] at hstep
    obtain rfl := Except.ok.inj hstep
    have hdrop : Numbered Entry.num first.num (entries.drop k) := hidx ▸ hnum.drop hk.le
    refine ⟨?_, ?_⟩
    · rcases le_total first.num a.base with hfb | hfb
      · change Numbered Entry.num (min a.base first.num) (splice a.base a.held first.num _)
        rw [min_eq_right hfb, splice_base _ _ hfb]
        exact hdrop
      · change Numbered Entry.num (min a.base first.num) (splice a.base a.held first.num _)
        rw [min_eq_left hfb]
        exact h.numbered.splice hfb hle hdrop
    · simp only [List.length_append, List.length_take, List.length_drop]
      omega

/-- **The abstract operations keep the suffix contiguous.** -/
theorem Suffix.inv_step {a a' : Suffix} (h : a.Inv) {op : VolatileOp} (hop : op.WellNumbered)
    (hstep : a.step op = .ok a') : a'.Inv := by
  cases op with
  | append entries offset =>
    obtain ⟨b, hnum, hb⟩ := hop
    exact Suffix.inv_append h hnum hb hstep
  | clearEntriesBefore index term =>
    obtain rfl := Except.ok.inj hstep
    unfold Suffix.clearEntriesBefore
    split
    · rename_i hheld
      obtain ⟨ent, hmem, hidx, -⟩ := hheld
      have hin := h.numbered.mem hmem
      have hroom := h.room
      rw [filter_gt_eq_drop h.numbered]
      refine ⟨?_, ?_⟩
      · have hdrop := h.numbered.drop (n := index.toNat + 1 - a.base) (by omega)
        rwa [show a.base + (index.toNat + 1 - a.base) = index.toNat + 1 by omega] at hdrop
      · simp only [List.length_drop]
        omega
    · exact h
  | clearSnapshot index =>
    obtain rfl := Except.ok.inj hstep
    unfold Suffix.clearSnapshot
    split
    · exact h
    · split
      · exact ⟨h.numbered, h.room⟩
      · exact h
  | load snapshot =>
    obtain rfl := Except.ok.inj hstep
    refine ⟨trivial, ?_⟩
    cases snapshot with
    | none => decide
    | some s =>
      have hs : s.snapshotMetadata.index.toNat < 2 ^ 64 - 1 := hop
      simp only [Suffix.load, List.length_nil]
      omega

/-- A run of calls, stopped by the first that does not return. -/
def VolatileState.next (v : VolatileState) (op : VolatileOp) : Option VolatileState :=
  (v.step op).toOption

/-- The constructor followed by `SetOffset(o)`. -/
def VolatileState.start (o : UInt64) : VolatileState := VolatileState.setOffset {} o

theorem VolatileState.inv_start {o : UInt64} (ho : o.toNat < 2 ^ 64 - 1) : (start o).Inv :=
  ⟨trivial, by simp only [start, setOffset, endIndex, List.length_nil]; omega⟩

/-- **A sound call keeps the invariant**, because its counterpart does. -/
theorem VolatileState.inv_next {v v' : VolatileState} (h : v.Inv) {op : VolatileOp}
    (hop : op.WellNumbered) (hs : op.Sound v) (hstep : v.next op = some v') : v'.Inv := by
  have hok := Outcome.toOption_eq_some.mp hstep
  have hsim : (v.step op).map Suffix.of = (Suffix.of v).step op :=
    (simulates_iff_sound h hop).mpr hs
  rw [hok] at hsim
  exact Suffix.inv_of_iff.mp (Suffix.inv_step (Suffix.inv_of_iff.mpr h) hop hsim.symm)

/-- **Every state reached is contiguous, and every call acts as its counterpart.** -/
def RefinesAlong (o : UInt64) (ops : List VolatileOp) : Prop :=
  Always VolatileState.next VolatileState.Contiguous (VolatileState.start o) ops ∧
    Along VolatileState.next Simulates (VolatileState.start o) ops

/-- **The volatile state refines the suffix along a run exactly when every call of it is sound.** -/
theorem refinesAlong_iff {o : UInt64} (ho : o.toNat < 2 ^ 64 - 1) {ops : List VolatileOp}
    (hops : ∀ op ∈ ops, op.WellNumbered) :
    RefinesAlong o ops ↔
      Along VolatileState.next (fun v op => op.Sound v) (VolatileState.start o) ops := by
  have hstart := VolatileState.inv_start ho
  have hiff : Along VolatileState.next Simulates (VolatileState.start o) ops ↔
      Along VolatileState.next (fun v op => op.WellNumbered ∧ op.Sound v)
        (VolatileState.start o) ops :=
    along_congr (I := VolatileState.Inv) (A := VolatileOp.WellNumbered)
      (fun v op v' h hq hs => VolatileState.inv_next h hq.1 hq.2 hs)
      (fun v op h hop => (VolatileState.simulates_iff_sound h hop).trans
        ⟨fun hs => ⟨hop, hs⟩, And.right⟩) hstart hops
  have hand : Along VolatileState.next (fun v op => op.WellNumbered ∧ op.Sound v)
      (VolatileState.start o) ops ↔
        Along VolatileState.next (fun v op => op.Sound v) (VolatileState.start o) ops :=
    along_and.trans (and_iff_right (along_of_forall hops))
  constructor
  · rintro ⟨-, hsim⟩
    exact hand.mp (hiff.mp hsim)
  · intro hsound
    have hboth := hand.mpr hsound
    exact ⟨fun v hv => (always_of_inv (fun v op v' h hq hs =>
      VolatileState.inv_next h hq.1 hq.2 hs) hstart hboth v hv).contiguous, hiff.mpr hboth⟩

/-- A run through every operation, with a cut at the middle of three entries. -/
theorem refinesAlong_middle_cut :
    RefinesAlong 1 [.append [⟨1, 1, .entryNormal, []⟩, ⟨2, 1, .entryNormal, []⟩,
        ⟨3, 1, .entryNormal, []⟩] 0,
      .append [⟨2, 2, .entryNormal, []⟩] 0, .clearEntriesBefore 1 1, .clearSnapshot 7,
      .load (some ⟨⟨⟨[], []⟩, 9, 2⟩, []⟩)] := by
  refine (refinesAlong_iff (by decide) ?_).mpr (by decide)
  simp only [List.forall_mem_cons, List.not_mem_nil, false_implies, implies_true, and_true]
  exact ⟨⟨1, by decide, by decide⟩, ⟨2, by decide, by decide⟩, trivial, trivial,
    (by decide : (9 : UInt64).toNat < 2 ^ 64 - 1)⟩

/-- **The code does not refine the suffix**: of four held entries an import at the last keeps none
of the three below it. -/
theorem not_refinesAlong_last_cut : ¬∀ (o : UInt64) (ops : List VolatileOp),
    o.toNat < 2 ^ 64 - 1 → (∀ op ∈ ops, op.WellNumbered) → RefinesAlong o ops := by
  intro hall
  have hrun := (hall 1 [.append [⟨1, 1, .entryNormal, []⟩, ⟨2, 1, .entryNormal, []⟩,
      ⟨3, 1, .entryNormal, []⟩, ⟨4, 1, .entryNormal, []⟩] 0,
    .append [⟨4, 2, .entryNormal, []⟩] 0] (by decide) (by
      simp only [List.forall_mem_cons, List.not_mem_nil, false_implies, implies_true, and_true]
      exact ⟨⟨1, by decide, by decide⟩, ⟨4, by decide, by decide⟩⟩)).2
  have hcut := (hrun.2 _ rfl).1
  revert hcut
  decide

end RaftCore
