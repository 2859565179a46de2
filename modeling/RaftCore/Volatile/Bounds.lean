import RaftCore.Volatile.Refinement

/-!
# Volatile/Bounds — which calls stay inside the held entries

A position in the deque is computed by subtracting indexes, so it is a position exactly as long as
the held entries are numbered from `offset` on.  Here the numbers may wrap (`Consecutive`), and a
batch may start anywhere.  Three things can go wrong:

* an import cuts the held entries at the wrong place, and the numbers no longer run on (`CutsRight`
  says which imports do not);
* an import beyond an empty suffix asks for the last of no entries;
* an acknowledgement of the snapshot's own index over an empty suffix asks for both ends.

While every import cuts right, the last two are the only accesses outside the deque
(`inBounds_iff`).
-/

namespace RaftCore

open Window Runs

/-! ## The calls -/

/-- One call on a volatile state: an operation or a reading. -/
inductive VolatileCall where
  | op (op : VolatileOp)
  | termOf (index : UInt64)
  | lastIndex

/-- Batches are numbered contiguously, from any index. -/
def VolatileCall.Contiguous : VolatileCall → Prop
  | .op (.append entries _) => ∃ b, Wrapping Entry.index b entries
  | _ => True

namespace VolatileState

def call (v : VolatileState) : VolatileCall → Outcome VolatileState
  | .op op => v.step op
  | .termOf index => (v.termOf index).map fun _ => v
  | .lastIndex => (Except.ok v.lastIndex).map fun _ => v

def nextCall (v : VolatileState) (c : VolatileCall) : Option VolatileState := (v.call c).toOption

/-- **Every access of the call is inside the deque.** -/
def InBounds (v : VolatileState) (c : VolatileCall) : Prop :=
  ∀ access, v.call c ≠ .error (.undefined access)

/-- The call does not ask for an end of an empty deque. -/
def FindsEnds (v : VolatileState) : VolatileCall → Prop
  | .op (.append entries offset) => v.entries = [] →
      ∀ first ∈ firstImported entries offset, first.index ≤ v.offset
  | .op (.clearEntriesBefore index term) => ¬(v.entries = [] ∧ v.snapshotTerm index = some term)
  | _ => True

/-- An import starts at or before the held entries, right after them, beyond them, or where as many
of them lie below it as after it. -/
def CutsRight (v : VolatileState) : VolatileCall → Prop
  | .op (.append entries offset) => ∀ first ∈ firstImported entries offset,
      first.index ≤ v.offset ∨ first.index = v.offset + UInt64.ofNat v.entries.length ∨
        ∀ last ∈ v.entries.getLast?,
          last.index < first.index ∨ last.index - first.index = first.index - v.offset
  | _ => True

instance (v : VolatileState) : ∀ c : VolatileCall, Decidable (v.FindsEnds c)
  | .op (.append _ _) => inferInstanceAs (Decidable (_ → _))
  | .op (.clearEntriesBefore _ _) => inferInstanceAs (Decidable (¬_))
  | .op (.clearSnapshot _) | .op (.load _) | .termOf _ | .lastIndex => isTrue trivial

instance (v : VolatileState) : ∀ c : VolatileCall, Decidable (v.CutsRight c)
  | .op (.append entries offset) =>
    inferInstanceAs (Decidable (∀ first ∈ firstImported entries offset, _ ∨ _ ∨ _))
  | .op (.clearEntriesBefore _ _) | .op (.clearSnapshot _) | .op (.load _) | .termOf _
  | .lastIndex => isTrue trivial

/-! ## One call -/

variable {v v' : VolatileState}

theorem Consecutive.inBounds_append (h : v.Consecutive) (entries : List Entry) (offset : UInt64) :
    v.InBounds (.op (.append entries offset)) ↔ v.FindsEnds (.op (.append entries offset)) := by
  rw [InBounds, call, step, FindsEnds]
  cases hfirst : firstImported entries offset with
  | none =>
    rw [append_of_not_imported hfirst]
    refine iff_of_true ?_ fun _ first hmem => absurd hmem (Option.not_mem_none first)
    rintro access ⟨⟩
  | some first =>
    rw [h.append_eq hfirst]
    by_cases hnil : v.entries = []
    swap
    · rw [List.getLast?_eq_some_getLast hnil]
      refine iff_of_true ?_ fun hc => absurd hc hnil
      dsimp only
      repeat' split
      all_goals
        intro access hc
        cases hc
    simp only [hnil, List.getLast?_nil, List.length_nil, Option.mem_some_iff, forall_const,
      forall_eq']
    split
    · rename_i hend
      refine iff_of_true ?_ (UInt64.le_of_eq (by simpa using hend.symm))
      rintro access ⟨⟩
    · split
      · rename_i hlow
        refine iff_of_true ?_ hlow
        rintro access ⟨⟩
      · rename_i hlow
        exact iff_of_false (fun hc => hc _ rfl) hlow

/-- A cut at the middle keeps what is below the import. -/
theorem Consecutive.cut (h : v.Consecutive) {last : Entry} {first : UInt64} {income : List Entry}
    (hlast : v.entries.getLast? = some last) (hoff : v.offset ≤ first) (hle : first ≤ last.index)
    (hmid : last.index - first = first - v.offset) (hincome : Wrapping Entry.index first income) :
    Wrapping Entry.index v.offset (v.entries.take (last.index - first).toNat ++ income) := by
  have hne : v.entries ≠ [] := fun hnil => by simp [hnil] at hlast
  obtain rfl : v.entries.getLast hne = last := by
    simpa [List.getLast?_eq_some_getLast hne] using hlast
  have hpos := Wrapping.sub_lt_length h hne hoff hle
  rw [hmid]
  refine Wrapping.append (Wrapping.take h _) ?_
  rwa [List.length_take, Nat.min_eq_left hpos.le, UInt64.ofNat_toNat, UInt64.add_comm,
    UInt64.sub_add_cancel]

/-- **An import that cuts right keeps the numbers running.** -/
theorem Consecutive.append (h : v.Consecutive) {entries : List Entry} {offset b : UInt64}
    (hb : Wrapping Entry.index b entries) (hcut : v.CutsRight (.op (.append entries offset)))
    (happ : v.append entries offset = .ok v') : v'.Consecutive := by
  cases hfirst : firstImported entries offset with
  | none =>
    rw [append_of_not_imported hfirst] at happ
    obtain rfl := Except.ok.inj happ
    exact h
  | some first =>
    have hincome : Wrapping Entry.index first.index (entries.drop offset.toNat) := by
      rw [hb _ _ (firstImported_eq_some.mp hfirst).2]
      exact hb.drop _
    rw [h.append_eq hfirst] at happ
    split at happ
    · rename_i hend
      obtain rfl := Except.ok.inj happ
      exact Wrapping.append h (hend ▸ hincome)
    rename_i hend
    split at happ
    · obtain rfl := Except.ok.inj happ
      exact hincome
    rename_i hlow
    cases hlast : v.entries.getLast? with
    | none =>
      rw [hlast] at happ
      cases happ
    | some last =>
      simp only [hlast] at happ
      split at happ
      · cases happ
      rename_i hgap
      obtain rfl := Except.ok.inj happ
      have hmid : last.index - first.index = first.index - v.offset := by
        rcases hcut first hfirst with h1 | h1 | h1
        · exact absurd h1 hlow
        · exact absurd h1.symm hend
        · exact (h1 last hlast).resolve_left hgap
      exact h.cut hlast (UInt64.le_of_lt (UInt64.not_le.mp hlow)) (UInt64.not_lt.mp hgap) hmid
        hincome

/-- An acknowledgement that removes leaves the numbers running. -/
theorem Consecutive.clearEntriesBefore (h : v.Consecutive) {index term : UInt64} {b : Bool}
    (hclear : v.clearEntriesBefore index term = .ok (b, v')) : v'.Consecutive := by
  rw [h.clearEntriesBefore_eq] at hclear
  split_ifs at hclear
  · obtain ⟨-, rfl⟩ := Prod.mk.inj (Except.ok.inj hclear)
    have hdrop := Wrapping.drop h (index - v.offset + 1).toNat
    rwa [UInt64.ofNat_toNat, ← UInt64.add_assoc, UInt64.add_comm v.offset,
      UInt64.sub_add_cancel] at hdrop
  · obtain ⟨-, rfl⟩ := Prod.mk.inj (Except.ok.inj hclear)
    exact h

theorem Consecutive.inBounds_clearEntriesBefore (h : v.Consecutive) (index term : UInt64) :
    v.InBounds (.op (.clearEntriesBefore index term)) ↔
      v.FindsEnds (.op (.clearEntriesBefore index term)) := by
  rw [InBounds, call, step, FindsEnds, h.clearEntriesBefore_eq]
  split_ifs with hends
  · exact iff_of_false (fun hc => hc _ rfl) (not_not.mpr hends)
  all_goals
    refine iff_of_true ?_ hends
    rintro access ⟨⟩

/-- **A call stays inside the deque exactly when it does not ask for an end that is not there.** -/
theorem Consecutive.inBounds_call (h : v.Consecutive) (c : VolatileCall) :
    v.InBounds c ↔ v.FindsEnds c := by
  match c with
  | .op (.append entries offset) => exact h.inBounds_append entries offset
  | .op (.clearEntriesBefore index term) => exact h.inBounds_clearEntriesBefore index term
  | .op (.clearSnapshot _) | .op (.load _) | .lastIndex => exact iff_of_true nofun trivial
  | .termOf index =>
    rw [InBounds, call, h.termOf_eq]
    exact iff_of_true nofun trivial

/-- **A call that cuts right keeps the numbers running.** -/
theorem Consecutive.nextCall (h : v.Consecutive) {c : VolatileCall} (hc : c.Contiguous)
    (hcut : v.CutsRight c) (hs : v.nextCall c = some v') : v'.Consecutive := by
  have hok := Outcome.toOption_eq_some.mp hs
  match c with
  | .op (.append entries offset) =>
    obtain ⟨b, hb⟩ := hc
    exact h.append hb hcut hok
  | .op (.clearEntriesBefore index term) =>
    obtain ⟨⟨b, v₁⟩, hclear, rfl⟩ := Outcome.map_eq_ok.mp hok
    exact h.clearEntriesBefore hclear
  | .op (.clearSnapshot index) =>
    obtain rfl := Except.ok.inj hok
    rw [clearSnapshot]
    split
    · exact h
    · split
      · exact h
      · exact h
  | .op (.load snapshot) =>
    obtain rfl := Except.ok.inj hok
    exact wrapping_nil
  | .termOf index =>
    obtain ⟨-, -, rfl⟩ := Outcome.map_eq_ok.mp hok
    exact h
  | .lastIndex =>
    obtain rfl := Except.ok.inj hok
    exact h

/-! ## Runs -/

theorem consecutive_start (o : UInt64) : (start o).Consecutive := wrapping_nil

/-- **While every import cuts right, the accesses outside the deque are those to an end of an empty
one.** -/
theorem inBounds_iff {o : UInt64} {calls : List VolatileCall}
    (hcalls : ∀ c ∈ calls, c.Contiguous) (hcut : Along nextCall CutsRight (start o) calls) :
    Along nextCall InBounds (start o) calls ↔ Along nextCall FindsEnds (start o) calls := by
  have hboth : Along nextCall (fun v c => c.Contiguous ∧ v.CutsRight c) (start o) calls :=
    along_and.mpr ⟨along_of_forall hcalls, hcut⟩
  exact along_congr_of_inv (fun _ _ _ h hq hs => Consecutive.nextCall h hq.1 hq.2 hs)
    (fun _ c h _ => h.inBounds_call c) (consecutive_start o) hboth

/-- A run over the end of the range, to its end: the entry before the last number acknowledged, the
entries numbered on from 0 and replaced, a snapshot loaded, followed by an entry, and cleared once
that is acknowledged. -/
theorem inBounds_wrapped :
    let calls : List VolatileCall :=
      [.op (.append [⟨18446744073709551614, 1, .entryNormal, []⟩,
          ⟨18446744073709551615, 1, .entryNormal, []⟩] 0),
        .termOf 18446744073709551615, .op (.clearEntriesBefore 18446744073709551614 1),
        .op (.append [⟨0, 1, .entryNormal, []⟩, ⟨1, 1, .entryNormal, []⟩] 0), .lastIndex,
        .op (.append [⟨18446744073709551615, 2, .entryNormal, []⟩, ⟨0, 2, .entryNormal, []⟩] 0),
        .op (.load (some ⟨⟨⟨[], []⟩, 9, 2⟩, []⟩)), .termOf 9,
        .op (.append [⟨10, 2, .entryNormal, []⟩] 0), .op (.clearEntriesBefore 10 2),
        .op (.clearSnapshot 9)]
    final? nextCall (start 18446744073709551614) calls = some ⟨none, [], 11⟩ ∧
      Along nextCall InBounds (start 18446744073709551614) calls := by
  refine ⟨rfl, (inBounds_iff ?_ (by decide)).mpr (by decide)⟩
  simp only [List.forall_mem_cons, List.not_mem_nil, false_implies, implies_true, and_true]
  exact ⟨⟨18446744073709551614, by decide⟩, trivial, trivial, ⟨0, by decide⟩, trivial,
    ⟨18446744073709551615, by decide⟩, trivial, trivial, ⟨10, by decide⟩, trivial, trivial⟩

/-- **The calls do leave the deque**: acknowledging a snapshot just loaded, importing beyond an
empty suffix, and reading after a cut that kept one entry of the three below it. -/
theorem not_inBounds :
    ¬Along nextCall InBounds (start 1)
        [.op (.load (some ⟨⟨⟨[], []⟩, 5, 2⟩, []⟩)), .op (.clearEntriesBefore 5 2)] ∧
      ¬Along nextCall InBounds (start 1) [.op (.append [⟨3, 1, .entryNormal, []⟩] 0)] ∧
      ¬Along nextCall InBounds (start 1)
        [.op (.append [⟨1, 1, .entryNormal, []⟩, ⟨2, 1, .entryNormal, []⟩,
            ⟨3, 1, .entryNormal, []⟩, ⟨4, 1, .entryNormal, []⟩, ⟨5, 1, .entryNormal, []⟩] 0),
          .op (.append [⟨4, 2, .entryNormal, []⟩] 0), .termOf 4] :=
  ⟨fun h => (h.2 _ rfl).1 _ rfl, fun h => h.1 _ rfl, fun h => ((h.2 _ rfl).2 _ rfl).1 _ rfl⟩

end VolatileState

end RaftCore
