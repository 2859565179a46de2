import RaftCore.Machinery.Latest
import RaftCore.Model.MemoryStorage

/-!
# Log/Storage — the snapshots a storage is given

`ApplySnapshot` takes a snapshot that is not older than the one before, so a storage is a register
that keeps the latest (`applyAll_snapshot`).  Whatever it is given, in whatever order, it ends at
the highest index, and takes a further snapshot exactly when that is not below it
(`applyAll_spec`); and two runs of the same snapshots end alike (`applyAll_congr`).
-/

namespace RaftCore

namespace MemoryStorage

/-- The index of a snapshot; not having one is below them all. -/
def snapshotKey : Option Snapshot → WithBot ℕ
  | none => ⊥
  | some s => WithBot.some s.snapshotMetadata.index.toNat

/-- The snapshot is not older than the one there is. -/
def Takes (old new : Option Snapshot) : Prop := snapshotKey old ≤ snapshotKey new

instance : DecidableRel Takes :=
  fun old new => inferInstanceAs (Decidable (snapshotKey old ≤ snapshotKey new))

/-- `ApplySnapshot`, time and again. -/
def applyAll (st : MemoryStorage) (ss : List Snapshot) : MemoryStorage :=
  ss.foldl (fun st s => (st.applySnapshot s).2) st

variable {st st' : MemoryStorage} {ss ss' : List Snapshot} {s : Snapshot}

theorem ranks_takes : Ranks snapshotKey Takes := ⟨fun h => h, fun h => (not_le.mp h).le⟩

/-- A storage is its snapshot and its hard state. -/
theorem eq_of_snapshot (hsnapshot : st.snapshot = st'.snapshot)
    (hhard : st.hardState = st'.hardState) : st = st' := by
  obtain ⟨snapshot, hard, entries, hentries⟩ := st
  obtain ⟨snapshot', hard', entries', hentries'⟩ := st'
  obtain rfl : snapshot = snapshot' := hsnapshot
  obtain rfl : hard = hard' := hhard
  obtain rfl : entries = entries' := hentries.trans hentries'.symm
  rfl

/-- **`ApplySnapshot` is the offer of a snapshot.** -/
theorem applySnapshot_spec (st : MemoryStorage) (s : Snapshot) :
    ((st.applySnapshot s).1 = true ↔ Takes st.snapshot (some s)) ∧
      (st.applySnapshot s).2.snapshot
        = (if Takes st.snapshot (some s) then some s else st.snapshot) ∧
      (st.applySnapshot s).2.hardState = st.hardState := by
  rw [applySnapshot]
  cases hold : st.snapshot with
  | none =>
    have htakes : Takes none (some s) := bot_le
    rw [if_pos htakes]
    exact ⟨iff_of_true rfl htakes, rfl, rfl⟩
  | some old =>
    have hiff : s.snapshotMetadata.index < old.snapshotMetadata.index ↔
        ¬Takes (some old) (some s) := by
      rw [Takes, snapshotKey, snapshotKey, WithBot.coe_le_coe, not_le, UInt64.lt_iff_toNat_lt]
    by_cases holder : s.snapshotMetadata.index < old.snapshotMetadata.index
    · rw [if_neg (hiff.mp holder)]
      simp only [holder, decide_true, if_true]
      exact ⟨iff_of_false Bool.false_ne_true (hiff.mp holder), hold, trivial⟩
    · have htakes := not_not.mp (mt hiff.mpr holder)
      rw [if_pos htakes]
      simp only [holder, decide_false]
      exact ⟨iff_of_true rfl htakes, rfl, rfl⟩

theorem applyAll_concat (st : MemoryStorage) (ss : List Snapshot) (s : Snapshot) :
    st.applyAll (ss ++ [s]) = ((st.applyAll ss).applySnapshot s).2 :=
  List.foldl_concat ..

/-- **A storage keeps the latest snapshot**, and its hard state. -/
theorem applyAll_snapshot (st : MemoryStorage) (ss : List Snapshot) :
    (st.applyAll ss).snapshot = latest Takes st.snapshot (ss.map some) ∧
      (st.applyAll ss).hardState = st.hardState := by
  induction ss using List.reverseRecOn with
  | nil => exact ⟨rfl, rfl⟩
  | append_singleton ss s ih =>
    obtain ⟨-, hsnapshot, hhard⟩ := applySnapshot_spec (st.applyAll ss) s
    rw [applyAll_concat, List.map_append, List.map_singleton, latest_concat, hsnapshot, hhard, ih.1]
    exact ⟨rfl, ih.2⟩

/-- The last index of a storage is that of its snapshot, or 0. -/
theorem lastIndex_eq_key (st : MemoryStorage) :
    st.lastIndex.toNat = (snapshotKey st.snapshot).unbotD 0 := by
  rw [lastIndex_eq, front_eq]
  cases st.snapshot <;> rfl

theorem takes_iff (st : MemoryStorage) (s : Snapshot) :
    Takes st.snapshot (some s) ↔ st.lastIndex ≤ s.snapshotMetadata.index := by
  rw [UInt64.le_iff_toNat_le, lastIndex_eq_key]
  cases st.snapshot with
  | none => exact iff_of_true bot_le (Nat.zero_le _)
  | some old => exact WithBot.coe_le_coe

/-- **A storage ends at the highest index it was given**, and takes a snapshot exactly when none
before it, the first one included, was above it. -/
theorem applyAll_spec (st : MemoryStorage) (ss : List Snapshot) :
    IsGreatest {n | n = st.lastIndex.toNat ∨ ∃ s ∈ ss, n = s.snapshotMetadata.index.toNat}
        (st.applyAll ss).lastIndex.toNat ∧
      ∀ s, ((st.applyAll ss).applySnapshot s).1 = true ↔
        st.lastIndex ≤ s.snapshotMetadata.index ∧
          ∀ s' ∈ ss, s'.snapshotMetadata.index ≤ s.snapshotMetadata.index := by
  have hgreatest : IsGreatest
      {n | n = st.lastIndex.toNat ∨ ∃ s ∈ ss, n = s.snapshotMetadata.index.toNat}
      (st.applyAll ss).lastIndex.toNat := by
    have hmono : ∀ {x y : WithBot ℕ}, x ≤ y → x.unbotD 0 ≤ y.unbotD 0 := fun {x y} h =>
      (WithBot.unbotD_le_iff fun _ => Nat.zero_le _).mpr (h.trans (WithBot.le_coe_unbotD y 0))
    obtain ⟨hin, hup⟩ := ranks_takes.isGreatest_latest st.snapshot (ss.map some)
    rw [← (st.applyAll_snapshot ss).1] at hin hup
    rw [lastIndex_eq_key (st.applyAll ss), lastIndex_eq_key st]
    refine ⟨?_, ?_⟩
    · obtain ⟨b, hb, hkey⟩ := hin
      rw [hkey]
      rcases List.mem_cons.mp hb with rfl | hb
      · exact .inl rfl
      · obtain ⟨s, hs, rfl⟩ := List.mem_map.mp hb
        exact .inr ⟨s, hs, rfl⟩
    · rintro n (rfl | ⟨s, hs, rfl⟩)
      · exact hmono (hup ⟨_, List.mem_cons_self, rfl⟩)
      · exact hmono (hup ⟨some s, List.mem_cons_of_mem _ (List.mem_map_of_mem hs), rfl⟩)
  refine ⟨hgreatest, fun s => ?_⟩
  obtain ⟨hin, hup⟩ := hgreatest
  rw [(applySnapshot_spec _ s).1, takes_iff]
  constructor
  · intro hle
    refine ⟨?_, fun s' hs' => ?_⟩
    · exact UInt64.le_iff_toNat_le.mpr ((hup (.inl rfl)).trans (UInt64.le_iff_toNat_le.mp hle))
    · exact UInt64.le_iff_toNat_le.mpr
        ((hup (.inr ⟨s', hs', rfl⟩)).trans (UInt64.le_iff_toNat_le.mp hle))
  · rintro ⟨hstart, hall⟩
    rw [UInt64.le_iff_toNat_le]
    rcases hin with heq | ⟨s', hs', heq⟩
    · exact heq.le.trans (UInt64.le_iff_toNat_le.mp hstart)
    · exact heq.le.trans (UInt64.le_iff_toNat_le.mp (hall s' hs'))

/-- **The same snapshots, in any order and number, leave the same storage**, where an index belongs
to one snapshot only. -/
theorem applyAll_congr (hsame : ∀ s, s ∈ ss ↔ s ∈ ss')
    (hindex : ∀ s s', s ∈ ss ∨ st.snapshot = some s → s' ∈ ss ∨ st.snapshot = some s' →
      s.snapshotMetadata.index = s'.snapshotMetadata.index → s = s') :
    st.applyAll ss = st.applyAll ss' := by
  obtain ⟨hsnapshot, hhard⟩ := st.applyAll_snapshot ss
  obtain ⟨hsnapshot', hhard'⟩ := st.applyAll_snapshot ss'
  refine eq_of_snapshot (hsnapshot.trans (.trans ?_ hsnapshot'.symm)) (hhard.trans hhard'.symm)
  refine ranks_takes.latest_congr (fun b => ?_) ?_
  · rw [List.mem_cons, List.mem_cons, List.mem_map, List.mem_map]
    exact or_congr_right (exists_congr fun s => and_congr_left' (hsame s))
  · have hgiven : ∀ s, some s ∈ st.snapshot :: ss.map some → s ∈ ss ∨ st.snapshot = some s := by
      intro s hs
      rcases List.mem_cons.mp hs with heq | hs
      · exact .inr heq.symm
      · obtain ⟨s', hs', heq⟩ := List.mem_map.mp hs
        exact .inl (Option.some.inj heq ▸ hs')
    intro b hb b' hb' hkey
    match b, b', hkey with
    | none, none, _ => rfl
    | some s, some s', hkey =>
      have hnat := WithBot.coe_injective hkey
      exact congrArg some (hindex s s' (hgiven s hb) (hgiven s' hb') (Word64.eq_of_toNat hnat))

/-- Two snapshots, either way round and once more. -/
theorem applyAll_congr_two :
    let early : Snapshot := { snapshotMetadata := { index := 3, term := 1 } }
    let late : Snapshot := { snapshotMetadata := { index := 5, term := 2 } }
    ({} : MemoryStorage).applyAll [late, early] = applyAll {} [early, late, early] := by
  refine applyAll_congr (fun s => ?_) ?_
  · simp
    tauto
  · rintro s s' hs hs' hindex
    simp only [List.mem_cons, List.not_mem_nil, or_false, reduceCtorEq] at hs hs'
    rcases hs with rfl | rfl <;> rcases hs' with rfl | rfl <;> first | rfl | cases hindex

end MemoryStorage

end RaftCore
