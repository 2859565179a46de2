import RaftCore.Machinery.Word64
import RaftCore.Model.Protocol

/-!
# Model/MemoryStorage — the storage a log is built over

`memory_storage.cpp`: a snapshot, a hard state, and the entries from the snapshot point on.  The
constructor and `ApplySnapshot` are the only functions that write the entries, and each leaves the
single dummy entry that marks the snapshot point, so the record carries that as a field
(`entries_eq`).  No function writes the hard state; a storage is taken with any.
-/

namespace RaftCore

/-- The entry that marks the snapshot point. -/
def dummyEntry : Option Snapshot → Entry
  | none => {}
  | some s => { index := s.snapshotMetadata.index, term := s.snapshotMetadata.term }

structure MemoryStorage where
  snapshot : Option Snapshot := none
  hardState : HardState := {}
  entries : List Entry := [dummyEntry snapshot]
  entries_eq : entries = [dummyEntry snapshot] := by rfl

namespace MemoryStorage

def getHardState (st : MemoryStorage) : HardState := st.hardState

def getConfState (st : MemoryStorage) : ConfState :=
  match st.snapshot with
  | none => {}
  | some s => s.snapshotMetadata.confState

def applySnapshot (st : MemoryStorage) (snapshot : Snapshot) : Bool × MemoryStorage :=
  let older := match st.snapshot with
    | none => false
    | some s => decide (snapshot.snapshotMetadata.index < s.snapshotMetadata.index)
  if older then (false, st)
  else (true, { snapshot := some snapshot, hardState := st.hardState })

/-- `m_entries[0]`. -/
def front (st : MemoryStorage) : Entry := st.entries.head (by simp [st.entries_eq])

def firstIndex (st : MemoryStorage) : UInt64 := st.front.index + 1

def lastIndex (st : MemoryStorage) : UInt64 := st.front.index + UInt64.ofNat st.entries.length - 1

def termOf (st : MemoryStorage) (index : UInt64) : Option UInt64 :=
  let offset := st.front.index
  if index < offset then none
  else if UInt64.ofNat st.entries.length ≤ index - offset then none
  else st.entries[(index - offset).toNat]?.map Entry.term

/-! ## The storage is its snapshot point -/

theorem front_eq (st : MemoryStorage) : st.front = dummyEntry st.snapshot := by
  simp [front, st.entries_eq]

theorem entries_eq_front (st : MemoryStorage) : st.entries = [st.front] := by
  rw [front_eq, st.entries_eq]

theorem lastIndex_eq (st : MemoryStorage) : st.lastIndex = st.front.index := by
  rw [lastIndex, entries_eq_front]
  exact Word64.add_one_sub_one _

theorem firstIndex_sub_one (st : MemoryStorage) : st.firstIndex - 1 = st.front.index :=
  Word64.add_one_sub_one _

/-- **The storage answers at the snapshot point and nowhere else.** -/
theorem termOf_eq (st : MemoryStorage) (index : UInt64) :
    st.termOf index = if index = st.front.index then some st.front.term else none := by
  by_cases h : index = st.front.index
  · subst h
    simp [termOf, entries_eq_front]
  · have hne : index.toNat ≠ st.front.index.toNat := fun he => h (Word64.eq_of_toNat he)
    simp only [termOf, entries_eq_front, List.length_singleton, if_neg h]
    rcases Nat.lt_or_ge index.toNat st.front.index.toNat with hlt | hge
    · rw [if_pos (UInt64.lt_iff_toNat_lt.mpr hlt)]
    · have hle : st.front.index ≤ index := UInt64.le_iff_toNat_le.mpr hge
      rw [if_neg (UInt64.not_lt.mpr hle), if_pos]
      rw [UInt64.le_iff_toNat_le, UInt64.toNat_sub_of_le _ _ hle]
      change 1 ≤ _
      omega

/-- **A snapshot that is not older becomes the snapshot point.** -/
theorem applySnapshot_front {st : MemoryStorage} {s : Snapshot}
    (h : st.front.index ≤ s.snapshotMetadata.index) :
    (st.applySnapshot s).2.front = dummyEntry (some s) := by
  rw [front_eq] at h
  rw [front_eq, applySnapshot]
  cases hold : st.snapshot with
  | none => rfl
  | some old =>
    rw [hold] at h
    simp [UInt64.not_lt.mpr (show old.snapshotMetadata.index ≤ s.snapshotMetadata.index from h)]

end MemoryStorage

end RaftCore
