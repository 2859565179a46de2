import RaftCore.Log.Splice
import RaftCore.Machinery.Agreement

/-!
# Log/Matching — replicas whose logs agree

A cluster of logs over one snapshot point.  A log creates an entry at its own end, under a pair of
index and term no entry had before; a log sends a slice of what it holds; any message ever sent may
reach any log, late, twice, in any order or never (`Cluster.step`).

The words a cluster has ever held — the cells of its logs and of the senders of its messages — stay
`Agreement.Coherent` under the term.  Creation extends a word by a fresh element; and an append
whose import lands right, and not after the conflict, leaves its receiver with a word of the sender,
cut short (`Aligned.adopted`).  Hence logs that hold the same term somewhere hold the same entries
up to there (`logMatching_along`).
-/

namespace RaftCore

open Window Runs

namespace RaftLog

variable {log log' : RaftLog} {c : AppendCall} {b : Bool}

/-- **The call carries a slice of this log**: the term at its predecessor, and the entries after
it. -/
def HoldsSlice (log : RaftLog) (c : AppendCall) : Prop :=
  (log.termOf c.lastIndex).toOption = some (some c.lastTerm) ∧
    c.lastIndex.toNat + c.ents.length < 2 ^ 64 ∧
    ∀ k < c.ents.length, c.ents[k]? = log.entryAt (c.lastIndex + UInt64.ofNat (k + 1))

instance (log : RaftLog) (c : AppendCall) : Decidable (log.HoldsSlice c) :=
  inferInstanceAs (Decidable (_ ∧ _ ∧ _))

/-- The import does not start after the conflict, as it could after the passage through `int`. -/
def StartsByConflict (log : RaftLog) (c : AppendCall) : Prop :=
  ∀ p ∈ log.imports c, p.2.num ≤ p.1.toNat

instance (log : RaftLog) (c : AppendCall) : Decidable (log.StartsByConflict c) :=
  inferInstanceAs (Decidable (∀ p ∈ log.imports c, p.2.num ≤ p.1.toNat))

/-- Two logs hold the same entries up to an index, from the snapshot point on. -/
def MatchUpTo (a b : RaftLog) (i : UInt64) : Prop :=
  ∀ j ≤ i, a.entryAt j = b.entryAt j ∧ (a.firstIndex - 1 ≤ j → (a.entryAt j).isSome)

end RaftLog

/-- The logs, the pairs of index and term used so far, and the messages sent so far. -/
structure Cluster (ι : Type) where
  logs : ι → RaftLog
  used : List (UInt64 × UInt64) := []
  sent : List AppendCall := []

inductive ClusterEvent (ι : Type) where
  | create (a : ι) (ent : Entry)
  | send (a : ι) (c : AppendCall)
  | deliver (a : ι) (c : AppendCall)

namespace Cluster

variable {ι : Type} [DecidableEq ι]

def ofStorages (storages : ι → MemoryStorage) : Cluster ι where
  logs a := RaftLog.ofStorage (storages a)

/-- **One step of the cluster.**  A message stays in `sent` when it is delivered. -/
def step (s : Cluster ι) : ClusterEvent ι → Option (Cluster ι)
  | .create a ent =>
    if ent.index = (s.logs a).lastIndex + 1 ∧ (ent.index, ent.term) ∉ s.used then
      ((s.logs a).appendToVolatileState .debug [ent] 0).toOption.map fun r => { s with
        logs := Function.update s.logs a r.2
        used := (ent.index, ent.term) :: s.used }
    else none
  | .send a c => if (s.logs a).HoldsSlice c then some { s with sent := c :: s.sent } else none
  | .deliver a c =>
    if c ∈ s.sent then
      ((s.logs a).next c).map fun log => { s with logs := Function.update s.logs a log }
    else none

/-- What a delivery needs for its receiver to stay a word of the cluster. -/
def DeliversRight (s : Cluster ι) : ClusterEvent ι → Prop
  | .deliver a c => (s.logs a).SplicesRight c ∧ (s.logs a).StartsByConflict c
  | _ => True

instance (s : Cluster ι) : ∀ e, Decidable (s.DeliversRight e)
  | .create _ _ => isTrue trivial
  | .send _ _ => isTrue trivial
  | .deliver _ _ => inferInstanceAs (Decidable (_ ∧ _))

/-- **Log matching**: logs that hold the same term at an index hold the same entries up to it. -/
def LogMatching (s : Cluster ι) : Prop :=
  ∀ a b i term, (s.logs a).termOf i = .ok (some term) → (s.logs b).termOf i = .ok (some term) →
    (s.logs a).MatchUpTo (s.logs b) i

end Cluster

/-! ## Slices of a word -/

/-- The call carries a slice of a word numbered from `base`, after the entry at its predecessor. -/
def AppendCall.SliceOf (base : ℕ) (word : List Entry) (c : AppendCall) : Prop :=
  ∃ n prev, c.lastIndex.toNat = base + n ∧ word[n]? = some prev ∧ prev.term = c.lastTerm ∧
    c.ents = (word.drop (n + 1)).take c.ents.length

theorem AppendCall.SliceOf.numbered {base : ℕ} {word : List Entry} {c : AppendCall}
    (h : c.SliceOf base word) (hw : Window.Numbered Entry.num base word) : c.Numbered := by
  obtain ⟨n, prev, hn, hprev, -, hents⟩ := h
  have hlen := (List.getElem?_eq_some_iff.mp hprev).1
  rw [AppendCall.Numbered, hents, hn, Nat.add_assoc]
  exact (hw.drop hlen).take _

namespace RaftLog

variable {log log' : RaftLog} {c : AppendCall} {b : Bool}

/-- **What an aligned log sends is a slice of its cells.** -/
theorem Aligned.sliceOf (ha : log.Aligned) (h : log.HoldsSlice c) :
    c.SliceOf log.base log.cells := by
  obtain ⟨hterm, hlt, hents⟩ := h
  rw [ha.termOf_eq] at hterm
  obtain ⟨prev, hprev, hpt⟩ := Option.map_eq_some_iff.mp (Option.some.inj hterm)
  have hbase := (lookup_eq_some hprev).1
  rw [lookup_of_le _ hbase] at hprev
  refine ⟨c.lastIndex.toNat - log.base, prev, by omega, hprev, hpt, List.ext_getElem? fun k => ?_⟩
  rcases Nat.lt_or_ge k c.ents.length with hk | hk
  · rw [hents k hk, ha.entryAt_eq, Word64.toNat_add_ofNat (by omega), lookup_of_le _ (by omega),
      List.getElem?_take_of_lt hk, List.getElem?_drop]
    congr 1
    omega
  · rw [List.getElem?_eq_none hk, List.getElem?_eq_none (by rw [List.length_take]; omega)]

/-- The last entry an import keeps has the term the sender's word has there: it is the predecessor,
or the batch's entry before the import. -/
theorem Conflict.last_kept {conflict : UInt64} {head first prev : Entry}
    (hc : Conflict log .debug c conflict head) (ha : log.Aligned) (hnum : c.Numbered)
    {word : List Entry} {n off : ℕ} (hn : c.lastIndex.toNat = log.base + n)
    (hprev : word[n]? = some prev) (hpt : prev.term = c.lastTerm)
    (hget : ∀ j ent, c.ents[j]? = some ent → word[n + 1 + j]? = some ent)
    (hfirst : c.ents[off]? = some first) (hle : first.num ≤ conflict.toNat) :
    ∃ y, word[n + off]? = some y ∧ log.HoldsAt (log.base + (n + off)) y.term := by
  rcases Nat.eq_zero_or_pos off with rfl | hpos
  · refine ⟨prev, hprev, ?_⟩
    rw [hpt, Nat.add_zero, ← hn]
    exact ha.matchAt_eq_true.mp hc.matched
  · obtain ⟨k, ent, hk, rfl, -, hbelow, -, -⟩ := hc.position ha hnum
    have hent : ent.num = c.lastIndex.toNat + 1 + k := hnum.getElem? hk
    have hidx : first.num = c.lastIndex.toNat + 1 + off := hnum.getElem? hfirst
    have hlt := (List.getElem?_eq_some_iff.mp hfirst).1
    have hlast : c.ents[off - 1]? = some c.ents[off - 1] := List.getElem?_eq_getElem (by omega)
    have hln : (c.ents[off - 1]).num = c.lastIndex.toNat + 1 + (off - 1) := hnum.getElem? hlast
    -- the import starts by the conflict, so the entry before it is held
    have hoffk : off ≤ k := by
      rw [Entry.num] at hent
      omega
    have hheld := hbelow (off - 1) (by omega) _ hlast
    have hw := hget _ _ hlast
    rw [show n + 1 + (off - 1) = n + off by omega] at hw
    refine ⟨_, hw, ?_⟩
    rwa [hln, show c.lastIndex.toNat + 1 + (off - 1) = log.base + (n + off) by omega] at hheld

/-- **The receiver of a slice ends up with the sender's word, cut short**, when the import starts
no later than the conflict. -/
theorem Aligned.adopted (ha : log.Aligned) {W : Set (List Entry)}
    (hW : Agreement.Coherent Entry.term W) (hcells : log.cells ∈ W) {word : List Entry}
    (hword : word ∈ W) (hnw : Window.Numbered Entry.num log.base word)
    (hslice : c.SliceOf log.base word) {conflict : UInt64} {head first : Entry}
    (hc : Conflict log .debug c conflict head)
    (hfirst : c.ents[(importOffset head conflict).toNat]? = some first)
    (hle : first.num ≤ conflict.toNat) :
    ∃ n, splice log.base log.cells first.num (c.ents.drop (importOffset head conflict).toNat)
      = word.take n := by
  have hnum := hslice.numbered hnw
  obtain ⟨n, prev, hn, hprev, hpt, hents⟩ := hslice
  have hget : ∀ j ent, c.ents[j]? = some ent → word[n + 1 + j]? = some ent := by
    intro j ent hj
    have hlt := (List.getElem?_eq_some_iff.mp hj).1
    rwa [hents, List.getElem?_take_of_lt hlt, List.getElem?_drop] at hj
  generalize (importOffset head conflict).toNat = off at hfirst ⊢
  have hidx : first.num = c.lastIndex.toNat + 1 + off := hnum.getElem? hfirst
  obtain ⟨y, hy, hhold⟩ := hc.last_kept ha hnum hn hprev hpt hget hfirst hle
  obtain ⟨x, hx, hxy⟩ := Option.map_eq_some_iff.mp hhold
  rw [lookup_of_le _ (by omega), Nat.add_sub_cancel_left] at hx
  refine ⟨n + off + 1 + (c.ents.length - off), ?_⟩
  rw [← hW.take_append_drop hcells hword hx hy hxy, splice, hidx,
    show c.lastIndex.toNat + 1 + off - log.base = n + off + 1 by omega]
  congr 1
  conv_lhs => rw [hents]
  rw [List.drop_take, List.drop_drop, show n + 1 + off = n + off + 1 by omega]

/-- **A log that creates an entry at its end extends its cells by it.** -/
theorem Aligned.created (ha : log.Aligned) {ent : Entry} (hidx : ent.index = log.lastIndex + 1)
    (h : log.appendToVolatileState .debug [ent] 0 = .ok (b, log')) :
    log'.Aligned ∧ log'.storage = log.storage ∧ log'.cells = log.cells ++ [ent] ∧
      ent.num = log.endIndex := by
  obtain ⟨-, ⟨hoff, -⟩ | ⟨-, head, v', hhead, habove, hv, rfl⟩⟩ := appendToVolatileState_eq_ok.mp h
  · exact absurd (show UInt64.ofNat 1 ≤ Word64.ofInt 0 from hoff) (by decide)
  obtain rfl : ent = head := by simpa using hhead
  -- the assertion rules out the index 0, so the end of the log did not wrap
  have hpos := UInt64.lt_iff_toNat_lt.mp (habove rfl)
  have hlast := ha.lastIndex_eq
  have h64 := ha.endIndex_le
  have hne : log.endIndex ≠ 2 ^ 64 := by
    intro hwrap
    rw [hidx, UInt64.toNat_add, UInt64.toNat_one] at hpos
    omega
  have hnum : ent.num = log.endIndex := by
    rw [Entry.num, hidx, Word64.toNat_succ (by omega), hlast]
  have hlen : log.base < log.endIndex := by
    rw [endIndex, cells, List.length_cons]
    omega
  have hoff := ha.offset_toNat (by omega)
  have hend := ha.endIndex_volatile (by omega)
  have hfirst : [ent][(0 : UInt64).toNat]? = some ent := rfl
  have hspliced := VolatileState.append_of_landsRight ha.contiguous (by simp) hfirst (by omega)
    (Or.inr (Or.inl (by omega)))
  rw [Word64.stdMin_of_le (by change _ ≤ ent.num; omega)] at hspliced
  obtain rfl := Except.ok.inj (hv.symm.trans hspliced)
  have hcells : log.storage.front :: splice log.volatileState.offset.toNat log.volatileState.entries
      ent.num [ent] = log.cells ++ [ent] := by
    rw [splice_end _ _ (by rw [← VolatileState.endIndex]; omega)]
    rfl
  refine ⟨⟨ha.no_snapshot, ha.offset_eq, ?_⟩, rfl, hcells, hnum⟩
  change Window.Numbered Entry.num log.base (log.storage.front :: splice _ _ ent.num [ent])
  rw [hcells]
  exact numbered_append.mpr ⟨ha.numbered, hnum, trivial⟩

end RaftLog

/-! ## The invariant -/

namespace Cluster

variable {ι : Type} {s s' : Cluster ι} {front : Entry} {W : Set (List Entry)}

/-- **The words ever held are coherent**, whoever holds or carries them. -/
structure Coherent (s : Cluster ι) (front : Entry) (W : Set (List Entry)) : Prop where
  words : Agreement.Coherent Entry.term W
  numbered : ∀ w ∈ W, Window.Numbered Entry.num front.num w
  used : ∀ w ∈ W, ∀ n ent, w[n + 1]? = some ent → (ent.index, ent.term) ∈ s.used
  aligned : ∀ a, (s.logs a).Aligned
  front_eq : ∀ a, (s.logs a).storage.front = front
  held : ∀ a, (s.logs a).cells ∈ W
  sent : ∀ c ∈ s.sent, ∃ w ∈ W, c.SliceOf front.num w

theorem coherent_ofStorages {storages : ι → MemoryStorage}
    (hfront : ∀ a, (storages a).front = front) :
    (ofStorages storages).Coherent front {[front]} where
  words := .singleton _
  numbered := by
    rintro _ rfl
    exact ⟨rfl, trivial⟩
  used := by
    rintro _ rfl n ent hent
    simp at hent
  aligned a := RaftLog.aligned_ofStorage (storages a)
  front_eq := hfront
  held a := congrArg (fun ent => [ent]) (hfront a)
  sent c hc := absurd hc List.not_mem_nil

namespace Coherent

theorem base_eq (h : s.Coherent front W) (a : ι) : (s.logs a).base = front.num :=
  congrArg Entry.num (h.front_eq a)

/-- **Coherent words give log matching.** -/
theorem logMatching (h : s.Coherent front W) : s.LogMatching := by
  intro a b i term hta htb j hj
  have hi : j.toNat ≤ i.toNat := UInt64.le_iff_toNat_le.mp hj
  rw [(h.aligned a).termOf_eq] at hta
  rw [(h.aligned b).termOf_eq] at htb
  obtain ⟨x, hx, hxt⟩ := Option.map_eq_some_iff.mp (Except.ok.inj hta)
  obtain ⟨y, hy, hyt⟩ := Option.map_eq_some_iff.mp (Except.ok.inj htb)
  have hend := lookup_eq_some hx
  rw [lookup_of_le _ hend.1] at hx
  rw [h.base_eq b, ← h.base_eq a, lookup_of_le _ hend.1] at hy
  rw [(h.aligned a).entryAt_eq, (h.aligned b).entryAt_eq, h.base_eq b, ← h.base_eq a]
  refine ⟨?_, fun hfirst => ?_⟩
  · rcases Nat.lt_or_ge j.toNat (s.logs a).base with hlt | hge
    · rw [lookup_of_lt _ hlt, lookup_of_lt _ hlt]
    · rw [lookup_of_le _ hge, lookup_of_le _ hge]
      exact h.words.getElem?_eq (h.held a) (h.held b) hx hy (hxt.trans hyt.symm) (by omega)
  · rw [UInt64.le_iff_toNat_le, (h.aligned a).firstIndex_sub_one] at hfirst
    exact lookup_isSome.mpr ⟨hfirst, by omega⟩

/-- **The receiver of a message** ends up with a word of the cluster, cut short. -/
theorem delivered (h : s.Coherent front W) {a : ι} {c : AppendCall} {log : RaftLog} {b : Bool}
    (hmem : c ∈ s.sent) (hright : (s.logs a).SplicesRight c)
    (hstart : (s.logs a).StartsByConflict c) (happ : RaftLog.Appended (s.logs a) .debug c b log) :
    log.Aligned ∧ ∃ w ∈ W, ∃ n, log.cells = w.take n := by
  have hkeep : ∃ w ∈ W, ∃ n, (s.logs a).cells = w.take n :=
    ⟨_, h.held a, _, (List.take_length).symm⟩
  obtain ⟨word, hword, hslice⟩ := h.sent c hmem
  have hnw := h.numbered word hword
  rw [← h.base_eq a] at hnw hslice
  cases happ with
  | rejected => exact ⟨h.aligned a, hkeep⟩
  | dropped =>
    exact ⟨⟨(h.aligned a).no_snapshot, (h.aligned a).offset_eq, (h.aligned a).numbered⟩, hkeep⟩
  | imported hc hoff habove hv =>
    have hnum := hslice.numbered hnw
    obtain ⟨first, hfirst, -, -⟩ := hc.exists_first (h.aligned a) hnum hoff
    have himp := RaftLog.imports_of_imported hc (habove rfl) hfirst
    obtain ⟨ha, hcells, -⟩ := (h.aligned a).imported hnum hc hfirst (hright _ himp) hv
    obtain ⟨n, hn⟩ := (h.aligned a).adopted h.words (h.held a) hword hnw hslice hc hfirst
      (hstart _ himp)
    exact ⟨ha, word, hword, n, hcells.trans hn⟩

variable [DecidableEq ι]

/-- Replacing one log by one whose cells join the words. -/
theorem update (h : s.Coherent front W) {a : ι} {log : RaftLog} (ha : log.Aligned)
    (hstore : log.storage = (s.logs a).storage) {used : List (UInt64 × UInt64)}
    (hwords : Agreement.Coherent Entry.term (insert log.cells W))
    (hused : ∀ w ∈ insert log.cells W, ∀ n ent, w[n + 1]? = some ent →
      (ent.index, ent.term) ∈ used) :
    Coherent { s with logs := Function.update s.logs a log, used := used } front
      (insert log.cells W) := by
  have hfront : log.storage.front = front := hstore ▸ h.front_eq a
  refine ⟨hwords, ?_, hused, ?_, ?_, ?_, fun c hc => ?_⟩
  · rintro w (rfl | hw)
    · exact hfront ▸ ha.numbered
    · exact h.numbered w hw
  · exact (Function.forall_update_iff _ fun _ (log : RaftLog) => log.Aligned).mpr
      ⟨ha, fun b _ => h.aligned b⟩
  · exact (Function.forall_update_iff _ fun _ (log : RaftLog) => log.storage.front = front).mpr
      ⟨hfront, fun b _ => h.front_eq b⟩
  · exact (Function.forall_update_iff _ fun _ (l : RaftLog) => l.cells ∈ insert log.cells W).mpr
      ⟨Set.mem_insert _ _, fun b _ => Set.mem_insert_of_mem _ (h.held b)⟩
  · obtain ⟨w, hw, hslice⟩ := h.sent c hc
    exact ⟨w, Set.mem_insert_of_mem _ hw, hslice⟩

/-- **A log creates an entry** under a pair of index and term that was not used before. -/
theorem create (h : s.Coherent front W) {a : ι} {ent : Entry} {log : RaftLog} {b : Bool}
    (hidx : ent.index = (s.logs a).lastIndex + 1) (hfresh : (ent.index, ent.term) ∉ s.used)
    (happ : (s.logs a).appendToVolatileState .debug [ent] 0 = .ok (b, log)) :
    Coherent { s with
      logs := Function.update s.logs a log
      used := (ent.index, ent.term) :: s.used } front (insert log.cells W) := by
  obtain ⟨ha, hstore, hcells, hnum⟩ := (h.aligned a).created hidx happ
  refine h.update ha hstore ?_ ?_
  · rw [hcells]
    refine h.words.insert_concat (h.held a) fun w hw y hy hterm => hfresh ?_
    -- an entry at this index under this term would have used the pair
    have hyn : y.num = front.num + (s.logs a).cells.length := (h.numbered w hw).getElem? hy
    have heq : y.index = ent.index := by
      refine Word64.eq_of_toNat ?_
      change y.num = ent.num
      rw [hyn, hnum, RaftLog.endIndex, h.base_eq]
    rw [← heq, ← hterm]
    exact h.used w hw (s.logs a).volatileState.entries.length y hy
  · rintro w (rfl | hw) n x hx
    · rw [hcells] at hx
      rcases Nat.lt_or_ge (n + 1) (s.logs a).cells.length with hn | hn
      · rw [List.getElem?_append_left hn] at hx
        exact List.mem_cons_of_mem _ (h.used _ (h.held a) n x hx)
      · rw [List.getElem?_append_right hn] at hx
        obtain rfl : x = ent := List.mem_singleton.mp (List.mem_of_getElem? hx)
        exact List.mem_cons_self ..
    · exact List.mem_cons_of_mem _ (h.used w hw n x hx)

/-- **One step** whose delivery lands right. -/
theorem step (h : s.Coherent front W) {e : ClusterEvent ι} (hright : s.DeliversRight e)
    (hs : s.step e = some s') : ∃ W', s'.Coherent front W' := by
  cases e with
  | create a ent =>
    obtain ⟨⟨hidx, hfresh⟩, hs⟩ := Option.ite_none_right_eq_some.mp hs
    obtain ⟨⟨b, log⟩, happ, rfl⟩ := Option.map_eq_some_iff.mp hs
    exact ⟨_, h.create hidx hfresh (Outcome.toOption_eq_some.mp happ)⟩
  | send a c =>
    obtain ⟨hslice, hs⟩ := Option.ite_none_right_eq_some.mp hs
    obtain rfl := Option.some.inj hs
    refine ⟨W, h.words, h.numbered, h.used, h.aligned, h.front_eq, h.held, ?_⟩
    refine List.forall_mem_cons.mpr ⟨⟨_, h.held a, ?_⟩, h.sent⟩
    rw [← h.base_eq a]
    exact (h.aligned a).sliceOf hslice
  | deliver a c =>
    obtain ⟨hmem, hs⟩ := Option.ite_none_right_eq_some.mp hs
    obtain ⟨log, hnext, rfl⟩ := Option.map_eq_some_iff.mp hs
    obtain ⟨b, happ⟩ := RaftLog.next_eq_some.mp hnext
    obtain ⟨ha, w, hw, n, hn⟩ := h.delivered hmem hright.1 hright.2 happ
    refine ⟨_, h.update ha happ.storage_eq (hn ▸ h.words.insert_take hw n) ?_⟩
    rintro u (rfl | hu) m x hx
    · rw [hn, List.getElem?_take] at hx
      exact h.used w hw m x (Option.ite_none_right_eq_some.mp hx).2
    · exact h.used u hu m x hx

end Coherent

variable [DecidableEq ι]

/-- **Log matching in every state of a run** whose deliveries land right. -/
theorem logMatching_along {storages : ι → MemoryStorage} {index term : UInt64}
    (hsame : ∀ a, (storages a).front.index = index ∧ (storages a).front.term = term)
    {events : List (ClusterEvent ι)}
    (hright : Along step DeliversRight (ofStorages storages) events) :
    Always step LogMatching (ofStorages storages) events := by
  have hfront : ∀ a, (storages a).front = { index := index, term := term } := fun a => by
    obtain ⟨rfl, rfl⟩ := hsame a
    rw [MemoryStorage.front_eq]
    cases (storages a).snapshot <;> rfl
  intro s hs
  obtain ⟨W, hW⟩ := always_of_inv (I := fun s : Cluster ι => ∃ W, s.Coherent _ W)
    (fun s e s' ⟨W, hW⟩ hr hs => hW.step hr hs) ⟨_, coherent_ofStorages hfront⟩ hright s hs
  exact hW.logMatching

/-- Two replicas; the second receives two entries at once and creates a third. -/
theorem logMatching_follower :
    Always step LogMatching (ofStorages fun _ : Fin 2 => {})
      [.create 0 ⟨1, 1, .entryNormal, []⟩, .create 0 ⟨2, 1, .entryNormal, []⟩,
        .send 0 ⟨0, 0, 0, [⟨1, 1, .entryNormal, []⟩, ⟨2, 1, .entryNormal, []⟩]⟩,
        .deliver 1 ⟨0, 0, 0, [⟨1, 1, .entryNormal, []⟩, ⟨2, 1, .entryNormal, []⟩]⟩,
        .create 1 ⟨3, 2, .entryNormal, []⟩] :=
  logMatching_along (fun _ => ⟨rfl, rfl⟩) (by decide)

/-- **A misplaced splice breaks log matching**: the second replica holds four entries of the first
and receives a fourth entry of the third. -/
theorem not_logMatching_last_cut : ¬∀ (ι : Type) [DecidableEq ι] (storages : ι → MemoryStorage)
    (index term : UInt64) (events : List (ClusterEvent ι)),
    (∀ a, (storages a).front.index = index ∧ (storages a).front.term = term) →
      Always step LogMatching (ofStorages storages) events := by
  intro hall
  have hmatch := hall (Fin 3) (fun _ => {}) 0 0
    [.create 0 ⟨1, 1, .entryNormal, []⟩, .create 0 ⟨2, 1, .entryNormal, []⟩,
      .create 0 ⟨3, 1, .entryNormal, []⟩, .create 0 ⟨4, 1, .entryNormal, []⟩,
      .send 0 ⟨0, 0, 0, [⟨1, 1, .entryNormal, []⟩, ⟨2, 1, .entryNormal, []⟩,
        ⟨3, 1, .entryNormal, []⟩, ⟨4, 1, .entryNormal, []⟩]⟩,
      .send 0 ⟨0, 0, 0, [⟨1, 1, .entryNormal, []⟩, ⟨2, 1, .entryNormal, []⟩,
        ⟨3, 1, .entryNormal, []⟩]⟩,
      .deliver 1 ⟨0, 0, 0, [⟨1, 1, .entryNormal, []⟩, ⟨2, 1, .entryNormal, []⟩,
        ⟨3, 1, .entryNormal, []⟩, ⟨4, 1, .entryNormal, []⟩]⟩,
      .deliver 2 ⟨0, 0, 0, [⟨1, 1, .entryNormal, []⟩, ⟨2, 1, .entryNormal, []⟩,
        ⟨3, 1, .entryNormal, []⟩]⟩,
      .create 2 ⟨4, 2, .entryNormal, []⟩, .send 2 ⟨3, 1, 0, [⟨4, 2, .entryNormal, []⟩]⟩,
      .deliver 1 ⟨3, 1, 0, [⟨4, 2, .entryNormal, []⟩]⟩]
    (fun _ => ⟨rfl, rfl⟩) _ (mem_visited_of_final? rfl) 1 2 4 2 rfl rfl 1 (by decide)
  have hnone : (none : Option Entry) = some ⟨1, 1, .entryNormal, []⟩ := hmatch.1
  cases hnone

end Cluster

end RaftCore
