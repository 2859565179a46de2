import RaftCore.Machinery.Runs
import RaftCore.Model.RaftLog

/-!
# Log/Append — what a returning append did

`Append` returns in three ways (`Appended`), whatever the log looks like: it is rejected because its
predecessor does not match; it is dropped, because the position of the first missing entry does not
survive the passage through `int`; or it imports the batch from a position on into the volatile
state.  In the last two the commit mark becomes the smaller of the call's commit and the batch's
last index.
-/

namespace RaftCore

/-- The arguments of one `Append`. -/
structure AppendCall where
  lastIndex : UInt64
  lastTerm : UInt64
  commit : UInt64
  ents : List Entry
  deriving DecidableEq

namespace AppendCall

/-- The commit mark an append leaves when it matches. -/
def newCommit (c : AppendCall) : UInt64 :=
  Word64.stdMin c.commit (c.lastIndex + UInt64.ofNat c.ents.length)

end AppendCall

/-- The position in the batch at which the import starts, after the passage through `int`. -/
def importOffset (head : Entry) (conflict : UInt64) : UInt64 :=
  Word64.ofInt (Word64.toInt (conflict - head.index))

namespace RaftLog

variable {log log' : RaftLog} {build : Build} {c : AppendCall} {b : Bool}

/-- `Append` on its packed arguments. -/
def appendCall (log : RaftLog) (build : Build) (c : AppendCall) : Outcome (Bool × RaftLog) :=
  log.append build c.lastIndex c.lastTerm c.commit c.ents

/-- The log after an append that returns. -/
def next (log : RaftLog) (c : AppendCall) : Option RaftLog :=
  ((log.appendCall .debug c).map Prod.snd).toOption

/-- What every append past its `Match` went through before it touched the volatile state. -/
structure Conflict (log : RaftLog) (build : Build) (c : AppendCall) (conflict : UInt64)
    (head : Entry) : Prop where
  matched : log.matchAt c.lastIndex c.lastTerm = .ok true
  found : log.findConflict c.ents = .ok conflict
  above : build = .debug → log.commit < conflict
  head : c.ents[0]? = some head

/-- **What an append that returns did.** -/
inductive Appended (log : RaftLog) (build : Build) (c : AppendCall) : Bool → RaftLog → Prop
  | rejected (h : log.matchAt c.lastIndex c.lastTerm = .ok false) : Appended log build c false log
  | dropped {conflict : UInt64} {head : Entry} (h : Conflict log build c conflict head)
      (hoff : UInt64.ofNat c.ents.length ≤ importOffset head conflict) :
      Appended log build c true { log with commit := c.newCommit }
  | imported {conflict : UInt64} {head : Entry} (h : Conflict log build c conflict head)
      (hoff : ¬UInt64.ofNat c.ents.length ≤ importOffset head conflict)
      (habove : build = .debug → log.commit < head.index) {v' : VolatileState}
      (hv : log.volatileState.append c.ents (importOffset head conflict) = .ok v') :
      Appended log build c true { log with volatileState := v', commit := c.newCommit }

theorem appendToVolatileState_eq_ok {ents : List Entry} {offset : Int32} :
    log.appendToVolatileState build ents offset = .ok (b, log') ↔ b = true ∧
      (UInt64.ofNat ents.length ≤ Word64.ofInt offset ∧ log' = log ∨
        ¬UInt64.ofNat ents.length ≤ Word64.ofInt offset ∧
          ∃ head v', ents[0]? = some head ∧ (build = .debug → log.commit < head.index) ∧
            log.volatileState.append ents (Word64.ofInt offset) = .ok v' ∧
            log' = { log with volatileState := v' }) := by
  by_cases hoff : UInt64.ofNat ents.length ≤ Word64.ofInt offset
  · simp [appendToVolatileState, hoff, eq_comm]
  · rw [appendToVolatileState, if_neg hoff]
    simp only [Outcome.bind_eq_ok, Deque.get_eq_ok, Build.assert_eq_ok, UInt64.toNat_zero, hoff,
      false_and, not_false_eq_true, true_and, false_or, Except.ok.injEq, Prod.mk.injEq]
    constructor
    · rintro ⟨head, hhead, -, habove, v', hv, rfl, rfl⟩
      exact ⟨rfl, head, v', hhead, habove, hv, rfl⟩
    · rintro ⟨rfl, head, v', hhead, habove, hv, rfl⟩
      exact ⟨head, hhead, (), habove, v', hv, rfl, rfl⟩

/-- **An append returns exactly in these ways.** -/
theorem appendCall_eq_ok :
    log.appendCall build c = .ok (b, log') ↔ Appended log build c b log' := by
  constructor
  · intro h
    obtain ⟨ret, hmatch, h⟩ := Outcome.bind_eq_ok.mp h
    cases ret with
    | false =>
      obtain ⟨rfl, rfl⟩ := Prod.mk.inj (Except.ok.inj h)
      exact .rejected hmatch
    | true =>
      obtain ⟨conflict, hfound, h⟩ := Outcome.bind_eq_ok.mp h
      obtain ⟨⟨⟩, habove, h⟩ := Outcome.bind_eq_ok.mp h
      obtain ⟨head, hhead, h⟩ := Outcome.bind_eq_ok.mp h
      obtain ⟨⟨ret, log₁⟩, happ, h⟩ := Outcome.bind_eq_ok.mp h
      obtain ⟨rfl, rfl⟩ := Prod.mk.inj (Except.ok.inj h)
      have hc : Conflict log build c conflict head :=
        ⟨hmatch, hfound, Build.assert_eq_ok.mp habove, Deque.get_eq_ok.mp hhead⟩
      obtain ⟨-, ⟨hoff, rfl⟩ | ⟨hoff, head', v', hhead', hab, hv, rfl⟩⟩ :=
        appendToVolatileState_eq_ok.mp happ
      · exact .dropped hc hoff
      · obtain rfl : head = head' := Option.some.inj (hc.head.symm.trans hhead')
        exact .imported hc hoff hab hv
  · intro h
    have hpast : ∀ {conflict : UInt64} {head : Entry} {log₁ : RaftLog},
        Conflict log build c conflict head →
        log.appendToVolatileState build c.ents (Word64.toInt (conflict - head.index))
          = .ok (true, log₁) →
        log.appendCall build c = .ok (true, { log₁ with commit := c.newCommit }) := by
      intro conflict head log₁ hc happ
      refine Outcome.bind_eq_ok.mpr ⟨true, hc.matched, Outcome.bind_eq_ok.mpr ⟨conflict, hc.found,
        Outcome.bind_eq_ok.mpr ⟨(), Build.assert_eq_ok.mpr hc.above, Outcome.bind_eq_ok.mpr ⟨head,
          Deque.get_eq_ok.mpr hc.head, Outcome.bind_eq_ok.mpr ⟨(true, log₁), happ, rfl⟩⟩⟩⟩⟩
    cases h with
    | rejected hmatch => exact Outcome.bind_eq_ok.mpr ⟨false, hmatch, rfl⟩
    | dropped hc hoff => exact hpast hc (appendToVolatileState_eq_ok.mpr ⟨rfl, .inl ⟨hoff, rfl⟩⟩)
    | imported hc hoff hab hv =>
      exact hpast hc (appendToVolatileState_eq_ok.mpr
        ⟨rfl, .inr ⟨hoff, _, _, hc.head, hab, hv, rfl⟩⟩)

theorem next_eq_some : log.next c = some log' ↔ ∃ b, Appended log .debug c b log' := by
  rw [next, Outcome.toOption_eq_some, Outcome.map_eq_ok]
  constructor
  · rintro ⟨⟨b, log₁⟩, h, rfl⟩
    exact ⟨b, appendCall_eq_ok.mp h⟩
  · rintro ⟨b, h⟩
    exact ⟨(b, log'), appendCall_eq_ok.mpr h, rfl⟩

/-- The storage is never touched. -/
theorem Appended.storage_eq (h : Appended log build c b log') : log'.storage = log.storage := by
  cases h <;> rfl

end RaftLog

end RaftCore
