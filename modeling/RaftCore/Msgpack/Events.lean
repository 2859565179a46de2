import RaftCore.Msgpack.Parse

/-!
# Msgpack/Events — what a visitor is told

A visitor that notes its calls and always answers `true` is told what the bytes say (`recorder`).
Any other visitor is told the same, call after call, until it answers `false` or throws; and if it
does neither, the parser ends as it does for the recorder, at the same offset (`parseImp_recorded`).

So a visitor is a fold over the calls of the bytes.  The simulation goes item by item: what is noted
so far is what the visitor has been through (`Follows`).
-/

namespace RaftCore

namespace Msgpack

variable {ε σ : Type}

/-- How a visitor takes some calls. -/
inductive Fed (ε σ : Type) where
  | through (s : σ)
  | stopped (s : σ)
  | threw (e : ε)

def Visitor.feed (v : Visitor ε σ) : List Visit → σ → Fed ε σ
  | [], s => .through s
  | call :: calls, s => match v.visit call s with
    | .error e => .threw e
    | .ok (false, s) => .stopped s
    | .ok (true, s) => v.feed calls s

/-- The visitor that notes its calls, and throws nothing. -/
def recorder : Visitor Empty (List Visit) where
  visit call calls := .ok (true, calls ++ [call])
  parseError _ _ calls := .ok calls
  insufficientBytes _ _ calls := .ok calls

theorem Visitor.feed_append (v : Visitor ε σ) (calls more : List Visit) (s : σ) :
    v.feed (calls ++ more) s = match v.feed calls s with
      | .through s => v.feed more s
      | fed => fed := by
  induction calls generalizing s with
  | nil => rfl
  | cons call calls ih =>
    rw [List.cons_append, feed, feed]
    match v.visit call s with
    | .error e => rfl
    | .ok (false, s') => rfl
    | .ok (true, s') => exact ih s'

/-- A visitor that is through for good stays where it is. -/
theorem Visitor.feed_of_prefix {v : Visitor ε σ} {calls all : List Visit} {s : σ} {fed : Fed ε σ}
    (h : v.feed calls s = fed) (hfed : ∀ s', fed ≠ .through s') (hinit : calls <+: all) :
    v.feed all s = fed := by
  obtain ⟨more, rfl⟩ := hinit
  rw [feed_append, h]
  cases fed with
  | through s' => exact absurd rfl (hfed s')
  | stopped s' => rfl
  | threw e => rfl

/-! ## One item -/

/-- The calls that were noted. -/
def Parsed.noted : Parsed Empty (List Visit) → List Visit
  | .success calls => calls
  | .stopVisitor calls => calls
  | .parseError calls => calls

def noted : Parsing Empty (List Visit) → List Visit
  | .goes k => k.2
  | .ends _ c => c.noted

/-- The same end, with another visitor. -/
def Parsed.withVisitor (s : σ) : Parsed Empty (List Visit) → Parsed ε σ
  | .success _ => .success s
  | .stopVisitor _ => .stopVisitor s
  | .parseError _ => .parseError s

def withVisitor (s : σ) : Parsing Empty (List Visit) → Parsing ε σ
  | .goes k => .goes (k.1, s)
  | .ends back c => .ends back (c.withVisitor s)

/-- What the parser does with a visitor, where it does `p` with the recorder. -/
def Retold (v : Visitor ε σ) (s₀ : σ) (p : Parsing Empty (List Visit)) (p' : Parsing ε σ) : Prop :=
  match v.feed (noted p) s₀ with
  | .through s => p' = withVisitor s p
  | .stopped s => ∃ back, p' = .ends back (.stopVisitor s)
  | .threw e => ∃ back, p' = .ends back (.threw e)

/-- **The parser goes on alike**: behind the calls so far, wherever they have left the visitor. -/
def Follows (v : Visitor ε σ) (s₀ : σ) (calls : List Visit) (p : Parsing Empty (List Visit))
    (k : σ → Parsing ε σ) : Prop :=
  calls <+: noted p ∧ ∀ s, v.feed calls s₀ = .through s → Retold v s₀ p (k s)

section Follows

variable {v : Visitor ε σ} {s₀ : σ} {calls : List Visit}

theorem follows_goes (stack : List StackElem) :
    Follows v s₀ calls (.goes (stack, calls)) fun s => .goes (stack, s) := by
  refine ⟨List.prefix_refl _, fun s hs => ?_⟩
  rw [Retold, noted, hs]
  rfl

theorem follows_success (back : Bool) :
    Follows v s₀ calls (.ends back (.success calls)) fun s => .ends back (.success s) := by
  refine ⟨List.prefix_refl _, fun s hs => ?_⟩
  rw [Retold, noted, Parsed.noted, hs]
  rfl

/-- **A call**: the visitor goes on, or it is through for good. -/
theorem follows_ask {call : Visit} {back : Bool} {k : List Visit → Parsing Empty (List Visit)}
    {k' : σ → Parsing ε σ} (h : Follows v s₀ (calls ++ [call]) (k (calls ++ [call])) k') :
    Follows v s₀ calls (recorder.ask call back calls k) fun s => v.ask call back s k' := by
  obtain ⟨hinit, hretold⟩ := h
  refine ⟨(List.prefix_append _ _).trans hinit, fun s hs => ?_⟩
  have hfeed : v.feed (calls ++ [call]) s₀ = v.feed [call] s := by
    rw [Visitor.feed_append, hs]
  change Retold v s₀ (k (calls ++ [call])) (v.ask call back s k')
  rw [Visitor.feed] at hfeed
  rw [Visitor.ask]
  match hvisit : v.visit call s with
  | .error e =>
    rw [hvisit] at hfeed
    rw [Retold, Visitor.feed_of_prefix hfeed (fun _ h => by cases h) hinit]
    exact ⟨true, rfl⟩
  | .ok (false, s') =>
    rw [hvisit] at hfeed
    rw [Retold, Visitor.feed_of_prefix hfeed (fun _ h => by cases h) hinit]
    exact ⟨back, rfl⟩
  | .ok (true, s') =>
    rw [hvisit] at hfeed
    exact hretold s' hfeed

theorem follows_consume (stack : List StackElem) (calls : List Visit) :
    Follows v s₀ calls (consume recorder stack calls) fun s => consume v stack s := by
  induction stack generalizing calls with
  | nil => exact follows_success false
  | cons elem stack ih =>
    obtain ⟨type, rest⟩ := elem
    cases type with
    | arrayItem =>
      refine follows_ask ?_
      split_ifs
      · exact follows_ask (ih _)
      · exact follows_ask (follows_goes _)
    | mapKey => exact follows_ask (follows_ask (follows_goes _))
    | mapValue =>
      refine follows_ask ?_
      split_ifs
      · exact follows_ask (ih _)
      · exact follows_ask (follows_goes _)

/-- **An item is retold**, call by call. -/
theorem follows_visitToken (stack : List StackElem) (t : Token) :
    Follows v s₀ calls (visitToken recorder (stack, calls) t)
      fun s => visitToken v (stack, s) t := by
  have hvisit : ∀ call, Follows v s₀ calls (afterVisitProc recorder stack calls call)
      fun s => afterVisitProc v stack s call := fun call => follows_ask (follows_consume stack _)
  have hstart : ∀ sv ev item type size,
      Follows v s₀ calls (startAggregate recorder stack calls sv ev item type size)
        fun s => startAggregate v stack s sv ev item type size := by
    intro sv ev item type size
    refine follows_ask ?_
    split_ifs
    · exact follows_ask (follows_consume stack _)
    · exact follows_ask (follows_goes _)
  cases t with
  | array size => exact hstart _ _ _ _ _
  | map size => exact hstart _ _ _ _ _
  | _ => exact hvisit _

end Follows

/-! ## All the bytes -/

/-- Where reading ends, with the recorder. -/
abbrev Recorded :=
  Reader.Outcome (Cs × List StackElem × List Visit) UInt8 (Parsed Empty (List Visit))

def Recorded.noted : Recorded → List Visit
  | .waiting s _ => s.2.2
  | .halted c _ => c.noted

def Recorded.withVisitor (s : σ) : Recorded →
    Reader.Outcome (Cs × List StackElem × σ) UInt8 (Parsed ε σ)
  | .waiting (cs, stack, _) rest => .waiting (cs, stack, s) rest
  | .halted c rest => .halted (c.withVisitor s) rest

/-- Where reading ends with a visitor, where it ends like this with the recorder. -/
def RetoldAt (v : Visitor ε σ) (s₀ : σ) (o : Recorded)
    (o' : Reader.Outcome (Cs × List StackElem × σ) UInt8 (Parsed ε σ)) : Prop :=
  match v.feed o.noted s₀ with
  | .through s => o' = o.withVisitor s
  | .stopped s => ∃ rest, o' = .halted (.stopVisitor s) rest
  | .threw e => ∃ rest, o' = .halted (.threw e) rest

/-- The recorder forgets nothing. -/
theorem prefix_noted (stack : List StackElem) (calls : List Visit) (xs : List UInt8) :
    calls <+: Recorded.noted ((parser recorder).read (.header, stack, calls) xs) := by
  refine read_rule (I := fun k => calls <+: k.2) (Q := fun o => calls <+: Recorded.noted o)
    (fun _ _ h => h) (fun _ h => h) ?_ (List.prefix_refl _) xs
  intro k t hk
  have hfollows : Follows recorder [] k.2 (visitToken recorder k t)
      fun s => visitToken recorder (k.1, s) t := follows_visitToken k.1 t
  have hnoted := hk.trans hfollows.1
  cases htoken : visitToken recorder k t with
  | goes l =>
    rw [htoken] at hnoted
    exact .inl ⟨l, rfl, hnoted⟩
  | ends back c =>
    rw [htoken] at hnoted
    exact .inr ⟨back, c, rfl, fun _ => hnoted⟩

/-- **The bytes are retold**, item by item. -/
theorem read_retold (v : Visitor ε σ) (s₀ : σ) (xs : List UInt8) :
    RetoldAt v s₀ ((parser recorder).read (.header, [], []) xs)
      ((parser v).read (.header, [], s₀) xs) := by
  refine read_sim (R := fun k k' _ => k.1 = k'.1 ∧ v.feed k.2 s₀ = .through k'.2)
    (Q := RetoldAt v s₀) ?_ ?_ ?_ ⟨rfl, rfl⟩
  · rintro ⟨stack, calls⟩ ⟨stack', s⟩ xs cs rest ⟨rfl, hs⟩
    rw [RetoldAt, Recorded.noted, hs]
    rfl
  · rintro ⟨stack, calls⟩ ⟨stack', s⟩ xs ⟨rfl, hs⟩
    rw [RetoldAt, Recorded.noted, Parsed.noted, hs]
    rfl
  · rintro ⟨stack, calls⟩ ⟨stack', s⟩ bytes rest t ⟨rfl, hs⟩ ht
    have hretold := (follows_visitToken stack t).2 s hs
    have hcompletes := completes_of_spells ht
    -- What is noted with this item is still noted when the recorder is at the end.
    have hnoted : noted (visitToken recorder (stack, calls) t) <+: Recorded.noted
        ((parser recorder).read (.header, stack, calls) (bytes ++ rest)) := by
      match htoken : visitToken recorder (stack, calls) t with
      | .goes l =>
        have hread : (parser recorder).read (.header, stack, calls) (bytes ++ rest)
            = (parser recorder).read (.header, l) rest := hcompletes.read_goes htoken rest
        rw [hread]
        exact prefix_noted _ _ _
      | .ends back c =>
        have hread : (parser recorder).read (.header, stack, calls) (bytes ++ rest)
            = .halted c _ := hcompletes.read_ends htoken rest
        rw [hread]
        exact List.prefix_refl _
    rw [Retold] at hretold
    match hfed : v.feed (noted (visitToken recorder (stack, calls) t)) s₀ with
    | .through s' =>
      rw [hfed] at hretold
      match htoken : visitToken recorder (stack, calls) t with
      | .goes l =>
        rw [htoken] at hretold hfed
        exact .inl ⟨l, (l.1, s'), rfl, hretold, rfl, hfed⟩
      | .ends back c =>
        rw [htoken] at hretold hfed
        refine .inr (.inl ⟨back, c, c.withVisitor s', rfl, hretold, fun rest => ?_⟩)
        have hfed' : v.feed (Recorded.noted (.halted c rest)) s₀ = .through s' := hfed
        rw [RetoldAt, hfed']
        rfl
    | .stopped s' =>
      rw [hfed] at hretold
      obtain ⟨back, hends⟩ := hretold
      refine .inr (.inr ⟨back, _, hends, fun rest' => ?_⟩)
      have hfed' := Visitor.feed_of_prefix hfed (fun _ h => by cases h) hnoted
      rw [parser] at hfed'
      rw [RetoldAt, hfed']
      exact ⟨rest', rfl⟩
    | .threw e =>
      rw [hfed] at hretold
      obtain ⟨back, hends⟩ := hretold
      refine .inr (.inr ⟨back, _, hends, fun rest' => ?_⟩)
      have hfed' := Visitor.feed_of_prefix hfed (fun _ h => by cases h) hnoted
      rw [parser] at hfed'
      rw [RetoldAt, hfed']
      exact ⟨rest', rfl⟩

/-- What the parser does once its visitor is through: its error handlers may still throw. -/
def Visitor.close (v : Visitor ε σ) (data : List UInt8) (off noff : ℕ) (s : σ) :
    ParseReturn → Except ε (ParseReturn × σ) × ℕ
  | .continue =>
    let errorOff := if data.length ≤ off then off else minusOne noff
    ((v.insufficientBytes errorOff noff s).map fun s => (.continue, s), noff)
  | .parseError => match v.parseError (minusOne noff) noff s with
    | .ok s => (.ok (.parseError, s), noff)
    | .error e => (.error e, off)
  | ret => (.ok (ret, s), noff)

/-- The recorder is never at fault, and where a visitor is through, the parser ends alike. -/
theorem parseImp_recorder {data : List UInt8} {off : ℕ} (hoff : off < data.length) :
    let o : Recorded := (parser recorder).read (.header, [], []) (data.drop off)
    ∃ ret noff, parseImp recorder [] data off = (.ok (ret, o.noted), noff) ∧
      ∀ (v : Visitor ε σ) s s',
        (parser v).read (.header, [], s) (data.drop off) = o.withVisitor s' →
          parseImp v s data off = v.close data off noff s' ret := by
  have hnot : ¬data.length ≤ off := not_le.mpr hoff
  rw [parseImp, if_neg hnot]
  match hread : (parser recorder).read (.header, [], []) (data.drop off) with
  | .waiting (cs, stack, calls) rest =>
    refine ⟨_, _, rfl, fun v s s' h => ?_⟩
    rw [parseImp, if_neg hnot, h, Visitor.close, if_neg hnot]
    rfl
  | .halted (.success calls) rest =>
    refine ⟨_, _, rfl, fun v s s' h => ?_⟩
    rw [parseImp, if_neg hnot, h]
    dsimp only [Recorded.withVisitor, Parsed.withVisitor]
    split_ifs <;> rfl
  | .halted (.stopVisitor calls) rest =>
    refine ⟨_, _, rfl, fun v s s' h => ?_⟩
    rw [parseImp, if_neg hnot, h]
    rfl
  | .halted (.parseError calls) rest =>
    refine ⟨_, _, rfl, fun v s s' h => ?_⟩
    rw [parseImp, if_neg hnot, h]
    rfl

/-- **Every visitor is told the same**: the recorder never fails, and any other visitor is fed the
calls that it noted.  A visitor that is through with them has the parser return what it returned to
the recorder, with the same offset; one that stopped has it return that; and what it throws is
thrown. -/
theorem parseImp_recorded (v : Visitor ε σ) (s : σ) (data : List UInt8) (off : ℕ) :
    ∃ ret calls noff, parseImp recorder [] data off = (.ok (ret, calls), noff) ∧
      match v.feed calls s with
      | .through s' => parseImp v s data off = v.close data off noff s' ret
      | .stopped s' => ∃ off', parseImp v s data off = (.ok (.stopVisitor, s'), off')
      | .threw e => parseImp v s data off = (.error e, off) := by
  rcases Nat.lt_or_ge off data.length with hoff | hoff
  · obtain ⟨ret, noff, hrecorder, hthrough⟩ := parseImp_recorder (σ := σ) hoff
    refine ⟨ret, _, noff, hrecorder, ?_⟩
    have hretold := read_retold v s (data.drop off)
    have hnot : ¬data.length ≤ off := not_le.mpr hoff
    rw [RetoldAt] at hretold
    match v.feed (Recorded.noted ((parser recorder).read (.header, [], []) (data.drop off))) s,
      hretold with
    | .through s', h => exact hthrough v s s' h
    | .stopped s', ⟨rest, h⟩ =>
      rw [parseImp, if_neg hnot, h]
      exact ⟨_, rfl⟩
    | .threw e, ⟨rest, h⟩ => rw [parseImp, if_neg hnot, h]
  · refine ⟨.continue, [], off, if_pos hoff, ?_⟩
    rw [parseImp, if_pos hoff]
    change _ = _
    rw [Visitor.close, if_pos hoff]

/-- An array of a number and an empty map. -/
example : parseImp recorder [] [0x92, 0x05, 0x80] 0 = (.ok (.success, [.startArray 2,
    .startArrayItem, .visitPositiveInteger 5, .endArrayItem, .startArrayItem, .startMap 0, .endMap,
    .endArrayItem, .endArray]), 3) := rfl

end Msgpack

end RaftCore
