import RaftCore.Msgpack.Unpacker

/-!
# Msgpack/Stream — objects that come piece by piece

Whatever is written to an unpacker in whatever pieces, and whenever `next` is called in between, the
objects are those that `unpack` finds one after another in all that was written (`session_unpacks`),
and a `next` without an object means that `unpack` would not find one either.

The invariant is where the unpacker stands in all that was written (`Unpacker.Tracks`): its context
and what it has not parsed are what the parser makes of the bytes behind the last object.
-/

namespace RaftCore

namespace Msgpack

variable {m : Malloc} {u u' : Unpacker}

/-! ## One object after another -/

/-- Some objects, one after another, from an offset to another. -/
inductive Unpacks (limit : UnpackLimit) (data : List UInt8) : ℕ → List Object → ℕ → Prop where
  | nil (off : ℕ) : Unpacks limit data off [] off
  | snoc {off off' off'' : ℕ} {objs : List Object} {obj : Object}
    (h : Unpacks limit data off objs off') (hobj : unpackV3 limit data off' = (.ok obj, off'')) :
    Unpacks limit data off (objs ++ [obj]) off''

/-! A visitor that never answers `false` is never the end of the parser. -/

/-- It was not the visitor that stopped, and it was not bytes that it missed. -/
def Parsed.Plain {σ : Type} : Parsed Error σ → Prop
  | .stopVisitor _ => False
  | .threw e => e ≠ .insufficientBytes
  | _ => True

def Handled.Plain {σ : Type} : Parsing Error σ → Prop
  | .goes _ => True
  | .ends _ c => c.Plain

def Visitor.Willing {σ : Type} (v : Visitor Error σ) : Prop :=
  ∀ call s, (∀ s', v.visit call s ≠ .ok (false, s')) ∧ v.visit call s ≠ .error .insufficientBytes

section Willing

variable {σ : Type} {v : Visitor Error σ}

theorem ask_plain (hv : v.Willing) {call : Visit} {back : Bool} {s : σ} {k : σ → Parsing Error σ}
    (hk : ∀ s, (k s).Plain) : (v.ask call back s k).Plain := by
  obtain ⟨hstop, hshort⟩ := hv call s
  rw [Visitor.ask]
  rcases hvisit : v.visit call s with e | ⟨_ | _, s'⟩
  · intro he
    exact hshort (he ▸ hvisit)
  · exact absurd hvisit (hstop s')
  · exact hk s'

theorem consume_plain (hv : v.Willing) (stack : List StackElem) (s : σ) :
    (consume v stack s).Plain := by
  induction stack generalizing s with
  | nil => trivial
  | cons elem stack ih =>
    obtain ⟨type, rest⟩ := elem
    cases type with
    | arrayItem =>
      refine ask_plain hv fun s => ?_
      split_ifs
      · exact ask_plain hv ih
      · exact ask_plain hv fun s => trivial
    | mapKey => exact ask_plain hv fun s => ask_plain hv fun s => trivial
    | mapValue =>
      refine ask_plain hv fun s => ?_
      split_ifs
      · exact ask_plain hv ih
      · exact ask_plain hv fun s => trivial

theorem visitToken_plain (hv : v.Willing) (k : List StackElem × σ) (t : Token) :
    (visitToken v k t).Plain := by
  have hvisit : ∀ call, (afterVisitProc v k.1 k.2 call).Plain :=
    fun call => ask_plain hv (consume_plain hv k.1)
  have hstart : ∀ sv ev item type size,
      (startAggregate v k.1 k.2 sv ev item type size).Plain := by
    intro sv ev item type size
    refine ask_plain hv fun s => ?_
    split_ifs
    · exact ask_plain hv (consume_plain hv k.1)
    · exact ask_plain hv fun s => trivial
  cases t with
  | array size => exact hstart _ _ _ _ _
  | map size => exact hstart _ _ _ _ _
  | _ => exact hvisit _

theorem read_plain (hv : v.Willing) (k : List StackElem × σ) (xs : List UInt8) {c : Parsed Error σ}
    {rest : List UInt8} (h : (parser v).read (.header, k) xs = .halted c rest) : c.Plain := by
  refine read_rule (I := fun _ => True)
    (Q := fun o => ∀ c rest, o = Reader.Outcome.halted c rest → Parsed.Plain c) ?_ ?_ ?_
    trivial xs c rest h
  · intro k cs rest _ c rest' h
    cases h
  · intro k rest _ c rest' h
    obtain ⟨rfl, -⟩ := Reader.Outcome.halted.inj h
    trivial
  · intro k t _
    have hplain := visitToken_plain hv k t
    match htoken : visitToken v k t with
    | .goes l => exact .inl ⟨l, rfl, trivial⟩
    | .ends back c =>
      rw [htoken] at hplain
      refine .inr ⟨back, c, rfl, fun rest c' rest' h => ?_⟩
      obtain ⟨rfl, -⟩ := Reader.Outcome.halted.inj h
      exact hplain

end Willing

theorem createObjectVisitor_willing (limit : UnpackLimit) :
    (createObjectVisitor limit).Willing := by
  intro call s
  refine ⟨fun s' h => ?_, fun h => ?_⟩ <;> cases call <;>
    dsimp only [createObjectVisitor, CreateObjectVisitor.put, CreateObjectVisitor.start] at h <;>
    (try split_ifs at h) <;> cases h

/-- What `v3::unpack` makes of a reading. -/
def built {σ : Type} : Reader.Outcome σ UInt8 (Parsed Error CreateObjectVisitor) →
    Except Error (Object × List UInt8)
  | .waiting _ _ => .error .insufficientBytes
  | .halted (.success s) rest => .ok (s.obj, rest)
  | .halted (.stopVisitor _) rest => .ok (.nil, rest)
  | .halted (.parseError _) _ => .error .parseError
  | .halted (.threw e) _ => .error e

/-- The reading of `unpack` on all the bytes. -/
def readAt (limit : UnpackLimit) (data : List UInt8) (off : ℕ) :
    Reader.Outcome (Cs × List StackElem × CreateObjectVisitor) UInt8
      (Parsed Error CreateObjectVisitor) :=
  (parser (createObjectVisitor limit)).read (.header, [], ⟨.nil, []⟩) (data.drop off)

/-- `v3::unpack` is what its parser reads from the offset on. -/
theorem unpackV3_eq_read (limit : UnpackLimit) (data : List UInt8) (off : ℕ) :
    (unpackV3 limit data off).1 = (built (readAt limit data off)).map Prod.fst ∧
      ∀ p, built (readAt limit data off) = .ok p →
        (unpackV3 limit data off).2 = data.length - p.2.length := by
  rw [unpackV3, parseImp, readAt]
  split_ifs with hoff
  · rw [List.drop_of_length_le hoff]
    exact ⟨rfl, fun p hp => by cases hp⟩
  · rcases (parser (createObjectVisitor limit)).read (.header, [], ⟨.nil, []⟩) (data.drop off) with
      ⟨⟨_, _, s⟩, rest⟩ | ⟨c, rest⟩
    · exact ⟨rfl, fun p hp => by cases hp⟩
    cases c with
    | success s =>
      dsimp only
      split_ifs <;> exact ⟨rfl, fun p hp => by rw [← Except.ok.inj hp]⟩
    | stopVisitor s => exact ⟨rfl, fun p hp => by rw [← Except.ok.inj hp]⟩
    | parseError s => exact ⟨rfl, fun p hp => by cases hp⟩
    | threw e => exact ⟨rfl, fun p hp => by cases hp⟩

/-- Nothing is read past the end. -/
theorem lt_of_built_ok {limit : UnpackLimit} {data : List UInt8} {off : ℕ}
    {p : Object × List UInt8} (h : built (readAt limit data off) = .ok p) : off < data.length := by
  by_contra hoff
  rw [readAt, List.drop_of_length_le (not_lt.mp hoff)] at h
  cases h

/-- What is found is found with more bytes, too. -/
theorem built_append {limit : UnpackLimit} {data : List UInt8} {off : ℕ} {obj : Object}
    {rest : List UInt8} (h : built (readAt limit data off) = .ok (obj, rest)) (more : List UInt8) :
    built (readAt limit (data ++ more) off) = .ok (obj, rest ++ more) := by
  have hoff := lt_of_built_ok h
  rw [readAt] at h ⊢
  rw [List.drop_append_of_le_length hoff.le, Reader.read_append]
  match hread : (parser (createObjectVisitor limit)).read (.header, [], ⟨.nil, []⟩)
      (data.drop off) with
  | .waiting s left =>
    rw [hread] at h
    cases h
  | .halted c left =>
    rw [hread] at h
    rw [Reader.Outcome.thenRead]
    cases c with
    | success s | stopVisitor s =>
      obtain ⟨rfl, rfl⟩ := Prod.mk.inj (Except.ok.inj h)
      rfl
    | parseError s => cases h
    | threw e => cases h

/-- `unpack` finds an object exactly where its parser does, and stops behind it. -/
theorem unpackV3_eq_ok_iff {limit : UnpackLimit} {data : List UInt8} {off off' : ℕ} {obj : Object} :
    unpackV3 limit data off = (.ok obj, off') ↔ ∃ rest,
      built (readAt limit data off) = .ok (obj, rest) ∧ off' = data.length - rest.length := by
  obtain ⟨hobj, hoff⟩ := unpackV3_eq_read limit data off
  constructor
  · intro h
    rw [h] at hobj hoff
    match hbuilt : built (readAt limit data off) with
    | .error e =>
      rw [hbuilt] at hobj
      cases hobj
    | .ok (obj', rest) =>
      rw [hbuilt] at hobj
      obtain rfl : obj = obj' := Except.ok.inj hobj
      exact ⟨rest, rfl, hoff _ hbuilt⟩
  · rintro ⟨rest, hbuilt, rfl⟩
    rw [hbuilt] at hobj
    exact Prod.ext hobj (hoff _ hbuilt)

theorem unpackV3_append {limit : UnpackLimit} {data : List UInt8} {off off' : ℕ} {obj : Object}
    (h : unpackV3 limit data off = (.ok obj, off')) (more : List UInt8) :
    unpackV3 limit (data ++ more) off = (.ok obj, off') := by
  obtain ⟨rest, hbuilt, rfl⟩ := unpackV3_eq_ok_iff.mp h
  refine unpackV3_eq_ok_iff.mpr ⟨rest ++ more, built_append hbuilt more, ?_⟩
  rw [List.length_append, List.length_append, Nat.add_sub_add_right]

/-- More bytes change nothing about the objects that were found. -/
theorem Unpacks.append {limit : UnpackLimit} {data : List UInt8} {off off' : ℕ} {objs : List Object}
    (h : Unpacks limit data off objs off') (more : List UInt8) :
    Unpacks limit (data ++ more) off objs off' := by
  induction h with
  | nil => exact .nil _
  | snoc _ hobj ih => exact .snoc ih (unpackV3_append hobj more)

/-! ## Sessions -/

/-- What a user calls. -/
inductive UnpackerCall where
  /-- `reserve_buffer`, with what the counter of the buffer and `referenced` say then. -/
  | reserve (sole : Bool) (size : ℕ)
  /-- Bytes are copied to `buffer()` and `buffer_consumed` is called. -/
  | write (bytes : List UInt8)
  | next

/-- A call, with the object it returns; it fails where memory or room is short, or it throws. -/
def Unpacker.call (m : Malloc) (limit : UnpackLimit) (u : Unpacker) :
    UnpackerCall → Option (List Object × Unpacker)
  | .reserve sole size => (u.reserveBuffer m sole size).map fun u => ([], u)
  | .write bytes =>
    if bytes.length ≤ u.free then some ([], (u.copyIn bytes).bufferConsumed bytes.length) else none
  | .next => match u.next limit with
    | .ok (obj, u) => some (obj.toList, u)
    | .error _ => none

/-- A session: the objects that were returned, and the unpacker it leaves. -/
def Unpacker.session (m : Malloc) (limit : UnpackLimit) (u : Unpacker) :
    List UnpackerCall → Option (List Object × Unpacker)
  | [] => some ([], u)
  | c :: calls => do
    let (objs, u) ← u.call m limit c
    let (more, u) ← u.session m limit calls
    return (objs ++ more, u)

/-- All that was written. -/
def written (calls : List UnpackerCall) : List UInt8 :=
  calls.flatMap fun
    | .write bytes => bytes
    | _ => []

/-- `next` is what `unpack` would do on all the bytes: an object, none as yet, or an exception. -/
def NextAgrees (next : Except Error (Option Object × Unpacker)) : Except Error Object → Prop
  | .ok obj => ∃ u, next = .ok (some obj, u)
  | .error .insufficientBytes => ∃ u, next = .ok (none, u)
  | .error e => next = .error e

/-- **The unpacker stands where `unpack` would, on all the bytes so far**: at `done` after so many
objects, with the rest of them in its context or not parsed. -/
structure Unpacker.Tracks (limit : UnpackLimit) (data : List UInt8) (objs : List Object) (done : ℕ)
    (u : Unpacker) : Prop where
  wellFormed : u.WellFormed
  unpacks : Unpacks limit data 0 objs done
  done_le : done ≤ data.length
  readAt_eq : readAt limit data done
    = (parser (createObjectVisitor limit)).read (u.cs, u.stack, u.visitor) u.nonparsed
  length_pending : u.parsed + u.nonparsed.length = data.length - done

/-! What each call does to where the unpacker stands. -/

section Tracks

variable {limit : UnpackLimit} {data : List UInt8} {objs : List Object} {done : ℕ}

theorem Unpacker.Tracks.keepsData (h : u.Tracks limit data objs done) (hwf : u'.WellFormed)
    (hkeeps : u.KeepsData u') : u'.Tracks limit data objs done := by
  obtain ⟨hcs, hctx⟩ := Prod.mk.inj hkeeps.context
  obtain ⟨hstack, hvisitor⟩ := Prod.mk.inj hctx
  refine ⟨hwf, h.unpacks, h.done_le, ?_, ?_⟩
  · rw [hkeeps.nonparsed, hkeeps.context]
    exact h.readAt_eq
  · rw [hkeeps.nonparsed, hkeeps.parsed]
    exact h.length_pending

/-- `reserve_buffer` moves the bytes, at most. -/
theorem Unpacker.Tracks.reserve (h : u.Tracks limit data objs done) {sole : Bool} {size : ℕ}
    (hsize : size < 2 ^ 63) (hreserve : u.reserveBuffer m sole size = some u') :
    u'.Tracks limit data objs done := by
  have hlen := h.wellFormed.length_buffer
  have hlt := h.wellFormed.length_lt
  obtain ⟨hwf, -, hkeeps⟩ := reserveBuffer_spec h.wellFormed (by omega) hreserve
  exact h.keepsData hwf hkeeps

/-- What is written comes behind all that was written before. -/
theorem Unpacker.Tracks.write (h : u.Tracks limit data objs done) {bytes : List UInt8}
    (hfree : bytes.length ≤ u.free) :
    ((u.copyIn bytes).bufferConsumed bytes.length).Tracks limit (data ++ bytes) objs done := by
  obtain ⟨hwf, hnonparsed⟩ := copyIn_spec h.wellFormed hfree
  have hpending := h.length_pending
  have hdone := h.done_le
  refine ⟨hwf, h.unpacks.append bytes, ?_, ?_, ?_⟩
  · exact hdone.trans (by rw [List.length_append]; omega)
  · rw [hnonparsed, readAt, List.drop_append_of_le_length hdone]
    exact Reader.read_append_congr h.readAt_eq bytes
  · rw [hnonparsed, List.length_append, List.length_append]
    change u.parsed + (u.nonparsed.length + bytes.length) = data.length + bytes.length - done
    omega

/-- What `execute` leaves over is what is not parsed then. -/
theorem Unpacker.advance_spec (h : u.WellFormed) {rest : List UInt8}
    (hrest : rest <:+ u.nonparsed) :
    (u.advance rest).WellFormed ∧ (u.advance rest).nonparsed = rest ∧
      (u.advance rest).parsed + rest.length = u.parsed + u.nonparsed.length := by
  have hlength := length_nonparsed h
  have hle := hrest.length_le
  obtain ⟨hcounter, hoff, hlen, hlt, hinitial, hinitialLt⟩ := h
  refine ⟨⟨?_, Nat.sub_le _ _, hlen, hlt, hinitial, hinitialLt⟩, ?_, ?_⟩
  · change counterSize ≤ u.used - rest.length
    omega
  · have hdrop := List.suffix_iff_eq_drop.mp hrest
    calc (u.buffer.take u.used).drop (u.used - rest.length)
        = ((u.buffer.take u.used).drop u.off).drop (u.nonparsed.length - rest.length) := by
          rw [List.drop_drop]
          congr 1
          omega
      _ = rest := hdrop.symm
  · change u.parsed + (u.used - rest.length - u.off) + rest.length = _
    omega

/-- **`next` is `unpack` on all the bytes**, from where the unpacker stands; and it stands behind
the object then, if there is one. -/
theorem Unpacker.Tracks.next_spec (h : u.Tracks limit data objs done) :
    NextAgrees (u.next limit) (unpackV3 limit data done).1 ∧
      ∀ obj u', u.next limit = .ok (obj, u') →
        ∃ done', u'.Tracks limit data (objs ++ obj.toList) done' := by
  have hread := h.readAt_eq
  have hpending := h.length_pending
  have hsuffix : (readAt limit data done).left <:+ u.nonparsed := by
    rw [hread]
    exact Reader.left_read_suffix _ _ _
  rw [(unpackV3_eq_read limit data done).1, next, ← hread]
  match hready : readAt limit data done with
  | .waiting (cs, stack, visitor) rest =>
    replace hsuffix : rest <:+ u.nonparsed := by rwa [hready] at hsuffix
    obtain ⟨hwf, hnonparsed, hparsed⟩ := advance_spec h.wellFormed hsuffix
    refine ⟨⟨_, rfl⟩, fun obj u' hu' => ?_⟩
    obtain ⟨rfl, rfl⟩ := Prod.mk.inj (Except.ok.inj hu')
    refine ⟨done, ⟨hwf.1, hwf.2, hwf.3, hwf.4, hwf.5, hwf.6⟩, ?_, h.done_le, ?_, ?_⟩
    · rw [Option.toList_none, List.append_nil]
      exact h.unpacks
    · rw [hready]
      exact (Reader.read_of_waiting hready).symm.trans (congrArg _ hnonparsed.symm)
    · change (u.advance rest).parsed + (u.advance rest).nonparsed.length = _
      rw [hnonparsed, hparsed, hpending]
  | .halted (.success s) rest =>
    have hbuilt : built (readAt limit data done) = .ok (s.obj, rest) := by
      rw [hready]
      rfl
    have hfound := unpackV3_eq_ok_iff.mpr ⟨rest, hbuilt, rfl⟩
    have hleft : rest <:+ data.drop done := by
      have := Reader.left_read_suffix (parser (createObjectVisitor limit)) (.header, [], ⟨.nil, []⟩)
        (data.drop done)
      rwa [← readAt, hready] at this
    have hdrop : data.drop (data.length - rest.length) = rest :=
      (List.suffix_iff_eq_drop.mp (hleft.trans (List.drop_suffix done data))).symm
    replace hsuffix : rest <:+ u.nonparsed := by rwa [hready] at hsuffix
    obtain ⟨hwf, hnonparsed, hparsed⟩ := advance_spec h.wellFormed hsuffix
    refine ⟨⟨_, rfl⟩, fun obj u' hu' => ?_⟩
    obtain ⟨rfl, rfl⟩ := Prod.mk.inj (Except.ok.inj hu')
    refine ⟨data.length - rest.length, ⟨hwf.1, hwf.2, hwf.3, hwf.4, hwf.5, hwf.6⟩,
      h.unpacks.snoc hfound, Nat.sub_le _ _, ?_, ?_⟩
    · rw [readAt, hdrop]
      exact congrArg _ hnonparsed.symm
    · change 0 + (u.advance rest).nonparsed.length = _
      rw [hnonparsed]
      omega
  | .halted (.stopVisitor s) rest =>
    exact (read_plain (createObjectVisitor_willing limit) _ _ hready).elim
  | .halted (.parseError s) rest => exact ⟨rfl, fun obj u' hu' => by cases hu'⟩
  | .halted (.threw e) rest =>
    have hplain : e ≠ .insufficientBytes :=
      read_plain (createObjectVisitor_willing limit) _ _ hready
    refine ⟨?_, fun obj u' hu' => by cases hu'⟩
    cases e with
    | insufficientBytes => exact absurd rfl hplain
    | _ => rfl

/-- **A call of the user's**, one step: the unpacker stands where `unpack` would, with what was
written and what was returned added. -/
theorem Unpacker.Tracks.call (h : u.Tracks limit data objs done) {c : UnpackerCall}
    (hreserve : ∀ sole size, c = .reserve sole size → size < 2 ^ 63) {more : List Object}
    (hcall : u.call m limit c = some (more, u')) :
    ∃ done', u'.Tracks limit (data ++ written [c]) (objs ++ more) done' := by
  cases c with
  | reserve sole size =>
    obtain ⟨u'', hu'', heq⟩ := Option.map_eq_some_iff.mp hcall
    obtain ⟨rfl, rfl⟩ := Prod.mk.inj heq
    refine ⟨done, ?_⟩
    rw [List.append_nil, show written [.reserve sole size] = [] from rfl, List.append_nil]
    exact h.reserve (hreserve sole size rfl) hu''
  | write bytes =>
    obtain ⟨hfree, heq⟩ := Option.ite_none_right_eq_some.mp hcall
    obtain ⟨rfl, rfl⟩ := Prod.mk.inj (Option.some.inj heq)
    refine ⟨done, ?_⟩
    rw [List.append_nil, show written [.write bytes] = bytes from List.append_nil bytes]
    exact h.write hfree
  | next =>
    rw [Unpacker.call] at hcall
    match hnext : u.next limit with
    | .error e =>
      rw [hnext] at hcall
      cases hcall
    | .ok (obj, u'') =>
      rw [hnext] at hcall
      obtain ⟨rfl, rfl⟩ := Prod.mk.inj (Option.some.inj hcall)
      rw [show written [.next] = [] from rfl, List.append_nil]
      exact h.next_spec.2 obj u'' hnext

/-- The whole of a session, from wherever the unpacker stands. -/
theorem Unpacker.Tracks.session (h : u.Tracks limit data objs done) {calls : List UnpackerCall}
    (hreserve : ∀ sole size, .reserve sole size ∈ calls → size < 2 ^ 63) {more : List Object}
    (hsession : u.session m limit calls = some (more, u')) :
    ∃ done', u'.Tracks limit (data ++ written calls) (objs ++ more) done' := by
  induction calls generalizing u data objs done more with
  | nil =>
    obtain ⟨rfl, rfl⟩ := Prod.mk.inj (Option.some.inj hsession)
    refine ⟨done, ?_⟩
    rwa [show written [] = [] from rfl, List.append_nil, List.append_nil]
  | cons c calls ih =>
    rw [Unpacker.session] at hsession
    obtain ⟨⟨now, u₁⟩, hcall, hsession⟩ := Option.bind_eq_some_iff.mp hsession
    obtain ⟨⟨later, u₂⟩, hlater, heq⟩ := Option.bind_eq_some_iff.mp hsession
    obtain ⟨rfl, rfl⟩ := Prod.mk.inj (Option.some.inj heq)
    obtain ⟨done₁, h₁⟩ := h.call
      (fun sole size hc => hreserve sole size (hc ▸ List.mem_cons_self)) hcall
    obtain ⟨done₂, h₂⟩ := ih h₁
      (fun sole size hmem => hreserve sole size (List.mem_cons_of_mem c hmem)) hlater
    refine ⟨done₂, ?_⟩
    have hwritten : written (c :: calls) = written [c] ++ written calls := by
      rw [written, written, written, ← List.flatMap_append]
      rfl
    rw [hwritten, ← List.append_assoc, ← List.append_assoc]
    exact h₂

/-- A fresh unpacker stands at the beginning of nothing. -/
theorem Unpacker.construct_tracks {initialBufferSize : ℕ}
    (h : construct m initialBufferSize = some u) : u.Tracks limit [] [] 0 := by
  obtain ⟨hgrants, heq⟩ := Option.ite_none_right_eq_some.mp h
  obtain rfl := Option.some.inj heq
  have hlt := m.lt_of_grants hgrants
  generalize hsize : (if initialBufferSize < counterSize then counterSize
    else initialBufferSize) = size at *
  have hcounter : counterSize ≤ size := by
    rw [← hsize]
    split_ifs <;> omega
  have hwf : (Unpacker.mk (List.replicate size 0) counterSize (size - counterSize) counterSize 0
      size .header [] ⟨.nil, []⟩).WellFormed :=
    ⟨le_rfl, le_rfl, by rw [List.length_replicate]; exact Nat.add_sub_cancel' hcounter,
      by rwa [List.length_replicate], hcounter, hlt⟩
  have hempty := List.length_eq_zero_iff.mp ((length_nonparsed hwf).trans (Nat.sub_self _))
  exact ⟨hwf, .nil 0, le_rfl, by rw [hempty]; rfl, by rw [hempty]; rfl⟩

end Tracks

/-- **Piece by piece is all at once**: in any session from the constructor on, the objects returned
are those that `unpack` finds one after another in all that was written; `message_size` is what was
written behind them; and `next` answers as `unpack` would there. -/
theorem session_unpacks {limit : UnpackLimit} {initialBufferSize : ℕ} {calls : List UnpackerCall}
    {objs : List Object} (hconstruct : Unpacker.construct m initialBufferSize = some u)
    (hreserve : ∀ sole size, .reserve sole size ∈ calls → size < 2 ^ 63)
    (hsession : u.session m limit calls = some (objs, u')) :
    ∃ done ≤ (written calls).length, Unpacks limit (written calls) 0 objs done ∧
      u'.messageSize = (written calls).length - done ∧
      NextAgrees (u'.next limit) (unpackV3 limit (written calls) done).1 := by
  obtain ⟨done, h⟩ := (Unpacker.construct_tracks hconstruct).session hreserve hsession
  refine ⟨done, h.done_le, h.unpacks, ?_, h.next_spec.1⟩
  rw [← List.nil_append (written calls), ← h.length_pending, Unpacker.length_nonparsed h.wellFormed]
  exact Nat.add_sub_assoc h.wellFormed.off_le _

theorem session_unpacks_two :
    ∃ u : Unpacker, ∃ done ≤ ([0x92, 0x05, 0x06, 0x91] : List UInt8).length,
      Unpacks {} [0x92, 0x05, 0x06, 0x91] 0 [.array [.positiveInteger 5, .positiveInteger 6]] done ∧
      u.messageSize = 4 - done ∧
      NextAgrees (u.next {}) (unpackV3 {} [0x92, 0x05, 0x06, 0x91] done).1 :=
  ⟨_, @session_unpacks ⟨fun n => decide (n < 2 ^ 63), of_decide_eq_true⟩ _ _ {} 64
    [.write [0x92], .next, .write [0x05, 0x06, 0x91], .next, .next] _ rfl (by simp) rfl⟩

end Msgpack

end RaftCore
