import RaftCore.Msgpack.InZone

/-!
# Msgpack/InPlace — the reader in memory refines the reader of objects

The parser with the visitor in memory goes with the parser of `CreateObject`, item by item: `malloc`
refuses, or both visitors throw the same, or both are done, and then what the one has built stands
where the other has put it (`TokenInPlace`).  Both are compared with `push_item` of the old context,
whose frames say which containers are open.

So **`v3::unpack` is right down to its pointers** (`unpackZone_refines`): it leaves `off` where
`unpackV3` does and throws what that throws, and what that returns stands in its zone.  The pieces
it stands in do not overlap, each is aligned and in a chunk, and nothing else in memory has been
written to.  Only where `malloc` has nothing for the zone, or no chunk for what the items ask for
that the parser gets to (`Asked`), is `bad_alloc` thrown; and only where it has none to start with
does the program end.
-/

namespace RaftCore

namespace Msgpack

open Extent Memory

section Items

variable {malloc : List (Extent ℕ) → ℕ → Option ℕ} {before : Memory Slot} {root : ℕ}
  {stack : List Frame} {s : ZoneVisitor} {obj : Object}

/-! ## What an item does -/

/-- The parser is done with an item, and the visitor with it, which has come to this zone. -/
def HandledInPlace (before : Memory Slot) (root : ℕ) (zone : Zone Empty) :
    Object ⊕ List Frame → Parsing Thrown ZoneVisitor → Prop
  | .inl obj, p => ∃ s, p = .ends false (.success s) ∧ Done before root [] s obj
  | .inr stack, p =>
    ∃ s, p = .goes (stack.map Frame.elem, s) ∧ s.zone = zone ∧ Ready before root stack s

/-- **`consume` is `push_item`** here too, since a container is where its items have been put. -/
theorem consume_inPlace (malloc : List (Extent ℕ) → ℕ → Option ℕ) (limit : UnpackLimit)
    (h : Done before root stack s obj) : HandledInPlace before root s.zone (pushItem stack obj)
      (consume (zoneVisitor malloc limit) (stack.map Frame.elem) s) := by
  induction stack generalizing s obj with
  | nil => exact ⟨s, rfl, h⟩
  | cons f stack ih =>
    have hmissing : 0 < f.missing := by
      obtain ⟨todo, frozen, hplaced, -⟩ := h
      exact hplaced.opened.missing_pos
    have hzone : s.advance.finish.zone = s.zone := s.advance.finish_zone
    cases f with
    | array items count =>
      change HandledInPlace before root s.zone
        (if count - 1 = 0 then pushItem stack (.array (items ++ [obj]))
          else .inr (.array (items ++ [obj]) (count - 1) :: stack))
        (if count - 1 = 0 then consume _ (stack.map Frame.elem) s.advance.finish
          else .goes (⟨.arrayItem, count - 1⟩ :: stack.map Frame.elem, s.advance))
      rw [Frame.missing] at hmissing
      split_ifs with hlast
      · exact hzone ▸ ih (h.last (show count = 1 by omega))
      · refine ⟨_, rfl, rfl, h.more (show 1 < count by omega) ?_ rfl rfl⟩
        rw [Frame.token, Frame.token, List.length_append, List.length_singleton]
        exact congrArg Token.array (by omega)
    | mapKey items count =>
      rw [Frame.missing] at hmissing
      exact ⟨_, rfl, rfl, h.more (show 1 < 2 * count by omega) rfl rfl rfl⟩
    | mapValue items key count =>
      have hitems : (items.flatMap fun p => [p.1, p.2]) ++ [key] ++ [obj]
          = (items ++ [(key, obj)]).flatMap fun p => [p.1, p.2] := by
        rw [List.flatMap_append, List.append_assoc]
        rfl
      change HandledInPlace before root s.zone
        (if count - 1 = 0 then pushItem stack (.map (items ++ [(key, obj)]))
          else .inr (.mapKey (items ++ [(key, obj)]) (count - 1) :: stack))
        (if count - 1 = 0 then consume _ (stack.map Frame.elem) s.advance.finish
          else .goes (⟨.mapKey, count - 1⟩ :: stack.map Frame.elem, s.advance))
      rw [Frame.missing] at hmissing
      split_ifs with hlast
      · have hdone := h.last (show 2 * count - 1 = 1 by omega)
        rw [Frame.token, Frame.filled, hitems, Token.build, pairs_flatMap] at hdone
        exact hzone ▸ ih hdone
      · refine ⟨_, rfl, rfl, h.more (show 1 < 2 * count - 1 by omega) ?_ hitems.symm ?_⟩
        · rw [Frame.token, Frame.token, List.length_append, List.length_singleton]
          exact congrArg Token.map (by omega)
        · rw [Frame.missing, Frame.missing]
          omega

/-- What the visitor asks its zone for: room for what is in an item. -/
def Token.asks : Token → List (ℕ × ℕ)
  | .str n => [(n.length, 1)]
  | .bin n => [(n.length, 1)]
  | .ext n => [(n.length, 1)]
  | .array n => if n = 0 then [] else [(n * sizeofObject, alignofObject)]
  | .map n => if n = 0 then [] else [(n * sizeofObjectKv, alignofObject)]
  | _ => []

/-- **An item with either visitor**: `malloc` refuses, or both throw the same, or both are done. -/
def TokenInPlace (malloc : List (Extent ℕ) → ℕ → Option ℕ) (asks : List (ℕ × ℕ))
    (before : Memory Slot) (root : ℕ) (zone : Zone Empty) (p : Parsing Error CreateObjectVisitor)
    (p' : Parsing Thrown ZoneVisitor) : Prop :=
  p' = .ends true (.threw .badAlloc) ∧ zone.allocateAll malloc asks = none ∨
    (∃ e, p = .ends true (.threw e) ∧ p' = .ends true (.threw (.error e))) ∨
    ∃ q zone', HandledAlike q p ∧ zone.allocateAll malloc asks = some zone' ∧
      HandledInPlace before root zone' q p'

variable {limit : UnpackLimit} {t : CreateObjectVisitor}

/-- A call for an item that is no container. -/
theorem afterVisitProc_inPlace (obj : Object) {call : Visit} {asks : List (ℕ × ℕ)}
    (ht : t.stack = stack.map Frame.filling)
    (hvisit : (∃ e, (createObjectVisitor limit).visit call t = .error e ∧
        (zoneVisitor malloc limit).visit call s = .error (.error e)) ∨
      (createObjectVisitor limit).visit call t = t.put obj ∧
        Yields malloc asks s ((zoneVisitor malloc limit).visit call s)
          fun s => Done before root stack s obj) :
    TokenInPlace malloc asks before root s.zone
      (afterVisitProc (createObjectVisitor limit) (stack.map Frame.elem) t call)
      (afterVisitProc (zoneVisitor malloc limit) (stack.map Frame.elem) s call) := by
  rw [afterVisitProc, afterVisitProc, Visitor.ask, Visitor.ask]
  rcases hvisit with ⟨e, herror, herror'⟩ | ⟨hput, ⟨hbad, hnone⟩ | ⟨s', hs', hsome, hdone⟩⟩
  · rw [herror, herror']
    exact .inr (.inl ⟨e, rfl, rfl⟩)
  · rw [hbad]
    exact .inl ⟨rfl, hnone⟩
  · rw [hput, hs']
    exact .inr (.inr ⟨_, _, consume_alike stack { t with obj := obj } ht, hsome,
      consume_inPlace malloc limit hdone⟩)

/-- A string, or the like, within a limit. -/
theorem bytes_inPlace (obj : Object) {call : Visit} {e : Error} {v : List UInt8} {most : ℕ}
    {slot : ℕ → Slot} (h : Ready before root stack s)
    (hmalloc : ∀ chunks, Promises (malloc chunks) (chunks ++ [(rootPiece root).extent]))
    (ht : t.stack = stack.map Frame.filling)
    (hvisit : (createObjectVisitor limit).visit call t
      = if most < v.length then .error e else t.put obj)
    (hvisit' : (zoneVisitor malloc limit).visit call s
      = if most < v.length then .error (.error e) else s.putBytes malloc v slot)
    (hv : v.length ≤ 2 ^ 32) (hslot : ∀ p, slot p = obj.slot p) (hsized : obj.token.Sized)
    (hcontent : obj.content = v) (hitems : obj.items = []) :
    TokenInPlace malloc [(v.length, 1)] before root s.zone
      (afterVisitProc (createObjectVisitor limit) (stack.map Frame.elem) t call)
      (afterVisitProc (zoneVisitor malloc limit) (stack.map Frame.elem) s call) := by
  by_cases hmost : most < v.length
  · rw [if_pos hmost] at hvisit hvisit'
    exact afterVisitProc_inPlace obj ht (.inl ⟨e, hvisit, hvisit'⟩)
  · rw [if_neg hmost] at hvisit hvisit'
    refine afterVisitProc_inPlace obj ht (.inr ⟨hvisit, ?_⟩)
    rw [hvisit']
    exact h.putBytes hmalloc hv hslot hsized hcontent hitems

/-- The start of a container, within a limit. -/
theorem startAggregate_inPlace {sv ev item : Visit} {e : Error} {size most sizeof : ℕ}
    {slot : ℕ → Slot} {f : Frame} (h : Ready before root stack s)
    (hmalloc : ∀ chunks, Promises (malloc chunks) (chunks ++ [(rootPiece root).extent]))
    (ht : t.stack = stack.map Frame.filling) (hf : f = .array [] size ∨ f = .mapKey [] size)
    (hsv : (createObjectVisitor limit).visit sv t
      = if most < size then .error e
        else if limit.depth < t.stack.length + 1 then .error .depthSizeOverflow
        else t.start f.filling)
    (hsv' : (zoneVisitor malloc limit).visit sv s
      = if most < size then .error (.error e)
        else if limit.depth < s.below.length + 1 then .error (.error .depthSizeOverflow)
        else s.start malloc size sizeof e slot)
    (hev : ∀ t, (createObjectVisitor limit).visit ev t = .ok (true, t.finish))
    (hev' : ∀ s, (zoneVisitor malloc limit).visit ev s = .ok (true, s.finish))
    (hitem : ∀ t, (createObjectVisitor limit).visit item t = .ok (true, t))
    (hitem' : ∀ s, (zoneVisitor malloc limit).visit item s = .ok (true, s))
    (hslot : ∀ p, slot p = f.token.header p) (hsize : size < 2 ^ 32)
    (hsizeof : 0 < sizeof ∧ sizeof ≤ 48) (hroom : size * sizeof = sizeofObject * f.missing) :
    TokenInPlace malloc (if size = 0 then [] else [(size * sizeof, alignofObject)]) before root
      s.zone
      (startAggregate (createObjectVisitor limit) (stack.map Frame.elem) t sv ev item f.elem.type
        size)
      (startAggregate (zoneVisitor malloc limit) (stack.map Frame.elem) s sv ev item f.elem.type
        size) := by
  have hdepth : s.below.length = t.stack.length := by
    obtain ⟨todo, frozen, hplaced⟩ := h
    rw [ht, List.length_map, hplaced.opened.length_below]
  have hfilled : f.filled = [] := by rcases hf with rfl | rfl <;> rfl
  have hsized : f.token.Sized := by
    rcases hf with rfl | rfl <;>
    · rw [Frame.token, List.length_nil, Nat.zero_add]
      exact hsize
  have helem : (⟨f.elem.type, size⟩ : StackElem) = f.elem := by rcases hf with rfl | rfl <;> rfl
  rw [startAggregate, startAggregate, Visitor.ask, Visitor.ask, hsv, hsv', hdepth]
  by_cases hmost : most < size
  · rw [if_pos hmost, if_pos hmost]
    exact .inr (.inl ⟨e, rfl, rfl⟩)
  rw [if_neg hmost, if_neg hmost]
  by_cases hdeep : limit.depth < t.stack.length + 1
  · rw [if_pos hdeep, if_pos hdeep]
    exact .inr (.inl ⟨_, rfl, rfl⟩)
  rw [if_neg hdeep, if_neg hdeep]
  dsimp only [CreateObjectVisitor.start]
  rcases Nat.eq_zero_or_pos size with rfl | hpos
  · have hempty : slot 0 = f.filling.object.slot 0 ∧ f.filling.object.token.Sized ∧
        f.filling.object.content = [] ∧ f.filling.object.items = [] := by
      rw [hslot]
      rcases hf with rfl | rfl <;> exact ⟨rfl, hsize, rfl, rfl⟩
    obtain ⟨hslot0, hsized0, hcontent, hitems⟩ := hempty
    have hstart : Yields malloc [] s (s.start malloc 0 sizeof e slot)
        fun s => Done before root stack s.finish f.filling.object :=
      h.start_empty hslot0 hsized0 hcontent hitems
    rw [if_pos rfl]
    rcases hstart with ⟨hbad, hnone⟩ | ⟨s', hs', hsome, hdone⟩
    · rw [hbad]
      exact .inl ⟨rfl, hnone⟩
    · rw [hs']
      dsimp only
      rw [if_pos rfl, if_pos rfl, Visitor.ask, Visitor.ask, hev, hev']
      rw [← s'.finish_zone] at hsome
      exact .inr (.inr ⟨_, _, consume_alike stack ⟨f.filling.object, t.stack⟩ ht, hsome,
        consume_inPlace malloc limit hdone⟩)
  · have hmissing : 0 < f.missing := by
      rcases hf with rfl | rfl
      · exact hpos
      · exact Nat.mul_pos Nat.two_pos hpos
    have hstart : Yields malloc [(size * sizeof, alignofObject)] s
        (s.start malloc size sizeof e slot) (Ready before root (f :: stack)) :=
      h.start hmalloc hslot hsized hfilled hmissing hsize hsizeof hroom
    rw [if_neg hpos.ne']
    rcases hstart with ⟨hbad, hnone⟩ | ⟨s', hs', hsome, hready⟩
    · rw [hbad]
      exact .inl ⟨rfl, hnone⟩
    · rw [hs']
      dsimp only
      rw [if_neg hpos.ne', if_neg hpos.ne', Visitor.ask, Visitor.ask, hitem, hitem', helem]
      refine .inr (.inr ⟨.inr (f :: stack), _, ⟨_, rfl, rfl, ?_⟩, hsome, s', rfl, rfl, hready⟩)
      rw [ht]
      rfl

/-- **An item in place**: whatever it is, the visitor of objects and the one in memory do alike with
it, but for `bad_alloc`. -/
theorem visitToken_inPlace
    (hmalloc : ∀ chunks, Promises (malloc chunks) (chunks ++ [(rootPiece root).extent]))
    (h : Ready before root stack s) (ht : t.stack = stack.map Frame.filling) {bytes : List UInt8}
    {token : Token} (htoken : Spells bytes token) (hbytes : bytes.length < 2 ^ 32) :
    TokenInPlace malloc token.asks before root s.zone
      (visitToken (createObjectVisitor limit) (stack.map Frame.elem, t) token)
      (visitToken (zoneVisitor malloc limit) (stack.map Frame.elem, s) token) := by
  have hsized := fun hneg => htoken.sized hneg
  have hlength : ∀ n, token = .str n ∨ token = .bin n ∨ token = .ext n → n.length < 2 ^ 32 :=
    fun n hn => (htoken.length_content hn).trans_lt hbytes
  have hcast : ∀ n, token = .str n ∨ token = .bin n ∨ token = .ext n → castSize n = n :=
    fun n hn => castSize_of_lt (hlength n hn)
  have hput : ∀ (obj : Object) call, (createObjectVisitor limit).visit call t = t.put obj →
      (zoneVisitor malloc limit).visit call s = s.put (obj.slot 0) → obj.token.Sized →
      obj.content = [] → obj.items = [] → TokenInPlace malloc [] before root s.zone
        (afterVisitProc (createObjectVisitor limit) (stack.map Frame.elem) t call)
        (afterVisitProc (zoneVisitor malloc limit) (stack.map Frame.elem) s call) := by
    intro obj call hvisit hvisit' hsized hcontent hitems
    refine afterVisitProc_inPlace obj ht (.inr ⟨hvisit, ?_⟩)
    rw [hvisit']
    exact h.put hsized hcontent hitems
  cases token with
  | nil => exact hput .nil .visitNil rfl rfl trivial rfl rfl
  | boolean b => exact hput (.boolean b) (.visitBoolean b) rfl rfl trivial rfl rfl
  | uint u64 =>
    exact hput (.positiveInteger u64) (.visitPositiveInteger u64) rfl rfl trivial rfl rfl
  | float bits => exact hput (.float32 bits) (.visitFloat32 bits) rfl rfl trivial rfl rfl
  | double bits => exact hput (.float64 bits) (.visitFloat64 bits) rfl rfl trivial rfl rfl
  | int d =>
    by_cases hsign : 0 ≤ Int64.ofInt d
    · exact hput (.positiveInteger (Int64.ofInt d).toUInt64) (.visitNegativeInteger _)
        (if_pos hsign) (if_pos hsign) trivial rfl rfl
    · refine hput (.negativeInteger (Int64.ofInt d)) (.visitNegativeInteger _) (if_neg hsign)
        (if_neg hsign) ⟨Int64.le_toInt _, ?_⟩ rfl rfl
      rwa [Int64.le_iff_toInt_le, not_le] at hsign
  | str n =>
    rw [visitToken, visitToken, hcast n (.inl rfl)]
    exact bytes_inPlace (.str n) h hmalloc ht rfl rfl (hlength n (.inl rfl)).le
      (fun _ => rfl) (hsized fun _ hd => by cases hd) rfl rfl
  | bin n =>
    rw [visitToken, visitToken, hcast n (.inr (.inl rfl))]
    exact bytes_inPlace (.bin n) h hmalloc ht rfl rfl (hlength n (.inr (.inl rfl))).le
      (fun _ => rfl) (hsized fun _ hd => by cases hd) rfl rfl
  | ext n =>
    rw [visitToken, visitToken, hcast n (.inr (.inr rfl))]
    exact bytes_inPlace (.ext n) h hmalloc ht rfl rfl (hlength n (.inr (.inr rfl))).le
      (fun _ => rfl) (hsized fun _ hd => by cases hd) rfl rfl
  | array n =>
    have hn : n < 2 ^ 32 := hsized fun _ hd => by cases hd
    exact startAggregate_inPlace (f := .array [] n) h hmalloc ht (.inl rfl) rfl rfl (fun _ => rfl)
      (fun _ => rfl) (fun _ => rfl) (fun _ => rfl)
      (fun p => by rw [Frame.token, List.length_nil, Nat.zero_add]; rfl) hn (by decide)
      (Nat.mul_comm _ _)
  | map n =>
    have hn : n < 2 ^ 32 := hsized fun _ hd => by cases hd
    refine startAggregate_inPlace (f := .mapKey [] n) h hmalloc ht (.inr rfl) rfl rfl (fun _ => rfl)
      (fun _ => rfl) (fun _ => rfl) (fun _ => rfl)
      (fun p => by rw [Frame.token, List.length_nil, Nat.zero_add]; rfl) hn (by decide) ?_
    rw [sizeofObjectKv, sizeofObject, Frame.missing]
    omega

/-! ## All the bytes -/

/-- **What has been read** of some bytes: the items, where the reader is then, and what is left. -/
inductive Reads {κ γ : Type} (handle : κ → Token → Handled κ γ) (start : κ) (data : List UInt8) :
    List Token → κ → List UInt8 → Prop where
  | nothing : Reads handle start data [] start data
  | item {tokens : List Token} {k k' : κ} {bytes rest : List UInt8} {token : Token}
    (h : Reads handle start data tokens k (bytes ++ rest)) (htoken : Spells bytes token)
    (hgoes : handle k token = .goes k') : Reads handle start data (tokens ++ [token]) k' rest

/-- So much do the items ask for that the reader gets to, up to one of them. -/
def Asked (limit : UnpackLimit) (data : List UInt8) (asks : List (ℕ × ℕ)) : Prop :=
  ∃ tokens k bytes rest token, Reads (visitToken (createObjectVisitor limit)) ([], ⟨.nil, []⟩) data
    tokens k (bytes ++ rest) ∧ Spells bytes token ∧ asks = (tokens ++ [token]).flatMap Token.asks

/-- The parsers end alike with the two visitors, unless `malloc` refuses. -/
inductive EndsInPlace (before : Memory Slot) (root : ℕ) (refuses : Prop) :
    Reader.Outcome (Cs × List StackElem × CreateObjectVisitor) UInt8
      (Parsed Error CreateObjectVisitor) →
    Reader.Outcome (Cs × List StackElem × ZoneVisitor) UInt8 (Parsed Thrown ZoneVisitor) →
    Prop where
  | waiting (cs : Cs) (k : List StackElem × CreateObjectVisitor) (k' : List StackElem × ZoneVisitor)
    (rest : List UInt8) :
    EndsInPlace before root refuses (.waiting (cs, k) rest) (.waiting (cs, k') rest)
  | success {t : CreateObjectVisitor} {s : ZoneVisitor} (h : Done before root [] s t.obj)
    (rest : List UInt8) :
    EndsInPlace before root refuses (.halted (.success t) rest) (.halted (.success s) rest)
  | threw (e : Error) (rest : List UInt8) :
    EndsInPlace before root refuses (.halted (.threw e) rest) (.halted (.threw (.error e)) rest)
  | parseError (t : CreateObjectVisitor) (s : ZoneVisitor) (rest : List UInt8) :
    EndsInPlace before root refuses (.halted (.parseError t) rest) (.halted (.parseError s) rest)
  | badAlloc (o : Reader.Outcome (Cs × List StackElem × CreateObjectVisitor) UInt8
      (Parsed Error CreateObjectVisitor)) (h : refuses) (rest : List UInt8) :
    EndsInPlace before root refuses o (.halted (.threw .badAlloc) rest)

/-- **The parser in memory** reads what the parser of objects reads, unless the items it reads ask
for more than `malloc` has. -/
theorem read_inPlace (limit : UnpackLimit)
    (hmalloc : ∀ chunks, Promises (malloc chunks) (chunks ++ [(rootPiece root).extent]))
    (h : Ready before root [] s) {data : List UInt8} (hlen : data.length < 2 ^ 32) :
    EndsInPlace before root (∃ asks, Asked limit data asks ∧ s.zone.allocateAll malloc asks = none)
      ((parser (createObjectVisitor limit)).read (.header, [], ⟨.nil, []⟩) data)
      ((parser (zoneVisitor malloc limit)).read (.header, [], s) data) := by
  let zone := s.zone
  refine read_sim (R := fun k k' xs => xs.length < 2 ^ 32 ∧ (∃ tokens,
      Reads (visitToken (createObjectVisitor limit)) ([], ⟨.nil, []⟩) data tokens k xs ∧
        zone.allocateAll malloc (tokens.flatMap Token.asks) = some k'.2.zone) ∧
      ∃ stack, Alike stack k ∧ k'.1 = stack.map Frame.elem ∧ Ready before root stack k'.2)
    (Q := EndsInPlace before root _) (fun cs rest _ => .waiting cs _ _ rest)
    (fun _ => .parseError _ _ _) ?_ ⟨hlen, ⟨[], .nothing, rfl⟩, [], ⟨rfl, rfl⟩, rfl, h⟩
  rintro ⟨elems, t⟩ ⟨elems', s⟩ bytes rest token
    ⟨hlen, ⟨tokens, hreads, hzone⟩, stack, ⟨rfl, ht⟩, rfl, hready⟩ htoken
  rw [List.length_append] at hlen
  have hasks : zone.allocateAll malloc ((tokens ++ [token]).flatMap Token.asks)
      = s.zone.allocateAll malloc token.asks := by
    rw [List.flatMap_append, Zone.allocateAll_append, hzone, List.flatMap_singleton]
    rfl
  rcases visitToken_inPlace hmalloc hready ht htoken (by omega) with ⟨hbad, hnone⟩ |
    ⟨e, hthrew, hthrew'⟩ | ⟨obj | stack', zone', hhandled, hsome, hhandled'⟩
  · exact .inr (.inr ⟨true, _, hbad, fun rest' => .badAlloc _
      ⟨_, ⟨tokens, _, bytes, rest, token, hreads, htoken, rfl⟩, hasks.trans hnone⟩ rest'⟩)
  · exact .inr (.inl ⟨true, _, _, hthrew, hthrew', fun rest => .threw e rest⟩)
  · obtain ⟨t', hends, rfl⟩ := hhandled
    obtain ⟨s', hends', hdone⟩ := hhandled'
    exact .inr (.inl ⟨false, _, _, hends, hends', fun rest => .success hdone rest⟩)
  · obtain ⟨k, hgoes, halike⟩ := hhandled
    obtain ⟨s', hgoes', rfl, hready'⟩ := hhandled'
    exact .inl ⟨k, _, hgoes, hgoes', by omega,
      ⟨_, hreads.item htoken hgoes, hasks.trans hsome⟩, stack', halike, rfl, hready'⟩

end Items

/-- **An object in its zone**: it stands at `root`, all of it in pieces that do not overlap, that
are aligned and lie in the zone, but for `m_obj` itself; and nothing else was written to. -/
def InPlace (before : Memory Slot) (root : ℕ) (s : ZoneVisitor) (obj : Object) : Prop :=
  ∃ pieces : List Piece, ObjectsAt s.memory pieces root [obj] ∧
    (pieces.map Piece.extent).Pairwise Apart ∧ (∀ q ∈ pieces, q.align ∣ q.ptr) ∧
    (∀ q ∈ pieces, q.extent.Within (rootPiece root).extent ∨
      ∃ c ∈ s.zone.chunks, q.extent.Within (body c)) ∧
    Untouched before s.memory pieces

theorem Done.inPlace {before : Memory Slot} {root : ℕ} {s : ZoneVisitor} {obj : Object}
    (h : Done before root [] s obj) : InPlace before root s obj := by
  obtain ⟨todo, frozen, ⟨hinv, hopened, huntouched⟩, hobj⟩ := h
  obtain ⟨memory, zone, back, below⟩ := s
  cases hopened
  refine ⟨frozen, hobj, hinv.parcelled.taken_apart, hinv.aligned, fun q hq => ?_, huntouched⟩
  obtain ⟨b, hb, hwithin⟩ := hinv.parcelled.taken_within _ (List.mem_map_of_mem hq)
  rcases List.mem_append.mp hb with hb | hb
  · obtain ⟨c, hc, rfl⟩ := List.mem_map.mp hb
    exact .inr ⟨c, hc, hwithin⟩
  · obtain rfl := List.mem_singleton.mp hb
    exact .inl hwithin

/-- A nil object, and an empty zone. -/
theorem ready_start {malloc : ℕ → Option ℕ} {root : ℕ} {zone : Zone Empty} (mem : Memory Slot)
    (hroot : root + sizeofObject ≤ 2 ^ 63) (halign : alignofObject ∣ root)
    (hmalloc : Promises malloc [(rootPiece root).extent])
    (hzone : Zone.construct malloc zoneChunkSize = some zone) :
    Ready mem root [] ⟨mem.store sizeofObject root .nil, zone, root, []⟩ := by
  have hinv : ZoneUse.Inv [(rootPiece root).extent] ⟨zone, [rootPiece root], []⟩ :=
    @Zone.construct_inv _ _ _ _ [rootPiece root] hzone hmalloc (by decide)
      (List.pairwise_singleton _ _) (List.forall_mem_singleton.mpr hroot)
      (List.forall_mem_singleton.mpr halign)
  exact ⟨[], [], hinv, .root, store_untouched root .nil mem⟩

/-- **The reader in memory refines the reader of objects**: unless `malloc` refuses what the items
that are read ask for, it leaves `off` where that one does, throws what that one throws, and has in
its zone what that one returns. -/
theorem unpackZone_refines {malloc : List (Extent ℕ) → ℕ → Option ℕ} {root : ℕ}
    (hroot : root + sizeofObject ≤ 2 ^ 63) (halign : alignofObject ∣ root)
    (hmalloc : ∀ blocks, Promises (malloc blocks) (blocks ++ [(rootPiece root).extent]))
    (limit : UnpackLimit) (mem : Memory Slot) {data : List UInt8} (hlen : data.length < 2 ^ 32)
    (off : ℕ) :
    (unpackZone malloc limit root mem data off).1 = .error .badAlloc ∧
        (malloc [] sizeofZone = none ∨
          ∃ asks, Asked limit (data.drop off) asks ∧ NoPiece malloc zoneChunkSize asks) ∨
      (unpackZone malloc limit root mem data off).1 = .error .terminates ∧
        NoFirstChunk malloc zoneChunkSize ∨
      (unpackZone malloc limit root mem data off).2 = (unpackV3 limit data off).2 ∧
        (∀ e, (unpackV3 limit data off).1 = .error e →
          (unpackZone malloc limit root mem data off).1 = .error (.error e)) ∧
        ∀ obj, (unpackV3 limit data off).1 = .ok obj →
          ∃ s, (unpackZone malloc limit root mem data off).1 = .ok (some s) ∧
            InPlace mem root s obj := by
  rw [unpackZone, unpackV3]
  rcases newZone_cases malloc (show zoneChunkSize ≤ 2 ^ 62 by decide) with ⟨hnew, hnone⟩ |
    ⟨hnew, hnone⟩ | ⟨block, zone, hnew, hzone⟩
  · rw [hnew]
    exact .inl ⟨rfl, .inl hnone⟩
  · rw [hnew]
    exact .inr (.inl ⟨rfl, hnone⟩)
  have hpromises := promises_behind block hmalloc
  have hthrew : ∀ e : Error,
      (∀ e', (Except.error e : Except Error Object) = .error e' →
        (Except.error (.error e) : Except Thrown (Option ZoneVisitor)) = .error (.error e')) ∧
      ∀ obj, (Except.error e : Except Error Object) = .ok obj → ∃ s,
        (Except.error (.error e) : Except Thrown (Option ZoneVisitor)) = .ok (some s) ∧
          InPlace mem root s obj := by
    refine fun e => ⟨fun e' he => ?_, fun obj hobj => by cases hobj⟩
    rw [Except.error.inj he]
  rw [hnew]
  dsimp only
  rw [parseImp, parseImp]
  split_ifs with hoff
  · exact .inr (.inr ⟨rfl, hthrew _⟩)
  · have hdrop : (data.drop off).length < 2 ^ 32 :=
      (List.length_drop.trans_le (Nat.sub_le _ _)).trans_lt hlen
    have hready := ready_start mem hroot halign (hpromises []) hzone
    have hends := read_inPlace limit hpromises hready hdrop
    generalize (parser (createObjectVisitor limit)).read _ (data.drop off) = o at hends ⊢
    generalize (parser (zoneVisitor _ limit)).read _ (data.drop off) = o' at hends ⊢
    cases hends with
    | waiting cs k k' rest =>
      exact .inr (.inr ⟨rfl, hthrew _⟩)
    | @success t s h rest =>
      refine .inr (.inr ?_)
      dsimp only
      split_ifs <;>
      · refine ⟨rfl, (fun e he => by cases he), fun obj hobj => ⟨s, rfl, ?_⟩⟩
        exact Except.ok.inj hobj ▸ h.inPlace
    | threw e rest =>
      exact .inr (.inr ⟨rfl, hthrew _⟩)
    | parseError t s rest =>
      exact .inr (.inr ⟨rfl, hthrew _⟩)
    | badAlloc o h rest =>
      obtain ⟨asks, hasked, hnone⟩ := h
      exact .inl ⟨rfl, .inr ⟨asks, hasked, block, zone, hnew, hnone⟩⟩

/-- An array of a number and a string, by a `malloc` that never gives anything back. -/
theorem unpackZone_refines_array :
    ∃ (malloc : List (Extent ℕ) → ℕ → Option ℕ) (s : ZoneVisitor),
      (unpackZone malloc {} 16 (fun _ => .tail) [0x92, 0x05, 0xa1, 0x61] 0).1 = .ok (some s) ∧
        InPlace (fun _ => .tail) 16 s (.array [.positiveInteger 5, .str [0x61]]) := by
  let bump : List (Extent ℕ) → ℕ → Option ℕ := fun chunks n =>
    let base := (chunks.map stop).sum + 40
    if base + n ≤ 2 ^ 63 then some base else none
  have hbump : ∀ chunks, Promises (bump chunks) (chunks ++ [(rootPiece 16).extent]) := by
    intro chunks n c hc
    obtain ⟨hfits, hc⟩ := Option.ite_none_right_eq_some.mp hc
    obtain rfl := Option.some.inj hc
    refine ⟨hfits, List.forall_mem_append.mpr ⟨fun b hb => .inr ?_, ?_⟩⟩
    · exact (List.le_sum_of_mem (List.mem_map_of_mem hb)).trans (Nat.le_add_right _ _)
    · exact List.forall_mem_singleton.mpr (.inr (Nat.le_add_left _ _))
  have hok : (unpackZone bump {} 16 (fun _ => .tail) [0x92, 0x05, 0xa1, 0x61] 0).1.toBool
      = true := rfl
  rcases unpackZone_refines (by decide) (by decide) hbump {} (fun _ => .tail)
    (show [0x92, 0x05, 0xa1, 0x61].length < 2 ^ 32 by decide) 0 with ⟨hbad, -⟩ | ⟨hbad, -⟩ |
    ⟨-, -, hrefines⟩
  · rw [hbad] at hok
    cases hok
  · rw [hbad] at hok
    cases hok
  · obtain ⟨s, hs, hinPlace⟩ := hrefines _ rfl
    exact ⟨bump, s, hs, hinPlace⟩

end Msgpack

end RaftCore
